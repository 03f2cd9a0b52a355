/-
# `Loca.Wiki.Machine` — the wiki as a machine

The store calls that write wiki tables, in any order, from any caller and at any clock
value, between posts and restarts.  `failed` is the storage: a call whose SQL fails at some
statement, or at its commit, answers `storage` and keeps nothing.  A restart reopens the
same file and no boot step writes a wiki table.

`reviews` and `removed` are history variables.  No call reads them: `reviews` lists the
review windows accepted so far, `removed` the pages that have been removed and not
written again.
-/
import Loca.Base.Run
import Loca.Wiki.Effect

namespace Loca

open Check Table

inductive WikiCall
  | configure (room editor : String) (enabled : Bool) (interval : Nat)
  | schedule (room : String) (now : Nat)
  | claim (room principal : String) (now : Nat)
  | renew (room principal : String) (lease : WikiLease) (now : Nat)
  | finish (room principal : String) (update : WikiCommit) (lease : WikiLease) (now : Nat)
  | commit (room principal : String) (update : WikiCommit) (now : Nat)
  | edit (room actor slug : String) (page : WikiPageEdit) (cursor now : Nat)
  | remove (room principal slug : String) (removal : WikiPageRemoval) (now : Nat)
  | cancel (room : String)
  deriving DecidableEq, Repr

inductive WikiAnswer
  | done
  | scheduled (due : Bool)
  | claimed (batch : Option WikiBatch)
  | expires (time : Nat)
  | revision (n : Nat)
  deriving DecidableEq, Repr

def WikiCall.run (messages : List MessageRow) :
    WikiCall → WikiTables → Except WikiError (WikiAnswer × WikiTables)
  | .configure room editor enabled interval, t =>
      answer (fun _ => .done) (configureWiki room editor enabled interval t)
  | .schedule room now, t => answer .scheduled (scheduleWikiReview messages room now t)
  | .claim room principal now, t => answer .claimed (claimWikiReview messages room principal now t)
  | .renew room principal l now, t => answer .expires (renewWikiReview room principal l now t)
  | .finish room principal update l now, t =>
      answer .revision (finishWikiReview messages room principal update l now t)
  | .commit room principal update now, t =>
      answer .revision (commitWiki messages room principal update now t)
  | .edit room actor slug page cursor now, t =>
      answer .revision (editWikiPageFrom messages room actor slug page cursor now t)
  | .remove room principal slug removal now, t =>
      answer .revision (removeWikiPage room principal slug removal now t)
  | .cancel room, t => answer (fun _ => .done) (cancelWikiReview room t)

/-- An accepted review: the sources with `after < id ≤ through`. -/
structure ReviewWindow where
  room : String
  after : Nat
  through : Nat
  deriving DecidableEq, Repr

structure WikiState where
  messages : List MessageRow := []
  tables : WikiTables := {}
  reviews : List ReviewWindow := []
  removed : List WikiPageRow := []

inductive WikiInput
  | call (failed : Bool) (c : WikiCall)
  | post (m : MessageRow)
  | restart
  deriving DecidableEq, Repr

/-- The review window a successful call had accepted: a worker's batch, on its first
acceptance, or what lay between the cursor and a manual review. -/
def WikiCall.reviewed (t : WikiTables) : WikiCall → Option ReviewWindow
  | .finish room _ _ l _ =>
      if t.receipt room l = none then
        (t.batch l.batchId).map fun b => ⟨room, b.afterId, b.throughId⟩
      else none
  | .commit room _ update _ =>
      (t.row room).map fun w => ⟨room, w.reviewedThrough, update.reviewedThrough⟩
  | _ => none

/-- The pages without a successor: gone now, or gone before and not back. -/
def goneAfter (removed : List WikiPageRow) (t t' : WikiTables) : List WikiPageRow :=
  (removed ++ t.pages).filter fun p => !hasKey WikiPageRow.key p.key t'.pages

def wikiStep (s : WikiState) : WikiInput → Except WikiError WikiAnswer × WikiState
  | .restart => (.ok .done, s)
  | .post m =>
      match insertNew MessageRow.id m s.messages with
      | none => (.error .storage, s)
      | some messages => (.ok .done, { s with messages })
  | .call failed c =>
      match atomically failed .storage (c.run s.messages) s.tables with
      | (.error e, t) => (.error e, { s with tables := t })
      | (.ok a, t) =>
          (.ok a, { s with
            tables := t
            reviews := (c.reviewed s.tables).toList ++ s.reviews
            removed := goneAfter s.removed s.tables t })

/-- An installation whose wiki has not been used yet.  Message ids start at 1. -/
def wikiInit (s : WikiState) : Prop :=
  (s.messages.map MessageRow.id).Nodup ∧ (∀ m ∈ s.messages, 0 < m.id) ∧
    s.tables = {} ∧ s.reviews = [] ∧ s.removed = []

def wikiMachine : Sys.Machine WikiState WikiInput (Except WikiError WikiAnswer) where
  init := wikiInit
  step := wikiStep

/-- Every run: any call, any post, any restart, any failure. -/
abbrev anyInput (_ : WikiState) (_ : WikiInput) : Prop := True

/-- Any list of inputs is a run of a fresh installation. -/
theorem run_of_inputs (is : List WikiInput) :
    Sys.Run wikiMachine anyInput (wikiMachine.exec is [] {}).1 (wikiMachine.exec is [] {}).2 :=
  Sys.Run.exec is (Sys.Machine.admits_of_all (fun _ _ => trivial) is _)
    (.nil ⟨List.nodup_nil, by simp, rfl, rfl, rfl⟩)

/-! ## One step -/

/-- What a step can do: fail and change nothing, add a message, or carry out a call. -/
theorem wikiStep_cases (s : WikiState) (i : WikiInput) :
    (wikiStep s i).2 = s ∨
    (∃ m, i = .post m ∧ (∀ x ∈ s.messages, x.id ≠ m.id) ∧
      wikiStep s i = (.ok .done, { s with messages := s.messages ++ [m] })) ∨
    (∃ c a t, i = .call false c ∧ c.run s.messages s.tables = .ok (a, t) ∧
      wikiStep s i = (.ok a, { s with
        tables := t
        reviews := (c.reviewed s.tables).toList ++ s.reviews
        removed := goneAfter s.removed s.tables t })) := by
  cases i with
  | restart => exact .inl rfl
  | post m =>
      cases h : insertNew MessageRow.id m s.messages with
      | none => exact .inl (by simp [wikiStep, h])
      | some ms =>
          obtain ⟨hn, rfl⟩ := insertNew_eq_some.mp h
          exact .inr (.inl ⟨m, rfl, hn, by simp [wikiStep, h]⟩)
  | call failed c =>
      cases failed with
      | true => exact .inl rfl
      | false =>
          cases h : c.run s.messages s.tables with
          | error e => exact .inl (by simp [wikiStep, atomically, h])
          | ok r =>
              exact .inr (.inr ⟨c, r.1, r.2, rfl, h, by simp [wikiStep, atomically, h]⟩)

/-- A call that was answered was carried out. -/
theorem wikiStep_ok {s : WikiState} {failed : Bool} {c : WikiCall} {a : WikiAnswer}
    (h : (wikiStep s (.call failed c)).1 = .ok a) :
    ∃ t, c.run s.messages s.tables = .ok (a, t) ∧
      (wikiStep s (.call failed c)).2 = { s with
        tables := t
        reviews := (c.reviewed s.tables).toList ++ s.reviews
        removed := goneAfter s.removed s.tables t } := by
  cases failed with
  | true => simp [wikiStep, atomically] at h
  | false =>
      cases hr : c.run s.messages s.tables with
      | error e => simp [wikiStep, atomically, hr] at h
      | ok x =>
          simp only [wikiStep, atomically, hr, Bool.false_eq_true, if_false, Except.ok.injEq] at h ⊢
          exact ⟨x.2, by rw [← h], rfl⟩

/-- A call that was refused changed nothing at all. -/
theorem wikiStep_error {s : WikiState} {i : WikiInput} {e : WikiError}
    (h : (wikiStep s i).1 = .error e) : (wikiStep s i).2 = s := by
  rcases wikiStep_cases s i with hs | ⟨m, -, -, hs⟩ | ⟨c, a, t, -, -, hs⟩
  · exact hs
  · rw [hs] at h; cases h
  · rw [hs] at h; cases h

/-- An invariant of the tables is one that no successful call breaks. -/
theorem tables_invariant {I : WikiTables → Prop} (h₀ : I {})
    (hc : ∀ messages t (c : WikiCall) a t', I t → c.run messages t = .ok (a, t') → I t')
    {ok : WikiState → WikiInput → Prop} {tr : List (WikiInput × Except WikiError WikiAnswer)}
    {s : WikiState} (r : Sys.Run wikiMachine ok tr s) : I s.tables := by
  refine Sys.Run.invariant (I := fun s => I s.tables) ?_ ?_ r
  · rintro s ⟨-, -, ht, -⟩
    simpa [ht] using h₀
  · intro s i hI _
    show I (wikiStep s i).2.tables
    rcases wikiStep_cases s i with hs | ⟨m, -, -, hs⟩ | ⟨c, a, t, -, hrun, hs⟩
    · rw [hs]; exact hI
    · rw [hs]; exact hI
    · rw [hs]; exact hc _ _ c a t hI hrun

end Loca
