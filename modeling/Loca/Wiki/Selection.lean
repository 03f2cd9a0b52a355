/-
# `Loca.Wiki.Selection` — a packet is known by two numbers

An agent acknowledges a packet of pages by the wiki's revision and the version of its selection.  The server keeps no
packet: it compares the two numbers with those of now.  So the numbers have to say what was in the packet, in whatever
order the wiki is edited and the pages are selected in between.  They do: neither goes back, the revision moves with
every page and the version with every change of the selection (`fence_determines_packet`), and what is acknowledged was
current when it was first taken (`acknowledged_was_current`).

The machine is that of `Loca.Wiki.Machine` with the calls of `Loca.Store.WikiContext` between its own.
-/
import Loca.Store.WikiContext
import Loca.Wiki.History

namespace Loca

open Check Table

inductive ContextInput
  | wiki (i : WikiInput)
  | configure (failed : Bool) (room editor : String) (enabled : Bool) (interval now : Nat)
  | ready (failed : Bool) (room principal runtime : String) (now : Nat)
  | select (failed : Bool) (room principal : String) (selection : WikiContextSelection) (now : Nat)
  | read (room principal : String)
  | accept (failed : Bool) (room principal : String) (ack : WikiContextAck) (now : Nat)
  deriving DecidableEq

inductive ContextReply
  | done
  | wiki (a : WikiAnswer)
  | packet (p : WikiPacket)
  deriving DecidableEq

structure ContextState where
  wiki : WikiState := {}
  context : ContextTables := {}

namespace ContextState

/-- A call of `wiki_context.rs`. -/
def calls (s : ContextState) (failed : Bool) (call : ContextTables → Except WikiError (Unit × ContextTables)) :
    Except WikiError ContextReply × ContextState :=
  match atomically failed .storage call s.context with
  | (.ok _, c) => (.ok .done, { s with context := c })
  | (.error e, _) => (.error e, s)

/-- A call that the wiki carries out. -/
def passes (s : ContextState) (i : WikiInput) : Except WikiError ContextReply × ContextState :=
  ((wikiStep s.wiki i).1.map .wiki, { s with wiki := (wikiStep s.wiki i).2 })

def step (s : ContextState) : ContextInput → Except WikiError ContextReply × ContextState
  | .wiki i => s.passes i
  | .configure failed room editor enabled interval now =>
      -- the runtime is looked up first, in a call of its own
      if enabled = true → wikiEditorRuntimeReady s.context room editor now = true then
        s.passes (.call failed (.configure room editor enabled interval))
      else (.error .conflict, s)
  | .ready failed room principal runtime now => s.calls failed (wikiNativeReady room principal runtime now)
  | .select failed room principal selection now => s.calls failed (selectWikiContext room principal selection now)
  | .read room principal => ((wikiContextFor s.wiki.tables s.context room principal).map .packet, s)
  | .accept failed room principal ack now =>
      s.calls failed (acceptWikiContext s.wiki.tables room principal ack now)

end ContextState

def contextWikiMachine : Sys.Machine ContextState ContextInput (Except WikiError ContextReply) where
  init s := wikiInit s.wiki ∧ s.context.selections = [] ∧ s.context.receipts = [] ∧ s.context.runtimes = []
  step := ContextState.step

abbrev ContextTrace := List (ContextInput × Except WikiError ContextReply)

abbrev anyContextInput (_ : ContextState) (_ : ContextInput) : Prop := True

/-! ## What a revision says -/

/-- The written pages of a room are the same. -/
def SameWritten (room : String) (t t' : WikiTables) : Prop :=
  ∀ x : WikiPageRow, x.room = room → 0 < x.revision → (x ∈ t'.pages ↔ x ∈ t.pages)

theorem SameWritten.of_eq {room : String} {t t' : WikiTables} (h : t'.pages = t.pages) : SameWritten room t t' :=
  fun x _ _ => by rw [h]

/-- A call moves the revision of a room forward, or leaves its written pages alone. -/
def RevisionMoves (room : String) (t t' : WikiTables) : Prop :=
  ∀ w, t.row room = some w → ∃ w', t'.row room = some w' ∧ w.revision ≤ w'.revision ∧
    (w'.revision = w.revision → SameWritten room t t')

theorem RevisionMoves.still {room : String} {t t' : WikiTables} (hw : t'.wiki = t.wiki) (hp : t'.pages = t.pages) :
    RevisionMoves room t t' := by
  intro w h
  refine ⟨w, ?_, Nat.le_refl _, fun _ => .of_eq hp⟩
  rw [WikiTables.row, hw]
  exact h

/-- The row of a room after an update of one room's row. -/
theorem row_update {t t' : WikiTables} {f : WikiRow → WikiRow} {room R : String}
    (hw : t'.wiki = updateWhere (fun w => w.room = R) f t.wiki) (hf : ∀ w, (f w).room = w.room) {w : WikiRow}
    (h : t.row room = some w) :
    t'.row room = some (if room = R then f w else w) := by
  have hroom := (WikiTables.row_some h).2
  unfold WikiTables.row at h ⊢
  rw [hw, find?_updateWhere, h]
  · simp [hroom]
  · intro x _
    rw [hf]

theorem revisionMoves_publish {messages : List MessageRow} {R principal : String} {update : WikiCommit} {now n : Nat}
    {lease : Option WikiLease} {human : Bool} {w : WikiRow} {changed : List WikiPage} {t t' : WikiTables}
    (hw : t.row R = some w) (h : Published messages R principal update now lease human w changed t n t') (room : String) :
    RevisionMoves room t t' := by
  intro v hv
  have hrow := row_update h.wiki (fun _ => rfl) hv
  refine ⟨_, hrow, ?_⟩
  by_cases hr : room = R
  · subst hr
    obtain rfl := Option.some.inj (hw.symm.trans hv)
    rw [if_pos rfl]
    have hn := h.revision
    refine ⟨by show w.revision ≤ n; omega, fun hsame => ?_⟩
    have hsame : n = w.revision := hsame
    have hnil : changed = [] := by
      by_contra hne
      rw [if_neg hne] at hn
      omega
    intro x _ _
    have hx := h.written.page x
    rw [hnil] at hx
    simpa using hx
  · rw [if_neg hr]
    refine ⟨Nat.le_refl _, fun _ x hx _ => ?_⟩
    have hmem := h.written.page x
    have hother : ∀ p : WikiPage, x.key ≠ (R, p.slug) := fun p hk => hr (hx.symm.trans (congrArg Prod.fst hk))
    have hnew : ∀ p ∈ changed, x ≠ p.toRow R n := fun p _ he => hother p (by rw [he]; rfl)
    exact hmem.trans ⟨fun hor => hor.elim And.left fun ⟨p, hp, he⟩ => absurd he (hnew p hp),
      fun hx => .inl ⟨hx, fun p _ => hother p⟩⟩

theorem revisionMoves_commit {messages : List MessageRow} {R principal : String} {update : WikiCommit} {now n : Nat}
    {lease : Option WikiLease} {human : Bool} {t t' : WikiTables}
    (h : commitWikiChecked messages R principal update now lease human t = .ok (n, t')) (room : String) :
    RevisionMoves room t t' := by
  obtain ⟨-, w, hw, -, -, ⟨l, r, -, -, -, -, -, rfl⟩ | ⟨changed, hp, -⟩⟩ := commitWikiChecked_ok h
  · exact .still rfl rfl
  · exact revisionMoves_publish hw hp room

theorem revisionMoves_remove {R principal slug : String} {removal : WikiPageRemoval} {now n : Nat} {t t' : WikiTables}
    (h : removeWikiPage R principal slug removal now t = .ok (n, t')) (room : String) : RevisionMoves room t t' := by
  obtain ⟨-, -, w, page, hist, hw, -, rfl, -, -, -, -, -, rfl⟩ := removeWikiPage_ok h
  intro v hv
  have hwiki : ∀ f : WikiRow → WikiRow, (∀ w, (f w).room = w.room) →
      (updateWhere (fun w => w.room = R) f t.wiki).find? (fun w => decide (w.room = room)) =
        some (if room = R then f v else v) :=
    fun f hf => @row_update t { t with wiki := updateWhere (fun w => w.room = R) f t.wiki } f room R rfl hf v hv
  refine ⟨_, hwiki _ fun _ => rfl, ?_⟩
  by_cases hr : room = R
  · subst hr
    obtain rfl := Option.some.inj (hw.symm.trans hv)
    rw [if_pos rfl]
    exact ⟨Nat.le_succ _, fun hsame => absurd hsame (Nat.succ_ne_self _)⟩
  · rw [if_neg hr]
    refine ⟨Nat.le_refl _, fun _ x hx _ => ?_⟩
    show x ∈ deleteWhere _ t.pages ↔ x ∈ t.pages
    rw [mem_deleteWhere]
    have hne : x.room ≠ R := fun he => hr (hx.symm.trans he)
    simp [hne]

/-- What `configure_wiki` leaves: an editor, and pages that have not been written. -/
theorem revisionMoves_configure {R editor : String} {enabled : Bool} {interval : Nat} {p : WikiBatchRow → Bool}
    {t : WikiTables} (room : String) :
    RevisionMoves room t { t.cancel R p with
      wiki := insertOrUpdate WikiRow.room
        { room := R, editorPrincipal := editor, enabled, intervalMessages := interval,
          revision := 0, reviewedThrough := 0, reviewedAt := none, editedAt := none }
        (fun w => { w with editorPrincipal := editor, enabled, intervalMessages := interval }) t.wiki
      pages := insertIgnore WikiPageRow.key (seedPage R "working" "Working area")
        (insertIgnore WikiPageRow.key (seedPage R "overview" "Overview") t.pages) } := by
  intro w hw
  have hrow := hw
  unfold WikiTables.row at hrow
  have hsame : ∀ x : WikiPageRow, 0 < x.revision → (x ∈ insertIgnore WikiPageRow.key (seedPage R "working" "Working area")
      (insertIgnore WikiPageRow.key (seedPage R "overview" "Overview") t.pages) ↔ x ∈ t.pages) := by
    intro x hx
    constructor
    · intro hm
      rcases mem_seeds hm with hm | ⟨-, -, -, hzero, -⟩
      · exact hm
      · omega
    · exact fun hm => mem_insertIgnore.mpr (.inl (mem_insertIgnore.mpr (.inl hm)))
  refine ⟨if room = R then { w with editorPrincipal := editor, enabled, intervalMessages := interval } else w, ?_, ?_,
    fun _ x _ hx => hsame x hx⟩
  · unfold WikiTables.row
    have hfind := @find?_insertOrUpdate _ _ _ WikiRow.room
      { room := R, editorPrincipal := editor, enabled, intervalMessages := interval, revision := 0, reviewedThrough := 0,
        reviewedAt := none, editedAt := none }
      (fun w => { w with editorPrincipal := editor, enabled, intervalMessages := interval }) t.wiki (fun _ => rfl) room
    rw [hfind]
    by_cases hr : room = R
    · rw [if_pos hr, if_pos hr]
      subst hr
      show some ((Option.map _ (t.wiki.find? fun x => decide (x.room = room))).getD _) = _
      rw [hrow]
      rfl
    · rw [if_neg hr, if_neg hr]
      exact hrow
  · split <;> exact Nat.le_refl _

theorem revisionMoves_run {messages : List MessageRow} {c : WikiCall} {a : WikiAnswer} {t t' : WikiTables}
    (hs : c.run messages t = .ok (a, t')) (room : String) : RevisionMoves room t t' := by
  cases c with
  | configure R editor enabled interval =>
      obtain ⟨u, hc, -⟩ := answer_ok.mp hs
      obtain ⟨-, -, -, rfl⟩ := configureWiki_ok hc
      exact revisionMoves_configure room
  | schedule R now =>
      obtain ⟨u, hc, -⟩ := answer_ok.mp hs
      obtain ⟨-, rfl⟩ | ⟨-, w, reason, through, -, -, -, -, -, rfl⟩ := scheduleWikiReview_ok hc
      · exact .still rfl rfl
      · exact .still rfl rfl
  | claim R principal now =>
      obtain ⟨u, hc, -⟩ := answer_ok.mp hs
      obtain ⟨w, -, -, ⟨-, rfl | rfl⟩ | ⟨-, b, -, -, -, -, -, rfl⟩⟩ := claimWikiReview_ok hc
      · exact .still rfl rfl
      · exact .still rfl rfl
      · exact .still rfl rfl
  | renew R principal l now =>
      obtain ⟨u, hc, -⟩ := answer_ok.mp hs
      obtain ⟨-, lease, b, -, -, -, rfl⟩ := renewWikiReview_ok hc
      exact .still rfl rfl
  | finish R principal update l now =>
      obtain ⟨u, hc, -⟩ := answer_ok.mp hs
      exact revisionMoves_commit hc room
  | commit R principal update now =>
      obtain ⟨u, hc, -⟩ := answer_ok.mp hs
      exact revisionMoves_commit hc room
  | edit R actor slug page cursor now =>
      obtain ⟨u, hc, -⟩ := answer_ok.mp hs
      exact revisionMoves_commit hc room
  | remove R principal slug removal now =>
      obtain ⟨u, hc, -⟩ := answer_ok.mp hs
      exact revisionMoves_remove hc room
  | cancel R =>
      obtain ⟨u, hc, -⟩ := answer_ok.mp hs
      simp only [cancelWikiReview, pure_ok, Prod.mk.injEq] at hc
      obtain ⟨-, rfl⟩ := hc
      exact .still rfl rfl

/-! ## What a version says -/

/-- A call raises the version of a selection, or leaves the selection alone. -/
def Reselected (room principal : String) (c c' : ContextTables) : Prop :=
  c.version room principal ≤ c'.version room principal ∧
    (c'.version room principal = c.version room principal → c'.selection room principal = c.selection room principal)

theorem Reselected.of_eq {room principal : String} {c c' : ContextTables} (h : c'.selections = c.selections) :
    Reselected room principal c c' := by
  have hs : c'.selection room principal = c.selection room principal := by
    unfold ContextTables.selection
    rw [h]
  unfold Reselected ContextTables.version
  rw [hs]
  exact ⟨Nat.le_refl _, fun _ => rfl⟩

theorem reselected_select {R P : String} {selection : WikiContextSelection} {now : Nat} {c c' : ContextTables} {u : Unit}
    (h : selectWikiContext R P selection now c = .ok (u, c')) (room principal : String) :
    Reselected room principal c c' := by
  simp only [selectWikiContext, bind_ok, require_ok, pure_ok, Prod.mk.injEq, exists_and_left, exists_const] at h
  obtain ⟨-, -, rfl⟩ := h
  have hkey : ∀ r : ContextSelectionRow, (r.reselect selection now).key = r.key := by
    intro r
    unfold ContextSelectionRow.reselect
    split <;> rfl
  have hfind := find?_insertOrUpdate (r := ⟨R, P, selection.slugs, selection.reason, 1, now⟩) (t := c.selections) hkey
    (room, principal)
  have hnew : ContextSelectionRow.key ⟨R, P, selection.slugs, selection.reason, 1, now⟩ = (R, P) := rfl
  rw [hnew] at hfind
  unfold Reselected ContextTables.version ContextTables.selection
  dsimp only
  rw [hfind]
  by_cases hk : (room, principal) = (R, P)
  · rw [if_pos hk]
    cases c.selections.find? fun r => decide (r.key = (room, principal)) with
    | none =>
        refine ⟨Nat.zero_le _, fun he => ?_⟩
        cases he
    | some r =>
        simp only [Option.map_some, Option.getD_some]
        unfold ContextSelectionRow.reselect
        split
        · exact ⟨Nat.le_succ _, fun he => absurd he (Nat.succ_ne_self _)⟩
        · exact ⟨Nat.le_refl _, fun _ => rfl⟩
  · rw [if_neg hk]
    exact ⟨Nat.le_refl _, fun _ => rfl⟩

theorem select_receipts {R P : String} {selection : WikiContextSelection} {now : Nat} {c c' : ContextTables} {u : Unit}
    (h : selectWikiContext R P selection now c = .ok (u, c')) : c'.receipts = c.receipts ∧ c'.runtimes = c.runtimes := by
  simp only [selectWikiContext, bind_ok, require_ok, pure_ok, Prod.mk.injEq, exists_and_left, exists_const] at h
  obtain ⟨-, -, rfl⟩ := h
  exact ⟨rfl, rfl⟩

theorem ready_known {R P runtime : String} {now : Nat} {c c' : ContextTables} {u : Unit}
    (h : wikiNativeReady R P runtime now c = .ok (u, c')) : runtime = "codex" ∨ runtime = "claude" := by
  simp only [wikiNativeReady, bind_ok, require_ok, exists_and_left, exists_const] at h
  exact h.1

theorem ready_ok {R P runtime : String} {now : Nat} {c c' : ContextTables} {u : Unit}
    (h : wikiNativeReady R P runtime now c = .ok (u, c')) :
    c' = { c with
      runtimes := insertOrUpdate WikiRuntimeRow.key ⟨R, P, runtime, now⟩ (fun r => { r with runtime, readyAt := now })
        c.runtimes } := by
  simp only [wikiNativeReady, bind_ok, require_ok, pure_ok, Prod.mk.injEq, exists_and_left, exists_const] at h
  exact h.2.2.symm

/-- An acknowledgement is a repetition, or its numbers are those of now and it leaves a receipt. -/
theorem accept_ok {t : WikiTables} {R P : String} {ack : WikiContextAck} {now : Nat} {c c' : ContextTables} {u : Unit}
    (h : acceptWikiContext t R P ack now c = .ok (u, c')) :
    (∃ r, c.receipt R P ack = some r ∧ r.fence = ack.fence ∧ c' = c) ∨
    (c.receipt R P ack = none ∧ (t.row R).map WikiRow.revision = some ack.revision ∧
      c.version R P = ack.selectionVersion ∧
      c' = { c with receipts := keepNewest (R, P) (c.receipts ++
        [⟨R, P, ack.contextId, ack.packetId, ack.revision, ack.selectionVersion, now⟩]) }) := by
  unfold acceptWikiContext at h
  simp only [bind_ok, require_ok, exists_and_left, exists_const] at h
  obtain ⟨-, h⟩ := h
  cases hr : c.receipt R P ack with
  | some r =>
      simp only [hr, bind_ok, require_ok, pure_ok, Prod.mk.injEq, exists_and_left, exists_const] at h
      exact .inl ⟨r, rfl, h.1, h.2.2.symm⟩
  | none =>
      simp only [hr, bind_ok, require_ok, pure_ok, Prod.mk.injEq, exists_and_left, exists_const] at h
      exact .inr ⟨rfl, h.1.1, h.1.2, h.2.2.symm⟩

/-! ## One step -/

/-- What a step does: a step of the wiki, a call of its own, or nothing. -/
theorem context_cases (s : ContextState) (i : ContextInput) :
    (s.step i).2 = s ∨
    (∃ j, (s.step i).2 = { s with wiki := (wikiStep s.wiki j).2 }) ∨
    (∃ c, s.step i = (.ok .done, { s with context := c }) ∧
      ((∃ f R P selection now, i = .select f R P selection now ∧ selectWikiContext R P selection now s.context = .ok ((), c)) ∨
       (∃ f R P runtime now, i = .ready f R P runtime now ∧ wikiNativeReady R P runtime now s.context = .ok ((), c)) ∨
       (∃ f R P ack now, i = .accept f R P ack now ∧
        acceptWikiContext s.wiki.tables R P ack now s.context = .ok ((), c)))) := by
  have hcalls : ∀ failed call, (s.calls failed call).2 = s ∨
      ∃ c, call s.context = .ok ((), c) ∧ s.calls failed call = (.ok .done, { s with context := c }) := by
    intro failed call
    rcases atomically_cases failed WikiError.storage call s.context with ⟨u, c, hc, hs⟩ | ⟨e, hs⟩
    · exact .inr ⟨c, hc, by unfold ContextState.calls; rw [hs]⟩
    · exact .inl (by unfold ContextState.calls; rw [hs])
  cases i with
  | wiki j => exact .inr (.inl ⟨j, rfl⟩)
  | configure failed R editor enabled interval now =>
      simp only [ContextState.step]
      split
      · exact .inr (.inl ⟨_, rfl⟩)
      · exact .inl rfl
  | ready failed R P runtime now =>
      refine (hcalls failed _).imp id fun ⟨c, hc, hs⟩ => .inr ⟨c, hs, .inr (.inl ⟨failed, R, P, runtime, now, rfl, hc⟩)⟩
  | select failed R P selection now =>
      refine (hcalls failed _).imp id fun ⟨c, hc, hs⟩ => .inr ⟨c, hs, .inl ⟨failed, R, P, selection, now, rfl, hc⟩⟩
  | read R P => exact .inl rfl
  | accept failed R P ack now =>
      refine (hcalls failed _).imp id fun ⟨c, hc, hs⟩ => .inr ⟨c, hs, .inr (.inr ⟨failed, R, P, ack, now, rfl, hc⟩)⟩

/-- The calls of `wiki_context.rs` leave the wiki as it is. -/
theorem calls_wiki (s : ContextState) (failed : Bool)
    (call : ContextTables → Except WikiError (Unit × ContextTables)) :
    (s.calls failed call).2.wiki.tables.wiki = s.wiki.tables.wiki := by
  unfold ContextState.calls
  split <;> rfl

theorem step_reselected (s : ContextState) (i : ContextInput) (room principal : String) :
    Reselected room principal s.context (s.step i).2.context := by
  rcases context_cases s i with hs | ⟨j, hs⟩ | ⟨c, hs, ⟨f, R, P, selection, now, -, hc⟩ | ⟨f, R, P, runtime, now, -, hc⟩ |
    ⟨f, R, P, ack, now, -, hc⟩⟩
  · rw [hs]; exact .of_eq rfl
  · rw [hs]; exact .of_eq rfl
  · rw [hs]; exact reselected_select hc room principal
  · rw [hs]; exact .of_eq (by rw [ready_ok hc])
  · rw [hs]
    rcases accept_ok hc with ⟨r, -, -, rfl⟩ | ⟨-, -, -, rfl⟩
    · exact .of_eq rfl
    · exact .of_eq rfl

theorem wikiStep_revisionMoves (s : WikiState) (j : WikiInput) (room : String) :
    RevisionMoves room s.tables (wikiStep s j).2.tables := by
  rcases wikiStep_cases s j with hs | ⟨m, -, -, hs⟩ | ⟨c, a, t, -, hrun, hs⟩
  · rw [hs]; exact .still rfl rfl
  · rw [hs]; exact .still rfl rfl
  · rw [hs]; exact revisionMoves_run hrun room

theorem step_revisionMoves (s : ContextState) (i : ContextInput) (room : String) :
    RevisionMoves room s.wiki.tables (s.step i).2.wiki.tables := by
  rcases context_cases s i with hs | ⟨j, hs⟩ | ⟨c, hs, -⟩
  · rw [hs]; exact .still rfl rfl
  · rw [hs]; exact wikiStep_revisionMoves s.wiki j room
  · rw [hs]; exact .still rfl rfl

/-! ## Whole runs -/

/-- The wiki of a run went through a run of its own. -/
theorem run_wiki {ok : ContextState → ContextInput → Prop} {tr : ContextTrace} {s : ContextState}
    (r : Sys.Run contextWikiMachine ok tr s) : ∃ tr', Sys.Run wikiMachine anyInput tr' s.wiki := by
  refine Sys.Run.induction (P := fun _ s => ∃ tr', Sys.Run wikiMachine anyInput tr' s.wiki) ?_ ?_ r
  · rintro s ⟨hinit, -⟩
    exact ⟨[], .nil hinit⟩
  · rintro tr s i - ⟨tr', hr⟩ -
    show ∃ tr', Sys.Run wikiMachine anyInput tr' (s.step i).2.wiki
    rcases context_cases s i with hs | ⟨j, hs⟩ | ⟨c, hs, -⟩
    · exact ⟨tr', by rw [hs]; exact hr⟩
    · exact ⟨_, by rw [hs]; exact .snoc j hr trivial⟩
    · exact ⟨tr', by rw [hs]; exact hr⟩

/-! ## The numbers of a packet -/

theorem writtenPage_eq_some {t : WikiTables} (h : (t.pages.map WikiPageRow.key).Nodup) {room slug : String} {p : WikiPage} :
    writtenPage t room slug = some p ↔ ∃ x ∈ t.pages, x.key = (room, slug) ∧ 0 < x.revision ∧ x.toPage = p := by
  unfold writtenPage
  constructor
  · intro hp
    obtain ⟨x, hx, rfl⟩ := Option.map_eq_some_iff.mp hp
    obtain ⟨hfind, hpos⟩ := Option.filter_eq_some_iff.mp hx
    exact ⟨x, List.mem_of_find?_eq_some hfind, by simpa using List.find?_some hfind, by simpa using hpos, rfl⟩
  · rintro ⟨x, hx, hk, hpos, rfl⟩
    have hfind : (t.pages.find? fun p => decide (p.key = (room, slug))) = some x := by
      cases hf : t.pages.find? fun p => decide (p.key = (room, slug)) with
      | none => exact absurd (decide_eq_true hk) (List.find?_eq_none.mp hf x hx)
      | some y =>
          have hy : y.key = (room, slug) := by simpa using List.find?_some hf
          rw [eq_of_key h (List.mem_of_find?_eq_some hf) hx (hy.trans hk.symm)]
    rw [hfind]
    simp [hpos]

theorem writtenPage_same {room : String} {t t' : WikiTables} (h : SameWritten room t t')
    (hk : (t.pages.map WikiPageRow.key).Nodup) (hk' : (t'.pages.map WikiPageRow.key).Nodup) :
    writtenPage t' room = writtenPage t room := by
  funext slug
  refine Option.ext fun p => ?_
  rw [writtenPage_eq_some hk, writtenPage_eq_some hk']
  constructor
  · rintro ⟨x, hx, hkey, hpos, hp⟩
    exact ⟨x, (h x (congrArg Prod.fst hkey) hpos).mp hx, hkey, hpos, hp⟩
  · rintro ⟨x, hx, hkey, hpos, hp⟩
    exact ⟨x, (h x (congrArg Prod.fst hkey) hpos).mpr hx, hkey, hpos, hp⟩

/-- A packet of before: its numbers are not above those of now, and where they are those of now, so is the packet. -/
def WikiPacket.Behind (p : WikiPacket) (room principal : String) (s : ContextState) : Prop :=
  ∃ w, s.wiki.tables.row room = some w ∧ p.revision ≤ w.revision ∧
    p.selectionVersion ≤ s.context.version room principal ∧
    (p.revision = w.revision → p.selectionVersion = s.context.version room principal →
      p = packetOf w s.wiki.tables s.context room principal)

theorem WikiPacket.Behind.step {p : WikiPacket} {room principal : String} {tr : ContextTrace} {s : ContextState}
    (r : Sys.Run contextWikiMachine anyContextInput tr s) (h : p.Behind room principal s) (i : ContextInput) :
    p.Behind room principal (s.step i).2 := by
  obtain ⟨w, hw, hrev, hver, hsame⟩ := h
  obtain ⟨w', hw', hle, hpages⟩ := step_revisionMoves s i room w hw
  obtain ⟨hvle, hselection⟩ := step_reselected s i room principal
  refine ⟨w', hw', hrev.trans hle, hver.trans hvle, fun hr hv => ?_⟩
  have hwr : w'.revision = w.revision := le_antisymm (hr ▸ hrev) hle
  have hvv : (s.step i).2.context.version room principal = s.context.version room principal :=
    le_antisymm (hv ▸ hver) hvle
  obtain ⟨_, hrun⟩ := run_wiki r
  obtain ⟨_, hrun'⟩ := run_wiki (Sys.Run.snoc i r trivial)
  have hwritten := writtenPage_same (hpages hwr) (run_wellKept hrun).1.pageKey (run_wellKept hrun').1.pageKey
  have hkept : packetOf w' (s.step i).2.wiki.tables (s.step i).2.context room principal =
      packetOf w s.wiki.tables s.context room principal := by
    unfold packetOf
    rw [hwr, hvv, hselection hvv, hwritten]
  rw [hkept]
  exact hsame (hr.trans hwr) (hv.trans hvv)

/-- The packets that an agent was given in a room, latest first. -/
def packetsOf (room principal : String) (tr : ContextTrace) : List WikiPacket :=
  tr.filterMap fun e => match e with
    | (.read r p, .ok (.packet packet)) => if r = room ∧ p = principal then some packet else none
    | _ => none

/-- The packet of a step, if it is one for this agent, is that of the state. -/
theorem step_packet {s : ContextState} {i : ContextInput} {room principal : String} {p : WikiPacket}
    (h : p ∈ packetsOf room principal [(i, (s.step i).1)]) :
    (s.step i).2 = s ∧ ∃ w, s.wiki.tables.row room = some w ∧ p = packetOf w s.wiki.tables s.context room principal := by
  cases i with
  | read R P =>
      refine ⟨rfl, ?_⟩
      cases hw : s.wiki.tables.row R with
      | none => simp [packetsOf, ContextState.step, wikiContextFor, hw, Except.map] at h
      | some w =>
          have hstep : (s.step (.read R P)).1 = .ok (.packet (packetOf w s.wiki.tables s.context R P)) := by
            simp [ContextState.step, wikiContextFor, hw, Except.map, pure, Except.pure]
          rw [hstep] at h
          by_cases hk : R = room ∧ P = principal
          · obtain ⟨rfl, rfl⟩ := hk
            simp [packetsOf] at h
            exact ⟨w, hw, h⟩
          · simp [packetsOf, hk] at h
  | wiki j => simp [packetsOf] at h
  | configure failed R editor enabled interval now => simp [packetsOf] at h
  | ready failed R P runtime now => simp [packetsOf] at h
  | select failed R P selection now => simp [packetsOf] at h
  | accept failed R P ack now => simp [packetsOf] at h

theorem packetsOf_cons (room principal : String) (e : ContextInput × Except WikiError ContextReply) (tr : ContextTrace) :
    packetsOf room principal (e :: tr) = packetsOf room principal [e] ++ packetsOf room principal tr :=
  List.filterMap_append (l := [e])

/-- The numbers do not go back, and the same numbers are those of the same packet. -/
def WikiPacket.Follows (later earlier : WikiPacket) : Prop :=
  earlier.revision ≤ later.revision ∧ earlier.selectionVersion ≤ later.selectionVersion ∧
    (earlier.fence = later.fence → earlier = later)

/-- Along every run, each packet of an agent follows those before it. -/
theorem fence_determines_packet {tr : ContextTrace} {s : ContextState}
    (r : Sys.Run contextWikiMachine anyContextInput tr s) (room principal : String) :
    (packetsOf room principal tr).Pairwise WikiPacket.Follows := by
  refine (Sys.Run.induction (P := fun tr s => (∀ p ∈ packetsOf room principal tr, p.Behind room principal s) ∧
    (packetsOf room principal tr).Pairwise WikiPacket.Follows) ?_ ?_ r).2
  · rintro s -
    exact ⟨fun p hp => (nomatch hp), List.Pairwise.nil⟩
  · rintro tr s i hr ⟨hbehind, hpairs⟩ -
    show (∀ p ∈ packetsOf room principal ((i, (s.step i).1) :: tr), p.Behind room principal (s.step i).2) ∧
      (packetsOf room principal ((i, (s.step i).1) :: tr)).Pairwise WikiPacket.Follows
    rw [packetsOf_cons]
    refine ⟨fun p hp => ?_, List.pairwise_append.mpr ⟨?_, hpairs, fun p hp q hq => ?_⟩⟩
    · rcases List.mem_append.mp hp with hp | hp
      · obtain ⟨hs, w, hw, rfl⟩ := step_packet hp
        rw [hs]
        exact ⟨w, hw, Nat.le_refl _, Nat.le_refl _, fun _ _ => rfl⟩
      · exact (hbehind p hp).step hr i
    · -- a step gives one packet at most
      have hone : (packetsOf room principal [(i, (s.step i).1)]).length ≤ 1 := List.length_filterMap_le _ _
      cases hl : packetsOf room principal [(i, (s.step i).1)] with
      | nil => exact .nil
      | cons p rest =>
          rw [hl, List.length_cons] at hone
          rw [List.eq_nil_of_length_eq_zero (by omega : rest.length = 0)]
          exact List.pairwise_singleton _ _
    · obtain ⟨-, w, hw, rfl⟩ := step_packet hp
      obtain ⟨w', hw', hrev, hver, hsame⟩ := hbehind q hq
      obtain rfl := Option.some.inj (hw.symm.trans hw')
      exact ⟨hrev, hver, fun he => hsame (congrArg Prod.fst he) (congrArg Prod.snd he)⟩

/-- A page is written between two readings, and the agent's selection changed after that. -/
def sampleContext : List ContextInput :=
  [.ready false "a" "editor" "codex" 1, .configure false "a" "editor" true 1 2,
   .wiki (.post { id := 1, room := "a", sender := "ann", senderType := "user", target := none, text := "hello",
                  replyTo := none, ts := 1, kind := "say", principal := none, opId := none, attachments := none }),
   .wiki (.call false (.schedule "a" 3)), .wiki (.call false (.claim "a" "editor" 4)), .read "a" "bob",
   .wiki (.call false (.finish "a" "editor" ⟨0, 1, "review", [⟨"overview", "Overview", "hello", [1], 0⟩]⟩ ⟨1, 1⟩ 6)),
   .select false "a" "bob" ⟨["overview", "notes"], "work"⟩ 7, .read "a" "bob",
   .accept false "a" "bob" ⟨"c", "0000000000000000000000000000000000000000000000000000000000000000", 1, 1⟩ 9]

def sampleContextRun : ContextTrace × ContextState := contextWikiMachine.exec sampleContext [] {}

theorem sampleContextRun_run : Sys.Run contextWikiMachine anyContextInput sampleContextRun.1 sampleContextRun.2 :=
  Sys.Run.exec sampleContext (Sys.Machine.admits_of_all (fun _ _ => trivial) _ _)
    (.nil ⟨⟨List.nodup_nil, by simp, rfl, rfl, rfl⟩, rfl, rfl, rfl⟩)

theorem fence_determines_packet_sample :
    (packetsOf "a" "bob" sampleContextRun.1).map WikiPacket.fence = [(1, 1), (0, 0)] ∧
      (packetsOf "a" "bob" sampleContextRun.1).Pairwise WikiPacket.Follows :=
  ⟨by decide, fence_determines_packet sampleContextRun_run "a" "bob"⟩

/-! ## Acknowledgements -/

theorem keepNewest_sublist (owner : String × String) (l : List ContextReceiptRow) : (keepNewest owner l).Sublist l := by
  induction l with
  | nil => exact .slnil
  | cons r rest ih =>
      unfold keepNewest
      split
      · exact ih.cons r
      · exact ih.cons_cons r

theorem keepNewest_few (owner : String × String) (l : List ContextReceiptRow) :
    (keepNewest owner l).countP (fun x => x.owner = owner) ≤ contextMaxReceipts := by
  induction l with
  | nil => exact Nat.zero_le _
  | cons r rest ih =>
      unfold keepNewest
      split
      · exact ih
      · next hkeep =>
        by_cases hr : r.owner = owner
        · have hle := (keepNewest_sublist owner rest).countP_le (p := fun x => decide (x.owner = owner))
          have hlt : rest.countP (fun x => x.owner = owner) < contextMaxReceipts := by
            by_contra hge
            exact hkeep ⟨hr, Nat.not_lt.mp hge⟩
          rw [List.countP_cons_of_pos (by simp [hr])]
          omega
        · rw [List.countP_cons_of_neg (by simp [hr])]
          exact ih

/-- The invariant of the receipts. -/
structure Receipted (c : ContextTables) : Prop where
  keys : (c.receipts.map ContextReceiptRow.key).Nodup
  few : ∀ owner, c.receipts.countP (fun r => r.owner = owner) ≤ contextMaxReceipts
  valid : ∀ r ∈ c.receipts, ∀ revision version, validAck ⟨r.contextId, r.packetId, revision, version⟩ = true

theorem accept_valid {t : WikiTables} {R P : String} {ack : WikiContextAck} {now : Nat} {c c' : ContextTables} {u : Unit}
    (h : acceptWikiContext t R P ack now c = .ok (u, c')) : validAck ack = true := by
  unfold acceptWikiContext at h
  simp only [bind_ok, require_ok, exists_and_left, exists_const] at h
  exact h.1

theorem receipt_eq_none {c : ContextTables} {R P : String} {ack : WikiContextAck} (h : c.receipt R P ack = none) :
    ∀ r ∈ c.receipts, r.key ≠ (R, P, ack.contextId, ack.packetId) := by
  intro r hr hk
  exact absurd (decide_eq_true hk) (List.find?_eq_none.mp h r hr)

theorem Receipted.accept {t : WikiTables} {R P : String} {ack : WikiContextAck} {now : Nat} {c c' : ContextTables}
    {u : Unit} (h : Receipted c) (hs : acceptWikiContext t R P ack now c = .ok (u, c')) : Receipted c' := by
  have hvalid := accept_valid hs
  rcases accept_ok hs with ⟨r, -, -, rfl⟩ | ⟨hnone, -, -, rfl⟩
  · exact h
  · have hsub := keepNewest_sublist (R, P) (c.receipts ++
      [⟨R, P, ack.contextId, ack.packetId, ack.revision, ack.selectionVersion, now⟩])
    refine ⟨?_, fun owner => ?_, fun r hr => ?_⟩
    · refine List.Nodup.sublist (hsub.map _) (nodup_append_new h.keys fun x hx => ?_)
      exact receipt_eq_none hnone x hx
    · by_cases ho : owner = (R, P)
      · rw [ho]
        exact keepNewest_few _ _
      · refine (hsub.countP_le (p := fun x => decide (x.owner = owner))).trans ?_
        have hother : ¬decide ((R, P) = owner) = true := by simpa using fun he : (R, P) = owner => ho he.symm
        rw [List.countP_append, List.countP_singleton]
        exact (Nat.add_le_add_left (Nat.le_of_eq (if_neg hother)) _).trans (h.few owner)
    · rcases List.mem_append.mp (hsub.subset hr) with hr | hr
      · exact h.valid r hr
      · rw [List.mem_singleton.mp hr]
        exact fun _ _ => hvalid

theorem run_receipted {ok : ContextState → ContextInput → Prop} {tr : ContextTrace} {s : ContextState}
    (r : Sys.Run contextWikiMachine ok tr s) : Receipted s.context := by
  refine Sys.Run.invariant (I := fun s => Receipted s.context) ?_ ?_ r
  · rintro s ⟨-, -, hr, -⟩
    refine ⟨?_, ?_, ?_⟩ <;> rw [hr] <;> simp
  · intro s i h _
    show Receipted (s.step i).2.context
    rcases context_cases s i with hs | ⟨j, hs⟩ | ⟨c, hs, ⟨f, R, P, selection, now, -, hc⟩ | ⟨f, R, P, runtime, now, -, hc⟩ |
      ⟨f, R, P, ack, now, -, hc⟩⟩
    · rw [hs]; exact h
    · rw [hs]; exact h
    · rw [hs]
      obtain ⟨hkept, -⟩ := select_receipts hc
      exact ⟨hkept ▸ h.keys, hkept ▸ h.few, hkept ▸ h.valid⟩
    · rw [hs, ready_ok hc]
      exact ⟨h.keys, h.few, h.valid⟩
    · rw [hs]
      exact h.accept hc

/-- Somewhere in the run so far these were the numbers of the agent's packet. -/
def WasCurrent (tr : ContextTrace) (room principal : String) (revision version : Nat) : Prop :=
  ∃ tr' s', Sys.Run contextWikiMachine anyContextInput tr' s' ∧ tr' <:+ tr ∧
    (s'.wiki.tables.row room).map WikiRow.revision = some revision ∧ s'.context.version room principal = version

theorem WasCurrent.later {tr : ContextTrace} {room principal : String} {revision version : Nat}
    (h : WasCurrent tr room principal revision version) (e : ContextInput × Except WikiError ContextReply) :
    WasCurrent (e :: tr) room principal revision version := by
  obtain ⟨tr', s', hr, hsuffix, hnow⟩ := h
  exact ⟨tr', s', hr, hsuffix.trans (List.suffix_cons e tr), hnow⟩

theorem run_acknowledged {tr : ContextTrace} {s : ContextState} (r : Sys.Run contextWikiMachine anyContextInput tr s) :
    (∀ f R P ack now, (ContextInput.accept f R P ack now, Except.ok ContextReply.done) ∈ tr →
      WasCurrent tr R P ack.revision ack.selectionVersion) ∧
    (∀ x ∈ s.context.receipts, WasCurrent tr x.room x.principal x.revision x.selectionVersion) := by
  refine Sys.Run.induction (P := fun tr s =>
    (∀ f R P ack now, (ContextInput.accept f R P ack now, Except.ok ContextReply.done) ∈ tr →
      WasCurrent tr R P ack.revision ack.selectionVersion) ∧
    (∀ x ∈ s.context.receipts, WasCurrent tr x.room x.principal x.revision x.selectionVersion)) ?_ ?_ r
  · rintro s ⟨-, -, hr, -⟩
    refine ⟨fun _ _ _ _ _ h => (nomatch h), fun x hx => ?_⟩
    rw [hr] at hx
    cases hx
  · rintro tr s i hr ⟨haccept, hreceipts⟩ -
    show (∀ f R P ack now, (ContextInput.accept f R P ack now, Except.ok ContextReply.done) ∈ (i, (s.step i).1) :: tr → _) ∧
      (∀ x ∈ (s.step i).2.context.receipts, _)
    have hcurrent : ∀ f R P ack now, i = .accept f R P ack now → ∀ c,
        acceptWikiContext s.wiki.tables R P ack now s.context = .ok ((), c) →
        WasCurrent ((i, (s.step i).1) :: tr) R P ack.revision ack.selectionVersion ∧
          ∀ x ∈ c.receipts, x ∈ s.context.receipts ∨
            (x.room = R ∧ x.principal = P ∧ x.revision = ack.revision ∧ x.selectionVersion = ack.selectionVersion) := by
      intro f R P ack now _ c hc
      rcases accept_ok hc with ⟨x, hx, hfence, rfl⟩ | ⟨-, hrev, hver, rfl⟩
      · have hxm := List.mem_of_find?_eq_some hx
        have hkey : x.key = (R, P, ack.contextId, ack.packetId) := by simpa using List.find?_some hx
        simp only [ContextReceiptRow.key, Prod.mk.injEq] at hkey
        simp only [ContextReceiptRow.fence, WikiContextAck.fence, Prod.mk.injEq] at hfence
        have hwas := (hreceipts x hxm).later (i, (s.step i).1)
        rw [hkey.1, hkey.2.1, hfence.1, hfence.2] at hwas
        exact ⟨hwas, fun y hy => .inl hy⟩
      · refine ⟨⟨tr, s, hr, List.suffix_cons _ _, hrev, hver⟩, fun x hx => ?_⟩
        rcases List.mem_append.mp ((keepNewest_sublist _ _).subset hx) with hx | hx
        · exact .inl hx
        · rw [List.mem_singleton.mp hx]
          exact .inr ⟨rfl, rfl, rfl, rfl⟩
    have hkeep : ∀ x ∈ s.context.receipts,
        WasCurrent ((i, (s.step i).1) :: tr) x.room x.principal x.revision x.selectionVersion :=
      fun x hx => (hreceipts x hx).later _
    refine ⟨fun f R P ack now hm => ?_, fun x hx => ?_⟩
    · rcases List.mem_cons.mp hm with he | hm
      · obtain ⟨hi, ho⟩ := Prod.mk.inj he
        subst hi
        rcases atomically_cases f WikiError.storage (acceptWikiContext s.wiki.tables R P ack now) s.context with
          ⟨u, c, hc, -⟩ | ⟨e, hs⟩
        · exact (hcurrent f R P ack now rfl c hc).1
        · simp [ContextState.step, ContextState.calls, hs] at ho
      · exact (haccept f R P ack now hm).later _
    · rcases context_cases s i with hs | ⟨j, hs⟩ | ⟨c, hs, ⟨f, R, P, selection, now, -, hc⟩ |
        ⟨f, R, P, runtime, now, -, hc⟩ | ⟨f, R, P, ack, now, hi, hc⟩⟩
      · rw [hs] at hx; exact hkeep x hx
      · rw [hs] at hx; exact hkeep x hx
      · rw [hs] at hx; exact hkeep x ((select_receipts hc).1 ▸ hx)
      · rw [hs, ready_ok hc] at hx; exact hkeep x hx
      · rw [hs] at hx
        obtain ⟨hwas, hmem⟩ := hcurrent f R P ack now hi c hc
        rcases hmem x hx with hx | ⟨hroom, hprincipal, hrev, hver⟩
        · exact hkeep x hx
        · rw [hroom, hprincipal, hrev, hver]
          exact hwas

/-- The law of the acknowledgements: one that is taken names numbers that were current, with its repetitions; a receipt
answers for its numbers alone and nothing is written; and an agent keeps no more than 128 of them. -/
theorem acknowledged_was_current {tr : ContextTrace} {s : ContextState}
    (r : Sys.Run contextWikiMachine anyContextInput tr s) :
    (∀ f R P ack now, (ContextInput.accept f R P ack now, Except.ok ContextReply.done) ∈ tr →
      WasCurrent tr R P ack.revision ack.selectionVersion) ∧
    (∀ x ∈ s.context.receipts, ∀ revision version now,
      s.step (.accept false x.room x.principal ⟨x.contextId, x.packetId, revision, version⟩ now) =
        (if x.revision = revision ∧ x.selectionVersion = version then .ok .done else .error .conflict, s)) ∧
    (∀ owner, s.context.receipts.countP (fun x => x.owner = owner) ≤ 128) := by
  refine ⟨(run_acknowledged r).1, fun x hx revision version now => ?_, (run_receipted r).few⟩
  have hfind : s.context.receipt x.room x.principal ⟨x.contextId, x.packetId, revision, version⟩ = some x := by
    cases hf : s.context.receipt x.room x.principal ⟨x.contextId, x.packetId, revision, version⟩ with
    | none => exact absurd rfl (receipt_eq_none hf x hx)
    | some y =>
        have hy : y.key = (x.room, x.principal, x.contextId, x.packetId) := by simpa using List.find?_some hf
        rw [eq_of_key (run_receipted r).keys (List.mem_of_find?_eq_some hf) hx hy]
  have hvalid := (run_receipted r).valid x hx revision version
  by_cases hsame : x.revision = revision ∧ x.selectionVersion = version
  · have hfence : x.fence = WikiContextAck.fence ⟨x.contextId, x.packetId, revision, version⟩ := Prod.ext hsame.1 hsame.2
    simp [ContextState.step, ContextState.calls, atomically, acceptWikiContext, require, hvalid, hfind, hfence, hsame, pure,
      Except.pure]
  · have hfence : ¬x.fence = WikiContextAck.fence ⟨x.contextId, x.packetId, revision, version⟩ :=
      fun he => hsame ⟨congrArg Prod.fst he, congrArg Prod.snd he⟩
    simp [ContextState.step, ContextState.calls, atomically, acceptWikiContext, require, hvalid, hfind, hfence, hsame]

theorem acknowledged_was_current_sample : WasCurrent sampleContextRun.1 "a" "bob" 1 1 :=
  (acknowledged_was_current sampleContextRun_run).1 false "a" "bob"
    ⟨"c", "0000000000000000000000000000000000000000000000000000000000000000", 1, 1⟩ 9 (by decide)

end Loca
