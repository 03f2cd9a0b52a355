/-
# `Loca.Runner.Served` — the runner and the server together

The runner of `Loca.Runner.Once` against the wiki of `Loca.Wiki.Machine`.  Between any two commands of the runner the
others call the wiki as they like; a request may be lost on its way there, its answer on its way back, and either party
may fail to store.  Only the editor's publications come from this runner alone.

What the editor has published is then what the runner's workers drafted, and what the runner holds for accepted has been
published, once and with the revision it was told (`published_is_drafted`).  And an answer that was lost comes again:
once a publication has got through, the next undisturbed run gets its receipt, whatever the others did to the wiki in
between, short of naming another editor (`lost_answer_is_recovered`).
-/
import Loca.Runner.Once
import Loca.Runner.Publish

namespace Loca.Runner

open Check Table Sys.Prog Act

/-! ## The server -/

/-- Not a publication in the editor's name. -/
def OfOthers (editor : String) : WikiInput → Prop
  | .call _ (.finish _ principal _ _ _) => principal ≠ editor
  | _ => True

/-- What becomes of a request. -/
structure Network (editor : String) where
  /-- What the others do first. -/
  before : List { i : WikiInput // OfOthers editor i }
  /-- The request does not arrive. -/
  lost : Bool
  /-- The answer does not. -/
  silent : Bool
  /-- The store fails, or an offer is refused. -/
  failed : Bool
  writable : Bool
  now : Nat
  principals : List PrincipalRow
  /-- The answer to `wiki-requests`, which the wiki does not decide. -/
  requests : Option Dict

/-- A handler of `routes/wiki.rs`, for the editor's session. -/
def handled {editor : String} (size : Json → Nat) (room : String) (q : Request) (n : Network editor) (s : WikiState) :
    Option (Option Dict) × WikiState :=
  match q with
  | .query .claim =>
      if n.writable then
        match wikiStep s (.call n.failed (.claim room editor n.now)) with
        | (.ok (.claimed batch), s') => (some (batch.map batchDict), s')
        | (_, s') => (none, s')
      else (none, s)
  | .query .read =>
      match wikiSnapshot n.principals s.tables room with
      | .ok snapshot => (some (some (snapshotDict snapshot)), s)
      | .error _ => (none, s)
  | .query .requests => (some n.requests, s)
  | .query (.renew lease) =>
      match leaseOfJson lease with
      | some l =>
          if n.writable then
            match wikiStep s (.call n.failed (.renew room editor l n.now)) with
            | (.ok (.expires time), s') => (some (some [("lease_expires_at", .int time)]), s')
            | (_, s') => (none, s')
          else (none, s)
      | none => (none, s)
  | .finish payload =>
      if n.failed then (none, s)
      else
        match finishRoute (size (.obj payload)) (.obj payload) room n.writable (some editor) n.now s with
        | (.ok revision, s') => (some (some [("revision", .int revision)]), s')
        | (.error _, s') => (none, s')
  | .offer _ => (if n.failed then none else some (some [("offered", .bool true)]), s)

def wikiServer (editor : String) (size : Json → Nat) : Transport WikiState (Network editor) where
  call room q n s :=
    let s := wikiMachine.after (n.before.map Subtype.val) s
    if n.lost then (none, s)
    else
      let (reply, s) := handled size room q n s
      (if n.silent then none else reply, s)

/-! ## What a request does to the receipts -/

/-- The wiki of a run. -/
def Reached (s : WikiState) : Prop := ∃ tr, Sys.Run wikiMachine anyInput tr s

theorem Reached.step {s : WikiState} (h : Reached s) (i : WikiInput) : Reached (wikiStep s i).2 := by
  obtain ⟨tr, hr⟩ := h
  exact ⟨_, hr.snoc i trivial⟩

theorem Reached.fenced {s : WikiState} (h : Reached s) : Fenced s.tables := by
  obtain ⟨tr, hr⟩ := h
  exact run_fenced hr

theorem Reached.kept {s : WikiState} (h : Reached s) (i : WikiInput) : ∀ x ∈ s.tables.receipts,
    x ∈ (wikiStep s i).2.tables.receipts := by
  intro x hx
  rcases wikiStep_receipts h.fenced i with hr | ⟨room, p, u, l, now, n, -, -, -, -, hr⟩
  · rw [hr]
    exact hx
  · rw [hr]
    exact List.mem_append_left _ hx

/-- A receipt that was not there is the one of the call. -/
theorem Reached.finished {s : WikiState} (h : Reached s) {failed : Bool} {room principal : String} {update : WikiCommit}
    {lease : WikiLease} {now : Nat} {x : WikiReceiptRow}
    (hx : x ∈ (wikiStep s (.call failed (.finish room principal update lease now))).2.tables.receipts) :
    x ∈ s.tables.receipts ∨ (x.room = room ∧ (⟨x.batchId, x.epoch⟩ : WikiLease) = lease ∧ x.request = update) := by
  rcases wikiStep_receipts h.fenced (.call failed (.finish room principal update lease now)) with
    hr | ⟨room', p, u, l, now', n, hi, -, -, -, hr⟩
  · exact .inl (hr ▸ hx)
  · rcases List.mem_append.mp (hr ▸ hx) with hx | hx
    · exact .inl hx
    · injection hi with _ hi
      injection hi with hroom _ hu hl
      rw [List.mem_singleton.mp hx]
      exact .inr ⟨hroom.symm, hl.symm, hu.symm⟩

/-- A revision that is answered has its receipt. -/
theorem Reached.answered {s : WikiState} (h : Reached s) {failed : Bool} {room principal : String} {update : WikiCommit}
    {lease : WikiLease} {now n : Nat}
    (hok : (wikiStep s (.call failed (.finish room principal update lease now))).1 = .ok (.revision n)) :
    ⟨room, lease.batchId, lease.epoch, principal, update, n⟩ ∈
      (wikiStep s (.call failed (.finish room principal update lease now))).2.tables.receipts := by
  obtain ⟨tr, hr⟩ := h
  have hanswered := run_answered (hr.snoc (.call failed (.finish room principal update lease now)) trivial)
  change Answered ((_, (wikiStep s _).1) :: tr) (wikiStep s _).2.tables at hanswered
  rw [hok] at hanswered
  cases failed with
  | true => cases hok
  | false => exact hanswered.accepted room principal update lease now n List.mem_cons_self

/-- No receipt goes, and the editor gets none. -/
structure Leaves (editor : String) (s s' : WikiState) : Prop where
  reached : Reached s'
  kept : ∀ x ∈ s.tables.receipts, x ∈ s'.tables.receipts
  noNew : ∀ x ∈ s'.tables.receipts, x.editorPrincipal = editor → x ∈ s.tables.receipts

theorem Leaves.refl {editor : String} {s : WikiState} (h : Reached s) : Leaves editor s s :=
  ⟨h, fun _ hx => hx, fun _ hx _ => hx⟩

theorem Leaves.trans {editor : String} {s s' s'' : WikiState} (h : Leaves editor s s') (h' : Leaves editor s' s'') :
    Leaves editor s s'' :=
  ⟨h'.reached, fun x hx => h'.kept x (h.kept x hx), fun x hx he => h.noNew x (h'.noNew x hx he) he⟩

theorem leaves_step {editor : String} {s : WikiState} (h : Reached s) {i : WikiInput} (hi : OfOthers editor i) :
    Leaves editor s (wikiStep s i).2 := by
  refine ⟨h.step i, h.kept i, ?_⟩
  rcases wikiStep_receipts h.fenced i with hr | ⟨room, p, u, l, now, n, rfl, -, -, -, hr⟩
  · rw [hr]
    exact fun _ hx _ => hx
  · rw [hr]
    intro x hx he
    rcases List.mem_append.mp hx with hx | hx
    · exact hx
    · rw [List.mem_singleton.mp hx] at he
      exact absurd he hi

theorem leaves_after {editor : String} (is : List { i : WikiInput // OfOthers editor i }) {s : WikiState} (h : Reached s) :
    Leaves editor s (wikiMachine.after (is.map Subtype.val) s) := by
  induction is generalizing s with
  | nil => exact .refl h
  | cons i is ih =>
      have hi := leaves_step h i.2
      exact hi.trans (ih hi.reached)

/-- A publication leaves one receipt at most, for what it holds; and where it is answered, it has one. -/
structure Finishes (editor room : String) (payload : Dict) (s s' : WikiState) (reply : Option (Option Dict)) : Prop where
  reached : Reached s'
  kept : ∀ x ∈ s.tables.receipts, x ∈ s'.tables.receipts
  new : ∀ x ∈ s'.tables.receipts, x.editorPrincipal = editor → x ∈ s.tables.receipts ∨
    (x.room = room ∧ batchCommitOfJson (.obj payload) = some ⟨⟨x.batchId, x.epoch⟩, x.request⟩)
  answer : ∀ receipt, reply = some (some receipt) → ∃ x ∈ s'.tables.receipts, x.room = room ∧ x.editorPrincipal = editor ∧
    batchCommitOfJson (.obj payload) = some ⟨⟨x.batchId, x.epoch⟩, x.request⟩ ∧ receipt = [("revision", .int x.revision)]

theorem Leaves.finishes {editor room : String} {payload : Dict} {s s' : WikiState} (h : Leaves editor s s') :
    Finishes editor room payload s s' none :=
  ⟨h.reached, h.kept, fun x hx he => .inl (h.noNew x hx he), fun _ he => nomatch he⟩

/-- The answer may still be lost. -/
theorem Finishes.silent {editor room : String} {payload : Dict} {s s' : WikiState} {reply : Option (Option Dict)}
    (h : Finishes editor room payload s s' reply) (silent : Bool) :
    Finishes editor room payload s s' (if silent then none else reply) :=
  ⟨h.reached, h.kept, h.new, fun receipt he => by cases silent with
    | true => cases he
    | false => exact h.answer receipt he⟩

section

variable {editor : String} {size : Json → Nat} {room : String} {s : WikiState}

theorem finishes_route (payload : Dict) (writable : Bool) (now : Nat) (h : Reached s) :
    Finishes editor room payload s (finishRoute (size (.obj payload)) (.obj payload) room writable (some editor) now s).2
      (match (finishRoute (size (.obj payload)) (.obj payload) room writable (some editor) now s).1 with
        | .ok revision => some (some [("revision", .int revision)])
        | .error _ => none) := by
  unfold finishRoute
  split
  · exact (Leaves.refl h).finishes
  · cases hc : batchCommitOfJson (.obj payload) with
    | none => exact (Leaves.refl h).finishes
    | some commit =>
        cases writable with
        | false => exact (Leaves.refl h).finishes
        | true =>
            simp only [if_true]
            have hreached := h.step (.call false (.finish room editor commit.review commit.lease now))
            have hkept := h.kept (.call false (.finish room editor commit.review commit.lease now))
            have hfinished := @Reached.finished s h false room editor commit.review commit.lease now
            have hanswered := @Reached.answered s h false room editor commit.review commit.lease now
            generalize wikiStep s (.call false (.finish room editor commit.review commit.lease now)) = res at *
            obtain ⟨o, s'⟩ := res
            have hnew : ∀ x ∈ s'.tables.receipts, x.editorPrincipal = editor → x ∈ s.tables.receipts ∨
                (x.room = room ∧ batchCommitOfJson (.obj payload) = some ⟨⟨x.batchId, x.epoch⟩, x.request⟩) := by
              intro x hx _
              refine (hfinished hx).imp id fun hx => ⟨hx.1, ?_⟩
              rw [hc, hx.2.1, hx.2.2]
            cases o with
            | error e => exact ⟨hreached, hkept, hnew, fun _ he => nomatch he⟩
            | ok a =>
                cases a with
                | revision n =>
                    refine ⟨hreached, hkept, hnew, fun receipt he => ?_⟩
                    refine ⟨_, hanswered rfl, rfl, rfl, hc, ?_⟩
                    exact (Option.some.inj (Option.some.inj he)).symm
                | done => exact ⟨hreached, hkept, hnew, fun _ he => nomatch he⟩
                | scheduled due => exact ⟨hreached, hkept, hnew, fun _ he => nomatch he⟩
                | claimed batch => exact ⟨hreached, hkept, hnew, fun _ he => nomatch he⟩
                | expires time => exact ⟨hreached, hkept, hnew, fun _ he => nomatch he⟩

theorem finishes_call (payload : Dict) (n : Network editor) (h : Reached s) :
    Finishes editor room payload s ((wikiServer editor size).call room (.finish payload) n s).2
      ((wikiServer editor size).call room (.finish payload) n s).1 := by
  have hb := leaves_after n.before h
  simp only [wikiServer]
  split
  · exact hb.finishes
  · have hhandled : Finishes editor room payload (wikiMachine.after (n.before.map Subtype.val) s)
        (handled size room (.finish payload) n (wikiMachine.after (n.before.map Subtype.val) s)).2
        (handled size room (.finish payload) n (wikiMachine.after (n.before.map Subtype.val) s)).1 := by
      simp only [handled]
      split
      · exact (Leaves.refl hb.reached).finishes
      · have hroute := @finishes_route editor size room _ payload n.writable n.now hb.reached
        split <;> next he => rw [he] at hroute; exact hroute
    refine Finishes.silent ⟨hhandled.reached, fun x hx => hhandled.kept x (hb.kept x hx), fun x hx he => ?_,
      hhandled.answer⟩ n.silent
    exact (hhandled.new x hx he).imp (fun hx => hb.noNew x hx he) id

/-- Every other request leaves the receipts alone. -/
theorem leaves_call (q : Request) (hq : ∀ payload, q ≠ .finish payload) (n : Network editor) (h : Reached s) :
    Leaves editor s ((wikiServer editor size).call room q n s).2 := by
  have hb := leaves_after n.before h
  simp only [wikiServer]
  split
  · exact hb
  · refine hb.trans ?_
    have hr := hb.reached
    generalize wikiMachine.after (n.before.map Subtype.val) s = s at hr
    cases q with
    | query q =>
        cases q with
        | claim =>
            simp only [handled]
            split
            · have hl := @leaves_step editor s hr (.call n.failed (.claim room editor n.now)) trivial
              split <;> next he => rw [he] at hl; exact hl
            · exact .refl hr
        | read =>
            simp only [handled]
            split <;> exact .refl hr
        | requests => exact .refl hr
        | renew lease =>
            simp only [handled]
            split
            · next l _ =>
              split
              · have hl := @leaves_step editor s hr (.call n.failed (.renew room editor l n.now)) trivial
                split <;> next he => rw [he] at hl; exact hl
              · exact .refl hr
            · exact .refl hr
    | finish payload => exact absurd rfl (hq payload)
    | offer route => exact .refl hr

end

/-! ## What a publication holds -/

theorem unsigned_eq {n : Int} {m : Nat} (h : unsigned (.int n) = some m) : 0 ≤ n ∧ m = n.toNat := by
  simp only [unsigned] at h
  split at h
  · next hn => exact ⟨hn, (Option.some.inj h).symm⟩
  · cases h

theorem mapM_map_eq {α β γ : Type} {f : β → Option γ} {g : α → β} {k : α → γ} (h : ∀ x y, f (g x) = some y → y = k x)
    {l : List α} {ys : List γ} (hl : (l.map g).mapM f = some ys) : ys = l.map k := by
  induction l generalizing ys with
  | nil => exact (Option.some.inj hl).symm
  | cons x l ih =>
      rw [List.map_cons, List.mapM_cons] at hl
      obtain ⟨y, hy, hl⟩ := Option.bind_eq_some_iff.mp hl
      obtain ⟨rest, hrest, hl⟩ := Option.bind_eq_some_iff.mp hl
      rw [← Option.some.inj hl, h x y hy, ih hrest]
      rfl

theorem pageOfJson_eq {p : DraftPage} {page : WikiPage} (h : pageOfJson p.toJson = some page) : page = p.toPage := by
  have hlist : list "sources" [("slug", .str p.slug), ("title", .str p.title), ("body", .str p.body),
      ("sources", .arr (p.sources.map .int))] = some (p.sources.map .int) := rfl
  unfold pageOfJson DraftPage.toJson at h
  simp only [asDict, Option.bind_eq_bind, Option.bind_some, hlist] at h
  cases hsources : (p.sources.map Json.int).mapM unsigned with
  | none => rw [hsources] at h; cases h
  | some sources =>
      obtain rfl := mapM_map_eq (fun n m hn => (unsigned_eq hn).2) hsources
      rw [hsources] at h
      exact (Option.some.inj h).symm

/-- What the route reads in a publication is the review. -/
theorem commitOfJson_eq {d : DraftReview} {commit : WikiCommit} (h : commitOfJson d.toJson = some commit) :
    0 ≤ d.expectedRevision ∧ commit = d.toCommit := by
  unfold commitOfJson DraftReview.toJson at h
  generalize (d.routes.map fun rs => ("routes", Json.arr (rs.map DraftRoute.toJson))).toList = routes at h
  have hfields : unsignedField "expected_revision" ([("expected_revision", Json.int d.expectedRevision),
        ("reviewed_through", .int d.reviewedThrough), ("reason", .str d.reason),
        ("pages", .arr (d.pages.map DraftPage.toJson))] ++ routes) = unsigned (.int d.expectedRevision) ∧
      unsignedField "reviewed_through" ([("expected_revision", Json.int d.expectedRevision),
        ("reviewed_through", .int d.reviewedThrough), ("reason", .str d.reason),
        ("pages", .arr (d.pages.map DraftPage.toJson))] ++ routes) = unsigned (.int d.reviewedThrough) ∧
      text "reason" ([("expected_revision", Json.int d.expectedRevision),
        ("reviewed_through", .int d.reviewedThrough), ("reason", .str d.reason),
        ("pages", .arr (d.pages.map DraftPage.toJson))] ++ routes) = some d.reason ∧
      list "pages" ([("expected_revision", Json.int d.expectedRevision),
        ("reviewed_through", .int d.reviewedThrough), ("reason", .str d.reason),
        ("pages", .arr (d.pages.map DraftPage.toJson))] ++ routes) = some (d.pages.map DraftPage.toJson) :=
    ⟨rfl, rfl, rfl, rfl⟩
  simp only [asDict, Option.bind_eq_bind, Option.bind_some, hfields.1, hfields.2.1, hfields.2.2.1, hfields.2.2.2] at h
  obtain ⟨revision, hrevision, h⟩ := Option.bind_eq_some_iff.mp h
  obtain ⟨through, hthrough, h⟩ := Option.bind_eq_some_iff.mp h
  obtain ⟨pages, hpages, h⟩ := Option.bind_eq_some_iff.mp h
  obtain ⟨hnonneg, rfl⟩ := unsigned_eq hrevision
  obtain ⟨-, rfl⟩ := unsigned_eq hthrough
  obtain rfl := mapM_map_eq (fun p page hp => pageOfJson_eq hp) hpages
  exact ⟨hnonneg, (Option.some.inj h).symm⟩

theorem batchCommitOfJson_eq {lease : Json} {d : DraftReview} {commit : WikiBatchCommit}
    (h : batchCommitOfJson (.obj (finishPayload lease (some d))) = some commit) :
    leaseOfJson lease = some commit.lease ∧ 0 ≤ d.expectedRevision ∧ commit.review = d.toCommit := by
  have hfields : Json.field "lease" (finishPayload lease (some d)) = some lease ∧
      Json.field "review" (finishPayload lease (some d)) = some d.toJson := ⟨rfl, rfl⟩
  unfold batchCommitOfJson at h
  simp only [asDict, Option.bind_eq_bind, Option.bind_some, hfields.1, hfields.2] at h
  obtain ⟨l, hl, h⟩ := Option.bind_eq_some_iff.mp h
  obtain ⟨review, hreview, h⟩ := Option.bind_eq_some_iff.mp h
  rw [← Option.some.inj h]
  exact ⟨hl, commitOfJson_eq hreview⟩

/-! ## The log and the receipts -/

structure Agrees (editor : String) (s : RunnerState WikiState) : Prop where
  reached : Reached s.server
  receipts : ∀ x ∈ s.server.tables.receipts, x.editorPrincipal = editor → ∃ id payload reply,
    .finished id x.room payload reply ∈ s.log ∧
      batchCommitOfJson (.obj payload) = some ⟨⟨x.batchId, x.epoch⟩, x.request⟩
  answers : ∀ id room payload receipt, .finished id room payload (some (some receipt)) ∈ s.log →
    ∃ x ∈ s.server.tables.receipts, x.room = room ∧ x.editorPrincipal = editor ∧
      batchCommitOfJson (.obj payload) = some ⟨⟨x.batchId, x.epoch⟩, x.request⟩ ∧ receipt = [("revision", .int x.revision)]

section

variable {editor : String} {size : Json → Nat} {s : RunnerState WikiState}

/-- The server moves, and something else than a publication may come to the log. -/
theorem Agrees.leaves (h : Agrees editor s) {server : WikiState} (hl : Leaves editor s.server server) {log : List Effect}
    (hold : ∀ e ∈ s.log, e ∈ log) (hnew : ∀ id room payload reply, .finished id room payload reply ∈ log →
      .finished id room payload reply ∈ s.log) (journal : Journal) : Agrees editor ⟨journal, server, log⟩ := by
  refine ⟨hl.reached, fun x hx he => ?_, fun id room payload receipt hm => ?_⟩
  · obtain ⟨id, payload, reply, hm, hc⟩ := h.receipts x (hl.noNew x hx he) he
    exact ⟨id, payload, reply, hold _ hm, hc⟩
  · obtain ⟨x, hx, hrest⟩ := h.answers id room payload receipt (hnew _ _ _ _ hm)
    exact ⟨x, hl.kept x hx, hrest⟩

theorem Agrees.finishes (h : Agrees editor s) {id : Nat} {room : String} {payload : Dict} {server : WikiState}
    {reply : Option (Option Dict)} (hf : Finishes editor room payload s.server server reply) :
    Agrees editor { s with server, log := .finished id room payload reply :: s.log } := by
  refine ⟨hf.reached, fun x hx he => ?_, fun id' room' payload' receipt hm => ?_⟩
  · rcases hf.new x hx he with hx | ⟨hroom, hc⟩
    · obtain ⟨id', payload', reply', hm, hc⟩ := h.receipts x hx he
      exact ⟨id', payload', reply', List.mem_cons_of_mem _ hm, hc⟩
    · exact ⟨id, payload, reply, by rw [hroom]; exact List.mem_cons_self, hc⟩
  · rcases List.mem_cons.mp hm with he | hm
    · injection he with _ hroom hpayload hreply
      subst hroom hpayload
      exact hf.answer receipt hreply.symm
    · obtain ⟨x, hx, hrest⟩ := h.answers id' room' payload' receipt hm
      exact ⟨x, hf.kept x hx, hrest⟩

theorem agrees_perform (c : Command) (o : Outside (Network editor)) (h : Agrees editor s) :
    Agrees editor ((host (wikiServer editor size)).perform c o s).2 := by
  have hsame := @Leaves.refl editor _ h.reached
  cases c with
  | look => exact h
  | write e =>
      simp only [host, perform]
      split
      · exact h
      · split
        · exact h.leaves hsame (fun _ he => he) (fun _ _ _ _ hm => hm) _
        · exact h
  | send room q =>
      exact h.leaves (@leaves_call editor size room _ (.query q) (fun _ he => by cases he) o.network h.reached)
        (fun _ he => he) (fun _ _ _ _ hm => hm) s.journal
  | finish id room payload => exact h.finishes (finishes_call payload o.network h.reached)
  | offer id room route =>
      refine h.leaves (@leaves_call editor size room _ (.offer route) (fun _ he => by cases he) o.network h.reached)
        (fun _ he => List.mem_cons_of_mem _ he) (fun _ _ _ _ hm => ?_) s.journal
      rcases List.mem_cons.mp hm with he | hm
      · cases he
      · exact hm
  | ask d payload =>
      refine h.leaves hsame (fun _ he => List.mem_cons_of_mem _ he) (fun _ _ _ _ hm => ?_) _
      rcases List.mem_cons.mp hm with he | hm
      · cases he
      · exact hm
  | clock => exact h

end

/-! ## Whole runs -/

/-- The runner comes to a wiki in which its editor has published nothing yet. -/
def servedMachine (editor : String) (size : Json → Nat) :
    Sys.Machine (RunnerState WikiState) (Attempt (Network editor)) (Option Outcome) where
  init s := Reached s.server ∧ (∀ x ∈ s.server.tables.receipts, x.editorPrincipal ≠ editor) ∧ s.journal = {} ∧ s.log = []
  step := (runnerMachine (wikiServer editor size)).step

section

variable {editor : String} {size : Json → Nat} {tr : List (Attempt (Network editor) × Option Outcome)}
  {s : RunnerState WikiState}

theorem served_run (r : Sys.Run (servedMachine editor size) (fun _ _ => True) tr s) :
    Sys.Run (runnerMachine (wikiServer editor size)) (fun _ _ => True) tr s := by
  induction r with
  | nil h => exact .nil h.2.2
  | snoc a _ _ ih => exact ih.snoc a trivial

theorem run_agrees (r : Sys.Run (servedMachine editor size) (fun _ _ => True) tr s) : Agrees editor s := by
  refine Sys.Run.invariant (I := Agrees editor) ?_ ?_ r
  · rintro s ⟨hreached, hnone, -, hlog⟩
    refine ⟨hreached, fun x hx he => absurd he (hnone x hx), fun id room payload receipt hm => ?_⟩
    rw [hlog] at hm
    cases hm
  · exact fun s a h _ => exec_keeps _ (fun c o s hs => agrees_perform c o hs) _ a.outside h

/-! A room with one message.  The first attempt has the worker's review published, but is not told; the second is. -/

/-- The wiki before the batch is claimed. -/
def openWiki : WikiState := (wikiMachine.exec (sampleReview.take 3) [] {}).2

def renewedWiki : WikiState := (wikiStep claimedRun.2 (.call false (.renew "a" "editor" ⟨1, 1⟩ 4))).2

def servedReview : DraftReview := ⟨0, 1, "read", [], none⟩

def publishedWiki : WikiState :=
  (wikiStep renewedWiki (.call false (.finish "a" "editor" servedReview.toCommit ⟨1, 1⟩ 5))).2

def servedReceipt : WikiReceiptRow := ⟨"a", 1, 1, "editor", servedReview.toCommit, 0⟩

/-- A quiet network. -/
def quiet (silent : Bool) (worker : Option Json) (now : Nat) : Outside (Network "editor") :=
  ⟨⟨[], false, silent, false, true, now, [], some [("requests", .arr [])]⟩, false, worker, now⟩

def servedFirst : Attempt (Network "editor") where
  room := "a"
  worker := true
  outside := [quiet false none 3, quiet false none 3, quiet false none 3, quiet false none 3, quiet false none 3,
    quiet false none 4, quiet false none 4, quiet false none 4, quiet false none 4, quiet false (some servedReview.toJson) 4,
    quiet false none 4, quiet false none 4, quiet true none 5]

def servedBatch : Dict := heldBatch claimedBatch (some (.arr []))

def servedLease : Json := .obj (leaseDict ⟨1, 1⟩)

def servedJob : Job :=
  ⟨1, "a", 1, 1, .publicationPending, servedBatch, snapshotDict claimedWiki, some servedReview, none, none⟩

def servedEntered : Job := { servedJob with status := .dispatchIntent, review := none }

def servedPayload : Dict :=
  preparedWith workerInstructions "a" (snapshotDict claimedWiki) (claimedBatch.messages.map messageDict) 1 ++
    [("context_requests", .arr [])]

theorem served_payload : reviewPayload "a" servedBatch (snapshotDict claimedWiki) (.arr []) = .ok servedPayload := by
  have hbatch : text "room" servedBatch = some "a" ∧ number "after_id" servedBatch = some 0 ∧
      records "messages" servedBatch = some (claimedBatch.messages.map messageDict) ∧
      number "through_id" servedBatch = some 1 ∧ (claimedBatch.messages.map messageDict).mapM (number "id") = some [1] := by
    refine ⟨?_, ?_, ?_, ?_, ?_⟩ <;> rfl
  obtain ⟨hroom, hafter, hmessages, hthrough, hids⟩ := hbatch
  have hwiki : text "room" (snapshotDict claimedWiki) = some "a" ∧
      number "reviewed_through" (snapshotDict claimedWiki) = some 0 := ⟨rfl, rfl⟩
  exact reviewPayload_small ⟨hroom, hwiki.1⟩ hafter hwiki.2 hmessages hthrough hids (by decide) (by decide +kernel)

def servedPending : RunnerState WikiState where
  journal := ⟨[servedJob], []⟩
  server := publishedWiki
  log := [.finished 1 "a" (finishPayload servedLease (some servedReview)) none,
    .asked servedJob.dispatch servedPayload (some servedReview.toJson)]

theorem served_claim : (wikiServer "editor" compactSize).call "a" (.query .claim) (quiet false none 3).network openWiki =
    (some (some (batchDict claimedBatch)), claimedRun.2) := by
  have hstep : wikiStep openWiki (.call false (.claim "a" "editor" 3)) =
      (.ok (.claimed (some claimedBatch)), claimedRun.2) := Prod.ext (by decide) rfl
  show (match wikiStep openWiki (.call false (.claim "a" "editor" 3)) with
    | (.ok (.claimed batch), s') => (some (batch.map batchDict), s')
    | (_, s') => (none, s')) = _
  rw [hstep]
  rfl

theorem served_renew : (wikiServer "editor" compactSize).call "a" (.query (.renew servedLease)) (quiet false none 4).network
    claimedRun.2 = (some (some [("lease_expires_at", .int 300004)]), renewedWiki) := by
  have hstep : (wikiStep claimedRun.2 (.call false (.renew "a" "editor" ⟨1, 1⟩ 4))).1 = .ok (.expires 300004) := by decide
  show (match wikiStep claimedRun.2 (.call false (.renew "a" "editor" ⟨1, 1⟩ 4)) with
    | (.ok (.expires time), s') => (some (some [("lease_expires_at", Json.int time)]), s')
    | (_, s') => (none, s')) = _
  unfold renewedWiki
  generalize wikiStep claimedRun.2 (.call false (.renew "a" "editor" ⟨1, 1⟩ 4)) = res at hstep
  obtain ⟨answer, s'⟩ := res
  subst hstep
  rfl

/-- The publication of the review, to a wiki that takes it. -/
theorem served_finish {w w' : WikiState} {now : Nat}
    (h : wikiStep w (.call false (.finish "a" "editor" servedReview.toCommit ⟨1, 1⟩ now)) = (.ok (.revision 0), w'))
    (silent : Bool) : (wikiServer "editor" compactSize).call "a"
      (.finish (finishPayload servedLease (some servedReview))) (quiet silent none now).network w =
        (if silent then none else some (some [("revision", .int 0)]), w') := by
  have hc : batchCommitOfJson (.obj (finishPayload servedLease (some servedReview))) =
      some ⟨⟨1, 1⟩, servedReview.toCommit⟩ := rfl
  have hsize : ¬maxHttpBodyBytes < compactSize (.obj (finishPayload servedLease (some servedReview))) := by decide +kernel
  have hafter : wikiMachine.after [] w = w := rfl
  simp only [wikiServer, quiet, List.map_nil, hafter, Bool.false_eq_true, if_false, handled, finishRoute, if_neg hsize, hc,
    if_true, h]
  rfl

theorem served_published : wikiStep renewedWiki (.call false (.finish "a" "editor" servedReview.toCommit ⟨1, 1⟩ 5)) =
    (.ok (.revision 0), publishedWiki) := Prod.ext (by decide) rfl

theorem served_first :
    (servedMachine "editor" compactSize).step { server := openWiki } servedFirst = (none, servedPending) := by
  have hstart : ∀ es, exec (host (wikiServer "editor" compactSize)) (runOnce "a" true)
      (quiet false none 3 :: quiet false none 3 :: es) { server := openWiki } =
    exec (host (wikiServer "editor" compactSize)) (claimNext "a" none) es { server := openWiki } := fun _ => rfl
  have hread : (wikiServer "editor" compactSize).call "a" (.query .read) (quiet false none 3).network claimedRun.2 =
      (some (some (snapshotDict claimedWiki)), claimedRun.2) := by
    show (match wikiSnapshot [] claimedRun.2.tables "a" with
      | .ok snapshot => (some (some (snapshotDict snapshot)), claimedRun.2)
      | .error _ => (none, claimedRun.2)) = _
    rw [claimed_wiki]
  have hrequests : (wikiServer "editor" compactSize).call "a" (.query .requests) (quiet false none 3).network claimedRun.2 =
      (some (some [("requests", .arr [])]), claimedRun.2) := rfl
  have hlease : Json.field "lease" servedJob.batch = some servedLease := rfl
  have hreview : servedJob.review = some servedReview := rfl
  have hnone : (Json.field "requests" [("requests", .arr [])]).getD (.arr []) = Json.arr [] := rfl
  have hheld : Json.setField "context_requests" (.arr []) (batchDict claimedBatch) = servedBatch := rfl
  have hrenewed : renewed (some [("lease_expires_at", .int 300004)]) (quiet false none 4).now = true := by decide
  have hintent : Entry.run (.intent "a" servedBatch (snapshotDict claimedWiki)) {} = .ok ⟨[servedEntered], []⟩ := by
    have hsize : Journal.dumped servedBatch + Journal.dumped (snapshotDict claimedWiki) ≤ Journal.maxInput := by
      decide +kernel
    simp only [Entry.run, Journal.intent, require, if_pos hsize]
    rfl
  have hresult : Entry.run (.result servedEntered.id "a" servedReview) ⟨[servedEntered], []⟩ = .ok servedPending.journal := by
    simp only [Entry.run, Journal.result, require]
    rfl
  show exec (host (wikiServer "editor" compactSize)) (runOnce "a" true) _ _ = _
  unfold servedFirst
  rw [hstart]
  unfold claimNext
  rw [exec_send served_claim]
  show exec (host (wikiServer "editor" compactSize)) (reviewNext "a" (batchDict claimedBatch)) _ _ = _
  unfold reviewNext
  rw [exec_send hread, exec_send hrequests, exec_need rfl]
  dsimp only
  rw [hnone, hheld, exec_need rfl, exec_attempt served_payload, exec_need (rfl : Json.field "lease" servedBatch = some servedLease), exec_send served_renew,
    exec_clock, if_pos hrenewed, exec_write (s := ⟨{}, _, []⟩) rfl hintent, exec_look,
    exec_need (rfl : Journal.latest "a" ⟨[servedEntered], []⟩ = some servedEntered)]
  unfold draft
  rw [exec_ask]
  have hv : (quiet false (some servedReview.toJson) 4).worker.map (fun a => validateReview a servedBatch (snapshotDict claimedWiki)) =
    some (.ok servedReview) := rfl
  rw [hv]
  dsimp only
  rw [exec_write (s := ⟨⟨[servedEntered], []⟩, _, _⟩) rfl hresult, exec_look,
    exec_need (rfl : Journal.latest "a" servedPending.journal = some servedJob)]
  unfold publish
  rw [exec_need hlease, hreview]
  rw [exec_finish_lost (s := ⟨servedPending.journal, renewedWiki, _⟩) (served_finish served_published true)]
  rfl

theorem served_pending : Sys.Run (servedMachine "editor" compactSize) (fun _ _ => True) [(servedFirst, none)]
    servedPending := by
  have hempty : openWiki.tables.receipts = [] := rfl
  have h₀ : (servedMachine "editor" compactSize).init { server := openWiki } :=
    ⟨⟨_, run_of_inputs (sampleReview.take 3)⟩, fun _ hx => absurd (hempty ▸ hx) List.not_mem_nil, rfl, rfl⟩
  have h := @Sys.Run.snoc _ _ _ (servedMachine "editor" compactSize) (fun _ _ => True) _ _ servedFirst (.nil h₀) trivial
  rw [served_first] at h
  exact h

/-- The receipt was taken. -/
def servedDone : RunnerState WikiState where
  journal := ⟨[{ servedJob with
    status := .accepted, receipt := some [("revision", .int 0)], batch := [("lease", servedLease)], snapshot := [],
    review := none }], []⟩
  server := publishedWiki
  log := .finished 1 "a" (finishPayload servedLease (some servedReview)) (some (some [("revision", .int 0)])) ::
    servedPending.log

def servedSecond : Attempt (Network "editor") where
  room := "a"
  worker := true
  outside := [quiet false none 6, quiet false none 6, quiet false none 6, quiet false none 6, quiet false none 6]

theorem served_again : (wikiServer "editor" compactSize).call "a"
    (.finish (finishPayload servedLease (some servedReview))) (quiet false none 6).network publishedWiki =
      (some (some [("revision", .int 0)]), publishedWiki) :=
  served_finish (Prod.ext (by decide) rfl) false

theorem served_second :
    (servedMachine "editor" compactSize).step servedPending servedSecond = (some (.accepted 1 0), servedDone) := by
  have hstart : ∀ es, exec (host (wikiServer "editor" compactSize)) (runOnce "a" true)
      (quiet false none 6 :: quiet false none 6 :: es) servedPending =
    exec (host (wikiServer "editor" compactSize)) (publish "a" servedJob) es servedPending := fun _ => rfl
  have hlease : Json.field "lease" servedJob.batch = some servedLease := rfl
  have hreview : servedJob.review = some servedReview := rfl
  have hstate : servedPending = ⟨⟨[servedJob], []⟩, publishedWiki, servedPending.log⟩ := rfl
  have hverify : verifyReceipt [("revision", .int 0)] servedJob.snapshot = .ok 0 := rfl
  have haccepted : Entry.run (.accepted servedJob.id servedLease [("revision", .int 0)]) ⟨[servedJob], []⟩ =
      .ok servedDone.journal := rfl
  have hstep : ∀ s, (servedMachine "editor" compactSize).step s servedSecond =
      exec (host (wikiServer "editor" compactSize)) (runOnce "a" true) servedSecond.outside s := fun _ => rfl
  rw [hstep]
  unfold servedSecond
  rw [hstart]
  unfold publish
  rw [exec_need hlease, hreview, hstate, exec_finish (s := ⟨⟨[servedJob], []⟩, publishedWiki, _⟩) served_again]
  dsimp only
  rw [exec_need rfl, exec_attempt hverify,
    exec_write (s := ⟨⟨[servedJob], []⟩, _, _⟩) rfl haccepted,
    exec_routePending (s := ⟨servedDone.journal, _, _⟩) rfl]
  rfl

theorem served_sample : Sys.Run (servedMachine "editor" compactSize) (fun _ _ => True)
    [(servedSecond, some (.accepted 1 0)), (servedFirst, none)] servedDone := by
  have h := served_pending.snoc servedSecond trivial
  rw [served_second] at h
  exact h

/-- What the editor has published is what its workers drafted, each review for the lease its batch was claimed with; and
what the runner holds for accepted has been published, once, with the revision it was told each time it asked. -/
theorem published_is_drafted (r : Sys.Run (servedMachine editor size) (fun _ _ => True) tr s) :
    (∀ x ∈ s.server.tables.receipts, x.editorPrincipal = editor → ∃ d review lease, d.room = x.room ∧
      DraftedFrom s.log d review ∧ Json.field "lease" d.batch = some lease ∧
      leaseOfJson lease = some ⟨x.batchId, x.epoch⟩ ∧ x.request = review.toCommit) ∧
    (∀ d review, Taken s.log d review → ∃ x ∈ s.server.tables.receipts, x.room = d.room ∧ x.editorPrincipal = editor ∧
      (Json.field "lease" d.batch).bind leaseOfJson = some ⟨x.batchId, x.epoch⟩ ∧ x.request = review.toCommit ∧
      (∀ room payload receipt, .finished d.id room payload (some (some receipt)) ∈ s.log →
        receipt = [("revision", .int x.revision)]) ∧
      ∀ y ∈ s.server.tables.receipts, y.batchId = x.batchId → y = x) := by
  have ha := run_agrees r
  have ho := (run_told (served_run r)).order
  have honce := ha.reached.fenced.receiptOnce
  refine ⟨fun x hx he => ?_, fun d review htaken => ?_⟩
  · obtain ⟨id, payload, reply, hm, hc⟩ := ha.receipts x hx he
    obtain ⟨d, lease, review, -, hroom, hd, hlease, rfl⟩ := ho.finished_body hm
    obtain ⟨hl, -, hreview⟩ := batchCommitOfJson_eq hc
    exact ⟨d, review, lease, hroom, hd, hlease, hl, hreview⟩
  · obtain ⟨hd, payload, receipt, revision, hm, -⟩ := htaken
    obtain ⟨x, hx, hroom, he, hc, -⟩ := ha.answers _ _ _ _ hm
    -- the publications of a job all have the body of this one
    have hsame : ∀ {room payload' reply}, .finished d.id room payload' reply ∈ s.log →
        ∃ lease, Json.field "lease" d.batch = some lease ∧ payload' = finishPayload lease (some review) := by
      intro room payload' reply hm'
      obtain ⟨d', lease, review', hid, -, hd', hlease, hpayload⟩ := ho.finished_body hm'
      obtain ⟨rfl, rfl⟩ := ho.drafted_once hd hd' hid.symm
      exact ⟨lease, hlease, hpayload⟩
    obtain ⟨lease, hlease, rfl⟩ := hsame hm
    obtain ⟨hl, -, hreview⟩ := batchCommitOfJson_eq hc
    refine ⟨x, hx, hroom, he, by rw [hlease]; exact hl, hreview, fun room payload' receipt' hm' => ?_, fun y hy hyb =>
      eq_of_key honce hy hx hyb⟩
    obtain ⟨lease', hlease', rfl⟩ := hsame hm'
    obtain rfl := Option.some.inj (hlease.symm.trans hlease')
    obtain ⟨x', hx', -, -, hc', hreceipt⟩ := ha.answers _ _ _ _ hm'
    have hcommit := Option.some.inj (hc.symm.trans hc')
    injection hcommit with hkey
    injection hkey with hbatch
    rw [hreceipt, eq_of_key honce hx' hx hbatch.symm]

theorem published_is_drafted_sample : ∃ x ∈ publishedWiki.tables.receipts, x.room = "a" ∧
    x.request = servedReview.toCommit ∧ ∀ y ∈ publishedWiki.tables.receipts, y.batchId = x.batchId → y = x := by
  have htaken : Taken servedDone.log servedJob.dispatch servedReview :=
    ⟨⟨servedPayload, servedReview.toJson, List.mem_cons_of_mem _ (List.mem_cons_of_mem _ List.mem_cons_self), rfl⟩,
      finishPayload servedLease (some servedReview), [("revision", .int 0)], 0, List.mem_cons_self, rfl⟩
  obtain ⟨x, hx, hroom, -, -, hrequest, -, honce⟩ := (published_is_drafted served_sample).2 _ _ htaken
  exact ⟨x, hx, hroom, hrequest, honce⟩

end

/-! ## Recovery -/

/-- A receipt is for the revision its review was made from, or the next. -/
theorem Reached.near {s : WikiState} (h : Reached s) : ∀ x ∈ s.tables.receipts,
    x.revision = x.request.expectedRevision ∨ x.revision = x.request.expectedRevision + 1 := by
  obtain ⟨tr, hr⟩ := h
  refine Sys.Run.induction (P := fun _ s => ∀ x ∈ s.tables.receipts,
    x.revision = x.request.expectedRevision ∨ x.revision = x.request.expectedRevision + 1) ?_ ?_ hr
  · rintro s ⟨-, -, ht, -⟩ x hx
    rw [ht] at hx
    cases hx
  · intro tr s i hr h _ x hx
    rcases wikiStep_receipts (run_fenced hr) i with hrec | ⟨room, p, u, l, now, n, rfl, hok, -, -, hrec⟩
    · exact h x (hrec ▸ hx)
    · rcases List.mem_append.mp (hrec ▸ hx) with hx | hx
      · exact h x hx
      · obtain ⟨t, hrun, hstep⟩ := wikiStep_ok hok
        obtain ⟨n', hfinish, hn⟩ := answer_ok.mp hrun
        injection hn with hn
        subst hn
        have ht : t.receipts = s.tables.receipts ++ [⟨room, l.batchId, l.epoch, p, u, n'⟩] := by
          rw [hstep] at hrec
          exact hrec
        rw [List.mem_singleton.mp hx]
        obtain ⟨-, w, -, -, -, ⟨_, _, _, _, _, _, _, hsame⟩ | ⟨changed, hp, -⟩⟩ := commitWikiChecked_ok hfinish
        · rw [hsame] at ht
          exact absurd (congrArg List.length ht) (by simp)
        · have hexpected : u.expectedRevision = w.revision := hp.expected
          have hrevision := hp.revision
          show n' = u.expectedRevision ∨ n' = u.expectedRevision + 1
          rw [hexpected, hrevision]
          split
          · exact .inl rfl
          · exact .inr rfl

/-- Nothing goes wrong at a command, and the room still has its editor. -/
def Undisturbed (editor room : String) (s : RunnerState WikiState) (_ : Command) (o : Outside (Network editor)) : Prop :=
  o.disk = false ∧ o.network.lost = false ∧ o.network.silent = false ∧ o.network.failed = false ∧
    o.network.writable = true ∧
    ((wikiMachine.after (o.network.before.map Subtype.val) s.server).tables.row room).map WikiRow.editorPrincipal = some editor

/-- The server has the job's publication: there is a receipt for what its body says. -/
def GotThrough (editor : String) (size : Json → Nat) (s : RunnerState WikiState) (job : Job) (x : WikiReceiptRow) : Prop :=
  x ∈ s.server.tables.receipts ∧ x.editorPrincipal = editor ∧ x.room = job.room ∧
    ∃ lease, Json.field "lease" job.batch = some lease ∧ size (.obj (finishPayload lease job.review)) ≤ maxHttpBodyBytes ∧
      batchCommitOfJson (.obj (finishPayload lease job.review)) = some ⟨⟨x.batchId, x.epoch⟩, x.request⟩

section

variable {editor : String} {size : Json → Nat} {room : String} {s : RunnerState WikiState} {x : WikiReceiptRow}

theorem call_undisturbed {c : Command} {o : Outside (Network editor)} (h : Undisturbed editor room s c o) (q : Request) :
    (wikiServer editor size).call room q o.network s.server =
      handled size room q o.network (wikiMachine.after (o.network.before.map Subtype.val) s.server) := by
  simp [wikiServer, h.2.1, h.2.2.1]

theorem total_look {Q : Journal → RunnerState WikiState → Prop} (h : Q s.journal s) :
    Total (host (wikiServer editor size)) (Undisturbed editor room) look Q s := fun _ _ => ⟨s.journal, s, rfl, h⟩

theorem total_write {e : Entry} {j : Journal} {Q : Unit → RunnerState WikiState → Prop} (hj : e.run s.journal = .ok j)
    (h : Q () { s with journal := j }) :
    Total (host (wikiServer editor size)) (Undisturbed editor room) (write e) Q s := by
  intro o ho
  refine ⟨(), _, ?_, h⟩
  simp only [host, perform, ho.1, Bool.false_eq_true, if_false, hj]

/-- The routes that wait are offered; the receipt stays, and so do the jobs. -/
theorem total_routePending (hs : Reached s.server) (hx : x ∈ s.server.tables.receipts) :
    Total (host (wikiServer editor size)) (Undisturbed editor room) (routePending room)
      (fun _ s' => s'.journal.jobs = s.journal.jobs ∧ Reached s'.server ∧ x ∈ s'.server.tables.receipts) s := by
  refine total_bind (total_look (total_each (fun r _ s' hs' => ?_) ⟨rfl, hs, hx⟩))
  refine total_bind fun o ho => ?_
  have hl := @leaves_call editor size room s'.server (.offer r.payload) (fun _ he => nomatch he) o.network hs'.2.1
  refine ⟨(), ⟨s'.journal, ((wikiServer editor size).call room (.offer r.payload) o.network s'.server).2,
    .offered r.jobId room r.payload :: s'.log⟩, ?_, ?_⟩
  · have hcall : ((wikiServer editor size).call room (.offer r.payload) o.network s'.server).1 =
        some (some [("offered", .bool true)]) := by
      rw [call_undisturbed ho]
      simp [handled, ho.2.2.2.1]
    simp only [host, perform, hcall]
    rfl
  · exact total_write rfl ⟨hs'.1, hl.reached, hl.kept x hs'.2.2⟩

/-- The server repeats the receipt. -/
theorem total_finish {c : Command} {o : Outside (Network editor)} {payload : Dict} (ho : Undisturbed editor room s c o)
    (hs : Reached s.server) (hx : x ∈ s.server.tables.receipts) (he : x.editorPrincipal = editor) (hr : x.room = room)
    (hsize : size (.obj payload) ≤ maxHttpBodyBytes)
    (hc : batchCommitOfJson (.obj payload) = some ⟨⟨x.batchId, x.epoch⟩, x.request⟩) :
    ((wikiServer editor size).call room (.finish payload) o.network s.server).1 =
      some (some [("revision", .int x.revision)]) := by
  obtain ⟨-, -, -, hfailed, hwritable, heditor⟩ := id ho
  have hb := leaves_after o.network.before hs
  have hx' := hb.kept x hx
  rw [call_undisturbed ho]
  generalize wikiMachine.after (o.network.before.map Subtype.val) s.server = w at hb hx' heditor
  have hfinish : finishWikiReview w.messages x.room editor x.request ⟨x.batchId, x.epoch⟩ o.network.now w.tables =
      .ok (x.revision, w.tables) := by
    rcases finish_replay w.messages hb.reached.fenced hx' editor x.request o.network.now with ⟨hok, -⟩ | ⟨-, hno⟩
    · exact hok
    · exact absurd ⟨he.symm, rfl, hr ▸ heditor⟩ hno
  have hstep : (wikiStep w (.call false (.finish room editor x.request ⟨x.batchId, x.epoch⟩ o.network.now))).1 =
      .ok (.revision x.revision) := by
    rw [hr] at hfinish
    simp [wikiStep, atomically, WikiCall.run, answer, hfinish, Except.map]
  simp only [handled, hfailed, Bool.false_eq_true, if_false, finishRoute, if_neg (Nat.not_lt.mpr hsize), hc, hwritable, if_true]
  generalize wikiStep w (.call false (.finish room editor x.request ⟨x.batchId, x.epoch⟩ o.network.now)) = res at hstep
  obtain ⟨answer, w'⟩ := res
  subst hstep
  rfl

theorem total_publish {job : Job} {lease : Json} {j : Journal} (hs : Reached s.server)
    (hx : x ∈ s.server.tables.receipts) (he : x.editorPrincipal = editor) (hr : x.room = room)
    (hlease : Json.field "lease" job.batch = some lease)
    (hsize : size (.obj (finishPayload lease job.review)) ≤ maxHttpBodyBytes)
    (hc : batchCommitOfJson (.obj (finishPayload lease job.review)) = some ⟨⟨x.batchId, x.epoch⟩, x.request⟩)
    (hverify : verifyReceipt [("revision", .int x.revision)] job.snapshot = .ok (x.revision : Int))
    (hj : s.journal.accepted job.id lease [("revision", .int x.revision)] = .ok j) :
    Total (host (wikiServer editor size)) (Undisturbed editor room) (publish room job)
      (fun outcome s' => outcome = .accepted job.batchId x.revision ∧ s'.journal.jobs = j.jobs) s := by
  unfold publish
  rw [hlease]
  refine total_bind (total_bind fun o ho => ?_)
  have hanswer := @total_finish editor size room s x _ _ _ ho hs hx he hr hsize hc
  have hf := @finishes_call editor size room s.server (finishPayload lease job.review) o.network hs
  refine ⟨some [("revision", .int x.revision)], { s with
    server := ((wikiServer editor size).call room (.finish (finishPayload lease job.review)) o.network s.server).2
    log := .finished job.id room (finishPayload lease job.review) (some (some [("revision", .int x.revision)])) :: s.log }, ?_, ?_⟩
  · simp only [host, perform, hanswer]
    rfl
  refine total_bind ?_
  show Total _ _ (attempt (verifyReceipt [("revision", .int x.revision)] job.snapshot) >>= _) _ _
  rw [hverify]
  refine total_bind (total_bind (total_write hj ?_))
  exact total_bind (total_mono (total_routePending hf.reached (hf.kept x hx)) fun _ s' h => ⟨rfl, h.1⟩)

theorem number_revision (n : Int) : number "revision" [("revision", .int n)] = some n := rfl

/-- The revision of the receipt is one that the job may take. -/
theorem verify_receipt (ht : Told s) (hreached : Reached s.server) {job : Job} {lease : Json} (hjob : job ∈ s.journal.jobs)
    (hs : job.status = .publicationPending) (hx : x ∈ s.server.tables.receipts)
    (hc : batchCommitOfJson (.obj (finishPayload lease job.review)) = some ⟨⟨x.batchId, x.epoch⟩, x.request⟩) :
    verifyReceipt [("revision", .int x.revision)] job.snapshot = .ok (x.revision : Int) := by
  obtain ⟨review, hreview, payload, answer, -, hvalidated⟩ := ht.pending job hjob hs
  obtain ⟨before, through, messages, pages, available, hbefore, -, -, -, -, hv⟩ := validateReview_ok hvalidated
  rw [hreview] at hc
  obtain ⟨-, hnonneg, hrequest⟩ := batchCommitOfJson_eq hc
  have hexpected : (x.request.expectedRevision : Int) = before := by
    have hr : x.request.expectedRevision = review.expectedRevision.toNat := by
      rw [show x.request = review.toCommit from hrequest]
      rfl
    rw [hr, Int.toNat_of_nonneg hnonneg]
    exact hv.expected
  have hbetween : before ≤ (x.revision : Int) ∧ (x.revision : Int) ≤ before + 1 := by
    have hnear := hreached.near x hx
    omega
  have hbefore : number "revision" job.snapshot = some before := hbefore
  simp only [verifyReceipt, hbefore, found_some, ok_bind, number_revision, require, if_pos hbetween]
  rfl

/-- When the open job of a room has been accepted, the room has none. -/
theorem accepted_frees {τ : Type} {s : RunnerState τ} (ht : Told s) {job : Job} {lease : Json} {receipt : Dict}
    {j j' : Journal} (hjobs : j.jobs = s.journal.jobs) (hjob : job ∈ s.journal.jobs) (hs : job.status = .publicationPending)
    (hj : j.accepted job.id lease receipt = .ok j') : ∀ y ∈ j'.jobs, y.room = job.room → y.open = false := by
  intro y hy hyr
  obtain ⟨-, rfl⟩ := Journal.accepted_ok hj
  obtain ⟨z, hz, rfl⟩ := mem_updateWhere.mp (Journal.mem_prune hy)
  rw [hjobs] at hz
  split
  · rfl
  · next hother =>
    rw [if_neg hother] at hyr
    by_contra hopen
    have hopen : z.open = true := by simpa using hopen
    have hid : z.id = job.id := Nat.le_antisymm (ht.last job hjob (by simp [Job.open, hs]) z hz hyr)
      (ht.last z hz hopen job hjob hyr.symm)
    exact hother (by simp [eq_of_key ht.ids hz hjob hid, hs])

/-- In every run: where a publication has got through and its answer has not, the next undisturbed run takes the receipt,
the one the server gave it first, and the room is free again. -/
theorem lost_answer_is_recovered {tr : List (Attempt (Network editor) × Option Outcome)}
    (r : Sys.Run (servedMachine editor size) (fun _ _ => True) tr s) {job : Job} (hjob : job ∈ s.journal.jobs)
    (hroom : job.room = room) (hs : job.status = .publicationPending) (hx : GotThrough editor size s job x) (worker : Bool)
    (o : Nat → Outside (Network editor))
    (hm : ∀ n, Meets (host (wikiServer editor size)) (Undisturbed editor room) (runOnce room worker)
      ((List.range n).map o) s) :
    ∃ n s', exec (host (wikiServer editor size)) (runOnce room worker) ((List.range n).map o) s =
      (some (.accepted job.batchId x.revision), s') ∧ ∀ y ∈ s'.journal.jobs, y.room = room → y.open = false := by
  obtain ⟨hx, he, hxr, lease, hlease, hsize, hc⟩ := hx
  have ht := run_told (served_run r)
  have ha := run_agrees r
  have hverify := verify_receipt ht ha.reached hjob hs hx hc
  have htotal : Total (host (wikiServer editor size)) (Undisturbed editor room) (runOnce room worker)
      (fun outcome s' => outcome = .accepted job.batchId x.revision ∧ ∀ y ∈ s'.journal.jobs, y.room = room → y.open = false)
      s := by
    refine total_bind (total_mono (total_routePending ha.reached hx) fun _ s₁ h₁ => ?_)
    obtain ⟨hjobs, hreached, hx₁⟩ := h₁
    have hlatest : s₁.journal.latest room = some job := by
      have hsame : s₁.journal.latest room = s.journal.latest room := by
        unfold Journal.latest
        rw [hjobs]
      rw [hsame]
      cases h : s.journal.latest room with
      | none => exact absurd hroom (Journal.latest_none h job hjob)
      | some y => rw [ht.latest hjob hroom (by simp [Job.open, hs]) h]
    refine total_bind (total_look ?_)
    rw [hlatest]
    dsimp only
    rw [hs]
    dsimp only
    have hwaits : ∃ y ∈ s₁.journal.jobs, y.id = job.id ∧ y.status = .publicationPending := ⟨job, hjobs ▸ hjob, rfl, hs⟩
    obtain ⟨j, hj⟩ : ∃ j, s₁.journal.accepted job.id lease [("revision", .int x.revision)] = .ok j :=
      ⟨_, by simp only [Journal.accepted, require, if_pos hwaits, ok_bind]; rfl⟩
    exact total_mono (total_publish hreached hx₁ he (hxr.trans hroom) hlease hsize hc hverify hj) fun outcome s' h =>
      ⟨h.1, fun y hy hyr => accepted_frees ht hjobs hjob hs hj y (h.2 ▸ hy) (hyr.trans hroom.symm)⟩
  obtain ⟨n, outcome, s', hexec, rfl, hfree⟩ := exec_total o htotal hm
  exact ⟨n, s', hexec, hfree⟩

/-- A network that says the same each time, where there are no routes to offer. -/
theorem meets_publish {τ ν : Type} {T : Transport τ ν} {ok : RunnerState τ → Command → Outside ν → Prop} {o : Outside ν}
    {w : τ} {room : String} {job : Job} {lease : Json} {receipt : Dict} {revision : Int} {j j' : Journal}
    (hok : ∀ s c, s.server = w → ok s c o) (hd : o.disk = false) (hlease : Json.field "lease" job.batch = some lease)
    (hcall : T.call room (.finish (finishPayload lease job.review)) o.network w = (some (some receipt), w))
    (hverify : verifyReceipt receipt job.snapshot = .ok revision) (hj : j.accepted job.id lease receipt = .ok j')
    (hroutes : j'.pendingRoutes room = []) (n : Nat) (log : List Effect) :
    Meets (host T) ok (publish room job) (List.replicate n o) ⟨j, w, log⟩ := by
  have hfinish : ∀ s : RunnerState τ, s.server = w →
      (host T).perform (.finish job.id room (finishPayload lease job.review)) o s = (some (some receipt), { s with
        log := .finished job.id room (finishPayload lease job.review) (some (some receipt)) :: s.log }) := by
    rintro s rfl
    simp only [host, perform, hcall]
    rfl
  have hwrite : ∀ log, (host T).perform (.write (.accepted job.id lease receipt)) o ⟨j, w, log⟩ =
      (some (), ⟨j', w, log⟩) := by
    intro log
    simp only [host, perform, hd, Bool.false_eq_true, if_false, Entry.run, hj]
    rfl
  unfold publish
  rw [hlease]
  rcases n with _ | _ | _ | n
  · trivial
  · exact meets_cmd (hok _ _ rfl) (hfinish _ rfl) (by
      show Meets _ _ (attempt (verifyReceipt receipt job.snapshot) >>= _) _ _
      rw [hverify]
      trivial)
  all_goals
    refine meets_cmd (hok _ _ rfl) (hfinish _ rfl) ?_
    show Meets _ _ (attempt (verifyReceipt receipt job.snapshot) >>= _) _ _
    rw [hverify]
    refine meets_cmd (hok _ _ rfl) (hwrite _) ?_
  · trivial
  · refine meets_cmd (hok _ _ rfl) rfl ?_
    show Meets _ _ (each _ (j'.pendingRoutes room) >>= _) _ _
    rw [hroutes]
    trivial

theorem lost_answer_is_recovered_sample : ∃ n s', exec (host (wikiServer "editor" compactSize)) (runOnce "a" true)
      ((List.range n).map fun _ => quiet false none 6) servedPending = (some (.accepted 1 0), s') ∧
    ∀ y ∈ s'.journal.jobs, y.room = "a" → y.open = false := by
  have hrow : (publishedWiki.tables.row "a").map WikiRow.editorPrincipal = some "editor" := by decide
  have hok : ∀ (s : RunnerState WikiState) c, s.server = publishedWiki →
      Undisturbed "editor" "a" s c (quiet false none 6) := fun s c hs => ⟨rfl, rfl, rfl, rfl, rfl, hs ▸ hrow⟩
  have hgot : GotThrough "editor" compactSize servedPending servedJob servedReceipt :=
    ⟨by decide, rfl, rfl, servedLease, rfl, by decide +kernel, rfl⟩
  refine lost_answer_is_recovered served_pending List.mem_cons_self rfl rfl hgot true (fun _ => quiet false none 6) fun n => ?_
  rw [List.map_const', List.length_range]
  have hstate : servedPending = ⟨⟨[servedJob], []⟩, publishedWiki, servedPending.log⟩ := rfl
  rw [hstate]
  have hreview : servedJob.review = some servedReview := rfl
  have hcall : (wikiServer "editor" compactSize).call "a" (.finish (finishPayload servedLease servedJob.review))
      (quiet false none 6).network publishedWiki = (some (some [("revision", .int 0)]), publishedWiki) := by
    rw [hreview]
    exact served_again
  have hpublish := fun n => @meets_publish _ _ (wikiServer "editor" compactSize) (Undisturbed "editor" "a")
    (quiet false none 6) publishedWiki "a" servedJob servedLease _ 0 ⟨[servedJob], []⟩ _ hok rfl rfl hcall rfl rfl rfl n
  rcases n with _ | _ | n
  · trivial
  · exact meets_cmd (hok _ _ rfl) rfl trivial
  · exact meets_cmd (hok _ _ rfl) rfl (meets_cmd (hok _ _ rfl) rfl (hpublish n _))

end

end Loca.Runner
