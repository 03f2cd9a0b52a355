/-
# `Loca.Runner.Publish` — a validated review at the server

What the coordinator lets through and what the server takes are checked by two programs.  This module puts them
together: the batch and the wiki as the server prints them, `validateReview` on the one side, and `finishRoute`, the
route with its body limit, its reader and the store's `finishWikiReview`, on the other.

Whatever the coordinator lets through, the store publishes (`publishable_of_validated`).  The route does not always
let it reach the store: a review may hold 32 pages of 32 KiB, and the body of a request at most 64 KiB.  What a request
holds is what the shell client makes of it (`size`): its `jq` writes the body anew.
-/
import Loca.Runner.Coordinator
import Loca.Wiki.Accepted

namespace Loca.Runner

open Check Table

/-! ## What the server prints -/

def senderTypeJson : SenderType → Json
  | .agent => .str "agent"
  | .user => .str "user"

def attachmentDict (a : Attachment) : Dict :=
  [("id", .str a.id), ("sha256", .str a.sha256), ("name", .str a.name), ("mime", .str a.mime), ("size", .int a.size)]

/-- A field that is left out when there is nothing in it. -/
def optional (key : String) : Option Json → Dict
  | none => []
  | some v => [(key, v)]

def messageDict (m : Message) : Dict :=
  [("id", .int m.id), ("room", .str m.room), ("sender", .str m.sender), ("sender_type", senderTypeJson m.senderType)] ++
    optional "target" (m.target.map .str) ++ [("text", .str m.text)] ++
    optional "kind" (if m.kind = .say then none else some (.str "announce")) ++
    optional "reply_to" (m.replyTo.map fun n : Nat => .int n) ++ optional "reply_to_sender" (m.replyToSender.map .str) ++
    [("ts", .int m.ts)] ++
    optional "attachments"
      (if m.attachments = [] then none else some (.arr (m.attachments.map fun a => .obj (attachmentDict a))))

def leaseDict (l : WikiLease) : Dict := [("batch_id", .int l.batchId), ("epoch", .int l.epoch)]

def batchDict (b : WikiBatch) : Dict :=
  [("lease", .obj (leaseDict b.lease)), ("room", .str b.room), ("after_id", .int b.afterId),
    ("through_id", .int b.throughId), ("reason", .str b.reason), ("lease_expires_at", .int b.leaseExpiresAt),
    ("attempts", .int b.attempts), ("messages", .arr (b.messages.map fun m => .obj (messageDict m)))]

def pageDict (p : WikiPage) : Dict :=
  [("slug", .str p.slug), ("title", .str p.title), ("body", .str p.body),
    ("sources", .arr (p.sources.map fun n : Nat => .int n)), ("revision", .int p.revision)]

def nullable (v : Option Json) : Json := v.getD .null

def snapshotDict (s : WikiSnapshot) : Dict :=
  [("room", .str s.room), ("editor_principal", .str s.editorPrincipal), ("editor_name", nullable (s.editorName.map .str)),
    ("enabled", .bool s.enabled), ("interval_messages", .int s.intervalMessages), ("revision", .int s.revision),
    ("reviewed_through", .int s.reviewedThrough), ("reviewed_at", nullable (s.reviewedAt.map fun n : Nat => .int n)),
    ("edited_at", nullable (s.editedAt.map fun n : Nat => .int n)),
    ("pages", .arr (s.pages.map fun p => .obj (pageDict p)))]

/-- A batch as the coordinator holds it: the runner adds the requests for context. -/
def heldBatch (b : WikiBatch) : Option Json → Dict
  | none => batchDict b
  | some requests => Json.setField "context_requests" requests (batchDict b)

/-! ## What the route takes -/

def maxHttpBodyBytes : Nat := 64 * 1024

/-- An unsigned number in a body. -/
def unsigned : Json → Option Nat
  | .int n => if 0 ≤ n then some n.toNat else none
  | _ => none

def unsignedField (key : String) (d : Dict) : Option Nat := (Json.field key d).bind unsigned

/-- A page of a review; `revision` may be left out. -/
def pageOfJson (v : Json) : Option WikiPage := do
  let d ← asDict v
  let slug ← text "slug" d
  let title ← text "title" d
  let body ← text "body" d
  let sources ← (← list "sources" d).mapM unsigned
  let revision ← match Json.field "revision" d with
    | none => some 0
    | some v => unsigned v
  pure { slug, title, body, sources, revision }

def commitOfJson (v : Json) : Option WikiCommit := do
  let d ← asDict v
  let expectedRevision ← unsignedField "expected_revision" d
  let reviewedThrough ← unsignedField "reviewed_through" d
  let reason ← text "reason" d
  let pages ← (← list "pages" d).mapM pageOfJson
  pure { expectedRevision, reviewedThrough, reason, pages }

def leaseOfJson (v : Json) : Option WikiLease := do
  let d ← asDict v
  let batchId ← unsignedField "batch_id" d
  let epoch ← unsignedField "epoch" d
  pure { batchId, epoch }

structure WikiBatchCommit where
  lease : WikiLease
  review : WikiCommit
  deriving DecidableEq, Repr

def batchCommitOfJson (v : Json) : Option WikiBatchCommit := do
  let d ← asDict v
  let lease ← leaseOfJson (← Json.field "lease" d)
  let review ← commitOfJson (← Json.field "review" d)
  pure { lease, review }

inductive RouteError
  | tooLarge
  | malformed
  | readOnly
  | unauthorized
  | wiki (e : WikiError)
  deriving DecidableEq, Repr

/-- `POST /rooms/:id/wiki/maintenance/finish`: `body` is what arrived, `size` its length in bytes, `writable` whether
the room is, `session` the principal of the session.  The body is read before the handler starts. -/
def finishRoute (size : Nat) (body : Json) (room : String) (writable : Bool) (session : Option String) (now : Nat)
    (s : WikiState) : Except RouteError Nat × WikiState :=
  if maxHttpBodyBytes < size then (.error .tooLarge, s)
  else
    match batchCommitOfJson body with
    | none => (.error .malformed, s)
    | some commit =>
        if writable then
          match session with
          | none => (.error .unauthorized, s)
          | some principal =>
              match wikiStep s (.call false (.finish room principal commit.review commit.lease now)) with
              | (.ok (.revision n), s') => (.ok n, s')
              | (.ok _, s') => (.error (.wiki .storage), s')
              | (.error e, s') => (.error (.wiki e), s')
        else (.error .readOnly, s)

/-- What the runner gives the transport for a review. -/
def finishBody (lease : WikiLease) (draft : DraftReview) : Json :=
  .obj [("lease", .obj (leaseDict lease)), ("review", draft.toJson)]

/-! ## What is read is what was drafted -/

def DraftPage.toPage (p : DraftPage) : WikiPage :=
  { slug := p.slug, title := p.title, body := p.body, sources := p.sources.map Int.toNat, revision := 0 }

/-- The review that the store is asked to publish. -/
def DraftReview.toCommit (d : DraftReview) : WikiCommit :=
  { expectedRevision := d.expectedRevision.toNat, reviewedThrough := d.reviewedThrough.toNat, reason := d.reason,
    pages := d.pages.map DraftPage.toPage }

theorem mapM_map_some {α β γ : Type} {f : β → Option γ} {g : α → β} {k : α → γ} {l : List α}
    (h : ∀ x ∈ l, f (g x) = some (k x)) : (l.map g).mapM f = some (l.map k) := by
  induction l with
  | nil => rfl
  | cons x l ih =>
      rw [List.map_cons, List.mapM_cons, h x List.mem_cons_self, ih fun y hy => h y (List.mem_cons_of_mem x hy)]
      rfl

theorem unsigned_int {n : Int} (h : 0 ≤ n) : unsigned (.int n) = some n.toNat := if_pos h

theorem pageOfJson_draft {p : DraftPage} (h : ∀ n ∈ p.sources, 0 ≤ n) : pageOfJson p.toJson = some p.toPage := by
  have hsources : (p.sources.map Json.int).mapM unsigned = some (p.sources.map Int.toNat) :=
    mapM_map_some fun n hn => unsigned_int (h n hn)
  have hlist : list "sources" [("slug", .str p.slug), ("title", .str p.title), ("body", .str p.body),
      ("sources", .arr (p.sources.map .int))] = some (p.sources.map .int) := rfl
  unfold pageOfJson DraftPage.toJson
  simp only [asDict, Option.bind_eq_bind, Option.bind_some, hlist, hsources]
  rfl

/-- What the coordinator drafted is what the route reads, with the lease that was taken. -/
theorem batchCommitOfJson_finishBody {lease : WikiLease} {d : DraftReview} (hrev : 0 ≤ d.expectedRevision)
    (hthrough : 0 ≤ d.reviewedThrough) (hpages : ∀ p ∈ d.pages, ∀ n ∈ p.sources, 0 ≤ n) :
    batchCommitOfJson (finishBody lease d) = some ⟨lease, d.toCommit⟩ := by
  have hmap : (d.pages.map DraftPage.toJson).mapM pageOfJson = some (d.pages.map DraftPage.toPage) :=
    mapM_map_some fun p hp => pageOfJson_draft (hpages p hp)
  have hlease : leaseOfJson (.obj (leaseDict lease)) = some lease := rfl
  have hcommit : commitOfJson d.toJson = some d.toCommit := by
    unfold commitOfJson DraftReview.toJson
    generalize (d.routes.map fun rs => ("routes", Json.arr (rs.map DraftRoute.toJson))).toList = routes
    have hfields : unsignedField "expected_revision" ([("expected_revision", Json.int d.expectedRevision),
          ("reviewed_through", .int d.reviewedThrough), ("reason", .str d.reason),
          ("pages", .arr (d.pages.map DraftPage.toJson))] ++ routes) = some d.expectedRevision.toNat ∧
        unsignedField "reviewed_through" ([("expected_revision", Json.int d.expectedRevision),
          ("reviewed_through", .int d.reviewedThrough), ("reason", .str d.reason),
          ("pages", .arr (d.pages.map DraftPage.toJson))] ++ routes) = some d.reviewedThrough.toNat :=
      ⟨unsigned_int hrev, unsigned_int hthrough⟩
    have hlist : list "pages" ([("expected_revision", Json.int d.expectedRevision),
          ("reviewed_through", .int d.reviewedThrough), ("reason", .str d.reason),
          ("pages", .arr (d.pages.map DraftPage.toJson))] ++ routes) = some (d.pages.map DraftPage.toJson) := rfl
    simp only [asDict, Option.bind_eq_bind, Option.bind_some, hfields.1, hfields.2, hlist, hmap]
    rfl
  have hfields : Json.field "lease" [("lease", .obj (leaseDict lease)), ("review", d.toJson)] =
        some (.obj (leaseDict lease)) ∧
      Json.field "review" [("lease", .obj (leaseDict lease)), ("review", d.toJson)] = some d.toJson := ⟨rfl, rfl⟩
  unfold batchCommitOfJson finishBody
  simp only [asDict, Option.bind_eq_bind, Option.bind_some, hfields.1, hfields.2, hlease, hcommit]
  rfl

/-! ## What the coordinator let through -/

/-- A drafted page, with sources among `available`. -/
structure Drafted (available : List Int) (p : DraftPage) : Prop where
  slugNonempty : p.slug ≠ ""
  slugLength : p.slug.length ≤ 80
  letters : p.slug.toList.all slugChars.contains = true
  title : isBlank p.title = false ∧ p.title.utf8ByteSize ≤ 256
  body : p.body.utf8ByteSize ≤ 32768
  sources : p.sources.length ≤ 256 ∧ ∀ id ∈ p.sources, id ∈ available

theorem length_of_mapM {α β : Type} {f : α → Option β} {xs : List α} {ys : List β} (h : xs.mapM f = some ys) :
    ys.length = xs.length := (forall₂_of_mapM h).length_eq.symm

theorem checkPage_ok {available : List Int} {slugs : List String} {page : Json} {p : DraftPage}
    (h : checkPage available slugs page = .ok p) : Drafted available p ∧ p.slug ∉ slugs := by
  simp only [checkPage, bind_ok, require_ok, found_ok, pure_ok, exists_const] at h
  obtain ⟨d, -, slug, -, ⟨hne, hlen, hchars, hnew⟩, title, -, htitle, body, -, hbody, sources, -, ⟨hcount, -⟩, ids, hids,
    hall, rfl⟩ := h
  exact ⟨⟨hne, hlen, hchars, htitle, hbody, length_of_mapM hids ▸ hcount, hall⟩, hnew⟩

theorem checkPages_ok {available : List Int} {pages : List Json} : ∀ {slugs : List String} {ps : List DraftPage},
    checkPages available slugs pages = .ok ps →
      ps.length = pages.length ∧ (ps.map DraftPage.slug).Nodup ∧ (∀ p ∈ ps, p.slug ∉ slugs) ∧
        ∀ p ∈ ps, Drafted available p := by
  induction pages with
  | nil =>
      intro slugs ps h
      cases h
      simp
  | cons page pages ih =>
      intro slugs ps h
      simp only [checkPages, bind_ok, pure_ok] at h
      obtain ⟨p, hp, rest, hrest, rfl⟩ := h
      obtain ⟨hdrafted, hnew⟩ := checkPage_ok hp
      obtain ⟨hlen, hnodup, hfresh, hall⟩ := ih hrest
      refine ⟨by simp [hlen], ?_, ?_, ?_⟩
      · rw [List.map_cons, List.nodup_cons]
        refine ⟨fun hm => ?_, hnodup⟩
        obtain ⟨q, hq, he⟩ := List.mem_map.mp hm
        exact hfresh q hq (he ▸ List.mem_cons_self)
      · intro q hq
        rcases List.mem_cons.mp hq with rfl | hq
        · exact hnew
        · exact fun hm => hfresh q hq (List.mem_cons_of_mem _ hm)
      · intro q hq
        rcases List.mem_cons.mp hq with rfl | hq
        · exact hdrafted
        · exact hall q hq

/-- What a draft keeps to. -/
structure Validated (revision through : Int) (available : List Int) (d : DraftReview) : Prop where
  expected : d.expectedRevision = revision
  through : d.reviewedThrough = through
  reason : isBlank d.reason = false ∧ d.reason.utf8ByteSize ≤ 4096
  few : d.pages.length ≤ 32
  slugs : (d.pages.map DraftPage.slug).Nodup
  pages : ∀ p ∈ d.pages, Drafted available p

theorem validateReview_ok {review : Json} {batch snapshot : Dict} {d : DraftReview}
    (h : validateReview review batch snapshot = .ok d) :
    ∃ revision through messages wikiPages available, number "revision" snapshot = some revision ∧
      number "through_id" batch = some through ∧ records "messages" batch = some messages ∧
      records "pages" snapshot = some wikiPages ∧ availableSources messages wikiPages = some available ∧
      Validated revision through available d := by
  simp only [validateReview, bind_ok, require_ok, found_ok, exists_const] at h
  obtain ⟨revision, hrevision, through, hthrough, messages, hmessages, wikiPages, hwiki, available, havailable, r, -, -,
    reason, -, hreason, drafted, -, hfew, pages, hpages, h⟩ := h
  obtain ⟨hlen, hnodup, -, hall⟩ := checkPages_ok hpages
  refine ⟨revision, through, messages, wikiPages, available, hrevision, hthrough, hmessages, hwiki, havailable, ?_⟩
  cases hroutes : Json.field "routes" r with
  | none =>
      rw [hroutes] at h
      obtain rfl := pure_ok.mp h
      exact ⟨rfl, rfl, hreason, hlen ▸ hfew, hnodup, hall⟩
  | some routes =>
      rw [hroutes] at h
      simp only [bind_ok, require_ok, found_ok, pure_ok, exists_const] at h
      obtain ⟨items, -, -, rs, -, rfl⟩ := h
      exact ⟨rfl, rfl, hreason, hlen ▸ hfew, hnodup, hall⟩

/-! ## The two validators -/

/-- What is blank to the server is blank to the coordinator. -/
theorem isBlank_of_blank {s : String} (h : Text.isBlank s = true) : isBlank s = true := by
  unfold isBlank Text.isBlank at *
  rw [List.all_eq_true] at h ⊢
  intro c hc
  rw [h c hc, Bool.true_or]

theorem blank_of_isBlank {s : String} (h : isBlank s = false) : Text.isBlank s = false := by
  cases hb : Text.isBlank s with
  | false => rfl
  | true => rw [isBlank_of_blank hb] at h; cases h

theorem slugChars_ascii : slugChars.all (fun c => decide (c.utf8Size = 1) &&
    (('a' ≤ c && c ≤ 'z') || ('0' ≤ c && c ≤ '9') || c = '-')) = true := by decide

theorem bytes_of_ascii {cs : List Char} (h : ∀ c ∈ cs, c.utf8Size = 1) : Json.bytes cs = cs.length := by
  induction cs with
  | nil => rfl
  | cons c cs ih =>
      rw [Json.bytes_cons, h c List.mem_cons_self, ih fun d hd => h d (List.mem_cons_of_mem c hd), List.length_cons,
        Nat.add_comm]

/-- A drafted page is a page to the store. -/
theorem Drafted.valid {available : List Int} {p : DraftPage} (h : Drafted available p) : validPage p.toPage = true := by
  have hchars : ∀ c ∈ p.slug.toList, c.utf8Size = 1 ∧
      (('a' ≤ c && c ≤ 'z') || ('0' ≤ c && c ≤ '9') || c = '-') = true := by
    intro c hc
    have hin : c ∈ slugChars := by simpa using List.all_eq_true.mp h.letters c hc
    simpa using List.all_eq_true.mp slugChars_ascii c hin
  have hbytes : Text.byteLen p.slug ≤ 80 := by
    have hlen := bytes_of_ascii fun c hc => (hchars c hc).1
    rw [Json.bytes_toList] at hlen
    show p.slug.utf8ByteSize ≤ 80
    rw [hlen]
    exact h.slugLength
  have hslug : validSlug p.slug = true := by
    unfold validSlug
    have hall := List.all_eq_true.mpr fun c hc => (hchars c hc).2
    simp [h.slugNonempty, hbytes, hall]
  have htitle := blank_of_isBlank h.title.1
  have hsize : Text.byteLen p.title ≤ 256 := h.title.2
  have hbody : Text.byteLen p.body ≤ pageMaxBytes := h.body
  unfold validPage DraftPage.toPage
  simp [hslug, htitle, hsize, hbody, h.sources.1]

/-! ## The batch and the wiki, as the coordinator reads them -/

theorem records_of_list {key : String} {d : Dict} {α : Type} {f : α → Dict} {xs : List α}
    (h : list key d = some (xs.map fun x => .obj (f x))) : records key d = some (xs.map f) := by
  unfold records
  rw [h, Option.bind_some]
  exact mapM_map_some fun _ _ => rfl

theorem heldBatch_through (b : WikiBatch) (requests : Option Json) :
    number "through_id" (heldBatch b requests) = some (b.throughId : Int) := by
  cases requests <;> rfl

theorem heldBatch_messages (b : WikiBatch) (requests : Option Json) :
    records "messages" (heldBatch b requests) = some (b.messages.map messageDict) := by
  refine records_of_list ?_
  cases requests <;> rfl

/-- The sources that a batch and a wiki make available. -/
theorem available_of {b : WikiBatch} {snap : WikiSnapshot} :
    availableSources (b.messages.map messageDict) (snap.pages.map pageDict) =
      some (b.messages.map (fun m => (m.id : Int)) ++ (snap.pages.map fun p => p.sources.map fun n : Nat => (n : Int)).flatten) := by
  have hids : (b.messages.map messageDict).mapM (number "id") = some (b.messages.map fun m => (m.id : Int)) :=
    mapM_map_some fun _ _ => rfl
  have hpages : (snap.pages.map pageDict).mapM (fun p => (list "sources" p).bind fun items => items.mapM asNumber) =
      some (snap.pages.map fun p => p.sources.map fun n : Nat => (n : Int)) :=
    mapM_map_some fun p _ => by
      show ((p.sources.map fun n : Nat => Json.int n).mapM asNumber) = _
      exact mapM_map_some fun _ _ => rfl
  simp only [availableSources, hids, hpages, Option.bind_eq_bind, Option.bind_some]
  rfl

/-- A validated review of a printed batch and wiki. -/
theorem validated_of_printed {b : WikiBatch} {snap : WikiSnapshot} {requests : Option Json} {review : Json}
    {d : DraftReview} (h : validateReview review (heldBatch b requests) (snapshotDict snap) = .ok d) :
    Validated snap.revision b.throughId
      (b.messages.map (fun m => (m.id : Int)) ++ (snap.pages.map fun p => p.sources.map fun n : Nat => (n : Int)).flatten) d := by
  obtain ⟨revision, through, messages, wikiPages, available, hrevision, hthrough, hmessages, hwiki, havailable, hv⟩ :=
    validateReview_ok h
  have hpages : records "pages" (snapshotDict snap) = some (snap.pages.map pageDict) := records_of_list rfl
  rw [heldBatch_through] at hthrough
  rw [heldBatch_messages] at hmessages
  rw [hpages] at hwiki
  obtain rfl := Option.some.inj hmessages
  obtain rfl := Option.some.inj hwiki
  rw [available_of] at havailable
  rw [← Option.some.inj havailable, ← Option.some.inj hthrough] at hv
  have hrev : (snap.revision : Int) = revision := Option.some.inj hrevision
  rwa [← hrev] at hv

/-! ## A validated review at the store -/

section

variable {room principal : String} {tr : WikiTrace} {s : WikiState} {wb : WikiBatch} {snap : WikiSnapshot}
  {principals : List PrincipalRow} {requests : Option Json} {review : Json} {d : DraftReview} {now : Nat}

/-- Does the wiki keep its revision, or is there a next one? -/
def RevisionFree (snap : WikiSnapshot) (d : DraftReview) : Prop :=
  (∀ p ∈ d.pages, storedAs snap.pages p.toPage = true) ∨ snap.revision + 1 < 2 ^ 64

instance (snap : WikiSnapshot) (d : DraftReview) : Decidable (RevisionFree snap d) :=
  inferInstanceAs (Decidable (_ ∨ _))

theorem wikiSnapshot_ok (h : wikiSnapshot principals s.tables room = .ok snap) :
    ∃ w, s.tables.row room = some w ∧ snap.revision = w.revision ∧ snap.reviewedThrough = w.reviewedThrough ∧
      snap.pages = pages s.tables room := by
  simp only [wikiSnapshot, bind_ok, found_ok, pure_ok] at h
  obtain ⟨w, hw, rfl⟩ := h
  exact ⟨w, hw, rfl, rfl, rfl⟩

/-- Every source of a draft is a message of the room, and the review goes past it. -/
theorem sources_of_validated (r : Sys.Run wikiMachine (AssignedInOrder room) tr s) (hlist : Listed room wb s)
    (hsnap : snap.pages = pages s.tables room) {w : WikiRow} (hw : s.tables.row room = some w)
    (hle : w.reviewedThrough ≤ wb.throughId) {id : Int}
    (hid : id ∈ wb.messages.map (fun m => (m.id : Int)) ++
      (snap.pages.map fun p => p.sources.map fun n : Nat => (n : Int)).flatten) :
    ∃ n : Nat, id = n ∧ n ≤ wb.throughId ∧ messageExists s.messages room n = true := by
  have hk := (run_wellKept r).1
  rcases List.mem_append.mp hid with hid | hid
  · obtain ⟨m, hm, rfl⟩ := List.mem_map.mp hid
    obtain ⟨b, -, -, -, -, -, hmessages⟩ := hlist
    rw [hmessages] at hm
    obtain ⟨x, hx, rfl⟩ := List.mem_map.mp hm
    obtain ⟨hxm, hxr, -, hxle, -⟩ := mem_eligibleWindow.mp hx
    exact ⟨x.id, rfl, hxle, List.any_eq_true.mpr ⟨x, hxm, by simp [hxr]⟩⟩
  · obtain ⟨l, hl, hid⟩ := List.mem_flatten.mp hid
    obtain ⟨p, hp, rfl⟩ := List.mem_map.mp hl
    obtain ⟨n, hn, rfl⟩ := List.mem_map.mp hid
    rw [hsnap, pages] at hp
    obtain ⟨row, hrow, rfl⟩ := List.mem_map.mp hp
    rw [mem_orderBy, List.mem_filter] at hrow
    have hroom : row.room = room := by simpa using hrow.2
    obtain ⟨hexists, w', hw', hwr, hnle⟩ := hk.sources row hrow.1 n hn
    have hsame : w' = w := eq_of_key hk.wikiKey hw' (WikiTables.row_some hw).1
      (by rw [hwr, hroom, (WikiTables.row_some hw).2])
    rw [hsame] at hnle
    exact ⟨n, rfl, hnle.trans hle, hroom ▸ hexists⟩

/-- To the store, a validated review lacks nothing but a free revision. -/
theorem publishable_of_validated (r : Sys.Run wikiMachine (AssignedInOrder room) tr s) {p : String} {at₀ : Nat}
    (hclaim : (WikiInput.call false (.claim room p at₀), Except.ok (WikiAnswer.claimed (some wb))) ∈ tr)
    (hsnap : wikiSnapshot principals s.tables room = .ok snap)
    (hvalid : leaseValid s.tables room principal wb.lease now = true)
    (hreview : validateReview review (heldBatch wb requests) (snapshotDict snap) = .ok d) :
    ∃ b w, s.tables.batch wb.lease.batchId = some b ∧ s.tables.row room = some w ∧
      (Publishable s.messages s.tables w b d.toCommit ↔ RevisionFree snap d) ∧
      batchCommitOfJson (finishBody wb.lease d) = some ⟨wb.lease, d.toCommit⟩ := by
  have hf := run_fenced r
  have hcov := run_covered r
  obtain ⟨b, w, hb, hroom, -, hrun, hw, -, -⟩ := leaseValid_row hf hvalid
  obtain ⟨w', hw', hrev, -, hpages⟩ := wikiSnapshot_ok hsnap
  obtain rfl := Option.some.inj (hw.symm.trans hw')
  obtain ⟨hbm, hbid⟩ := WikiTables.batch_some hb
  have hlist := run_listed r p at₀ wb hclaim
  obtain ⟨b', hb', hbid', hbroom', hafter', hthrough', -⟩ := hlist
  obtain rfl := hf.eq_of_id hbm hb' (hbid.trans hbid'.symm)
  have hv := validated_of_printed hreview
  have hle : w.reviewedThrough ≤ wb.throughId := by
    have hcursor := hcov.after b hbm hroom (by rw [hrun]; rfl)
    rw [cursor_of_row hw] at hcursor
    obtain ⟨x, hx, hxid⟩ := Option.map_eq_some_iff.mp (hcov.window b hbm hroom).2
    obtain ⟨-, -, hgt, -⟩ := mem_eligibleWindow.mp (List.mem_of_getLast? hx)
    omega
  have hsources := fun id => @sources_of_validated _ _ _ _ _ r (run_listed r p at₀ wb hclaim) hpages _ hw hle id
  refine ⟨b, w, hb, hw, ⟨fun h => ?_, fun hfree => ?_⟩, ?_⟩
  · rcases h.room with hall | hlt
    · left
      intro q hq
      rw [hpages, ← hroom]
      exact hall q.toPage (List.mem_map_of_mem hq)
    · exact .inr (hrev ▸ hlt)
  · refine ⟨?_, ?_, ?_, ?_, ?_, ?_, ?_, ?_⟩
    · exact (List.length_map _).trans_le hv.few
    · have hblank := blank_of_isBlank hv.reason.1
      have hsize : Text.byteLen d.reason ≤ 4096 := hv.reason.2
      unfold validReason DraftReview.toCommit
      simp [hblank, hsize]
    · unfold DraftReview.toCommit
      rw [hv.expected, hrev, Int.toNat_natCast]
    · unfold DraftReview.toCommit
      rw [hv.through, hthrough', Int.toNat_natCast]
    · have hmap : d.toCommit.pages.map WikiPage.slug = d.pages.map DraftPage.slug := List.map_map
      rw [hmap]
      exact hv.slugs
    · intro q hq
      obtain ⟨x, hx, rfl⟩ := List.mem_map.mp hq
      exact (hv.pages x hx).valid
    · intro q hq src hsrc
      obtain ⟨x, hx, rfl⟩ := List.mem_map.mp hq
      obtain ⟨id, hid, rfl⟩ := List.mem_map.mp hsrc
      obtain ⟨n, rfl, hn, hexists⟩ := hsources id ((hv.pages x hx).sources.2 id hid)
      rw [Int.toNat_natCast, hthrough', hroom]
      exact ⟨hn, hexists⟩
    · rcases hfree with hall | hlt
      · left
        intro q hq
        obtain ⟨x, hx, rfl⟩ := List.mem_map.mp hq
        rw [hroom, ← hpages]
        exact hall x hx
      · exact .inr (hrev ▸ hlt)
  · refine batchCommitOfJson_finishBody ?_ ?_ fun q hq id hid => ?_
    · rw [hv.expected]
      exact Int.natCast_nonneg _
    · rw [hv.through]
      exact Int.natCast_nonneg _
    · obtain ⟨n, rfl, -⟩ := hsources id ((hv.pages q hq).sources.2 id hid)
      exact Int.natCast_nonneg _

/-- A review that the coordinator let through is published, by the holder of the lease and while nothing else has changed
the wiki, exactly when its request keeps to the limit of a body and the wiki has a revision left for it. -/
theorem validated_review_is_published (r : Sys.Run wikiMachine (AssignedInOrder room) tr s) {p : String} {at₀ : Nat}
    (hclaim : (WikiInput.call false (.claim room p at₀), Except.ok (WikiAnswer.claimed (some wb))) ∈ tr)
    (hsnap : wikiSnapshot principals s.tables room = .ok snap)
    (hvalid : leaseValid s.tables room principal wb.lease now = true)
    (hreview : validateReview review (heldBatch wb requests) (snapshotDict snap) = .ok d) (size : Json → Nat) :
    (∃ n, (finishRoute (size (finishBody wb.lease d)) (finishBody wb.lease d) room true (some principal) now s).1 = .ok n) ↔
      size (finishBody wb.lease d) ≤ 65536 ∧ RevisionFree snap d := by
  obtain ⟨b, w, hb, hw, hpublishable, hbody⟩ := publishable_of_validated r hclaim hsnap hvalid hreview
  have hf := run_fenced r
  unfold finishRoute
  by_cases hsize : maxHttpBodyBytes < size (finishBody wb.lease d)
  · rw [if_pos hsize]
    refine iff_of_false (by rintro ⟨_, h⟩; cases h) fun h => ?_
    exact absurd h.1 (Nat.not_le.mpr hsize)
  · have hle : size (finishBody wb.lease d) ≤ 65536 := Nat.not_lt.mp hsize
    rw [if_neg hsize, hbody, ← hpublishable, and_iff_right hle]
    cases hrun : finishWikiReview s.messages room principal d.toCommit wb.lease now s.tables with
    | error e =>
        have hstep : wikiStep s (.call false (.finish room principal d.toCommit wb.lease now)) = (.error e, s) := by
          simp [wikiStep, atomically, WikiCall.run, hrun]
        simp only [hstep, if_true]
        refine iff_of_false (by rintro ⟨_, h⟩; cases h) fun h => ?_
        obtain ⟨n, t, hok⟩ := finish_of_publishable (run_covered r) hf (run_wellKept r).1 (run_revisionsFit r) hvalid hb hw h
        rw [hrun] at hok
        cases hok
    | ok x =>
        have hstep : (wikiStep s (.call false (.finish room principal d.toCommit wb.lease now))).1 = .ok (.revision x.1) := by
          simp [wikiStep, atomically, WikiCall.run, hrun, answer, Except.map]
        refine iff_of_true ⟨x.1, ?_⟩ (publishable_of_finish hf hvalid hb hw (n := x.1) (t := x.2) hrun)
        rcases hres : wikiStep s (.call false (.finish room principal d.toCommit wb.lease now)) with ⟨o, s'⟩
        rw [hres] at hstep
        obtain rfl : o = .ok (.revision x.1) := hstep
        simp only [hres, if_true]

end

/-! A room with one message, its batch, and a review of three pages with one body. -/

def claimedBatch : WikiBatch :=
  { lease := ⟨1, 1⟩, room := "a", afterId := 0, throughId := 1, reason := "message_threshold", leaseExpiresAt := 300003,
    attempts := 1, messages := [⟨1, "a", "ann", .user, none, "hello", .say, none, none, 1, []⟩] }

def claimedWiki : WikiSnapshot :=
  { room := "a", editorPrincipal := "editor", editorName := none, enabled := true, intervalMessages := 1, revision := 0,
    reviewedThrough := 0, reviewedAt := none, editedAt := none,
    pages := [⟨"overview", "Overview", "", [], 0⟩, ⟨"working", "Working area", "", [], 0⟩] }

theorem claimed_batch : (WikiInput.call false (.claim "a" "editor" 3), Except.ok (WikiAnswer.claimed (some claimedBatch))) ∈
    claimedRun.1 := by decide

theorem claimed_wiki : wikiSnapshot [] claimedRun.2.tables "a" = .ok claimedWiki := by decide

theorem claimed_lease : leaseValid claimedRun.2.tables "a" "editor" claimedBatch.lease 5 = true := by decide

def draftedPage (slug body : String) : DraftPage := ⟨slug, "Notes", body, [1]⟩

def drafted (body : String) : DraftReview :=
  ⟨0, 1, "notes", [draftedPage "x" body, draftedPage "y" body, draftedPage "z" body], none⟩

theorem checkPage_drafted {slugs : List String} {slug body : String}
    (hslug : slug ≠ "" ∧ slug.length ≤ 80 ∧ slug.toList.all slugChars.contains = true ∧ slug ∉ slugs)
    (hbody : body.utf8ByteSize ≤ 32768) :
    checkPage [1] slugs (draftedPage slug body).toJson = .ok (draftedPage slug body) := by
  have hfields : asDict (draftedPage slug body).toJson = some [("slug", .str slug), ("title", .str "Notes"),
      ("body", .str body), ("sources", .arr [.int 1])] := rfl
  have hvalues : ∀ d : Dict, d = [("slug", .str slug), ("title", .str "Notes"), ("body", .str body),
      ("sources", .arr [.int 1])] → text "slug" d = some slug ∧ text "title" d = some "Notes" ∧
        text "body" d = some body ∧ list "sources" d = some [.int 1] := by
    rintro d rfl
    exact ⟨rfl, rfl, rfl, rfl⟩
  obtain ⟨h₁, h₂, h₃, h₄⟩ := hvalues _ rfl
  have htitle : isBlank "Notes" = false ∧ "Notes".utf8ByteSize ≤ 256 := by decide
  have hsources : [Json.int 1].length ≤ 256 ∧ ¬(isBlank body = false ∧ [Json.int 1] = []) := ⟨by decide, fun h => nomatch h.2⟩
  have hids : [Json.int 1].mapM asNumber = some [1] := rfl
  have hall : ∀ id ∈ [(1 : Int)], id ∈ [(1 : Int)] := fun _ h => h
  unfold checkPage
  simp only [hfields, h₁, h₂, h₃, h₄, hids, found_some, ok_bind, require, if_pos hslug, if_pos htitle, if_pos hbody,
    if_pos hsources, if_pos hall]
  rfl

theorem checkPages_drafted {body : String} (hbody : body.utf8ByteSize ≤ 32768) :
    checkPages [1] [] ((drafted body).pages.map DraftPage.toJson) = .ok (drafted body).pages := by
  have hx := @checkPage_drafted [] "x" body (by decide) hbody
  have hy := @checkPage_drafted [(draftedPage "x" body).slug] "y" body (by
    show _ ∧ _ ∧ _ ∧ "y" ∉ ["x"]
    decide) hbody
  have hz := @checkPage_drafted [(draftedPage "y" body).slug, (draftedPage "x" body).slug] "z" body (by
    show _ ∧ _ ∧ _ ∧ "z" ∉ ["y", "x"]
    decide) hbody
  unfold drafted
  simp only [List.map_cons, List.map_nil, checkPages, hx, hy, hz, ok_bind]
  rfl

theorem drafted_validated {body : String} (hbody : body.utf8ByteSize ≤ 32768) :
    validateReview (drafted body).toJson (heldBatch claimedBatch none) (snapshotDict claimedWiki) = .ok (drafted body) := by
  have hpages := checkPages_drafted hbody
  have hsnap : number "revision" (snapshotDict claimedWiki) = some 0 ∧
      records "pages" (snapshotDict claimedWiki) = some (claimedWiki.pages.map pageDict) := ⟨rfl, records_of_list rfl⟩
  have havailable : availableSources (claimedBatch.messages.map messageDict) (claimedWiki.pages.map pageDict) = some [1] := by
    rw [available_of]
    rfl
  obtain ⟨r, hr, hexpected, hthrough, hreason, hlist, hroutes⟩ : ∃ r, asDict (drafted body).toJson = some r ∧
      number "expected_revision" r = some 0 ∧ number "reviewed_through" r = some 1 ∧ text "reason" r = some "notes" ∧
      list "pages" r = some ((drafted body).pages.map DraftPage.toJson) ∧ Json.field "routes" r = none :=
    ⟨_, rfl, rfl, rfl, rfl, rfl, rfl⟩
  have hfirst : number "expected_revision" r = some 0 ∧
      number "reviewed_through" r = some ((claimedBatch.throughId : Nat) : Int) := ⟨hexpected, hthrough⟩
  have hnotes : isBlank "notes" = false ∧ "notes".utf8ByteSize ≤ 4096 := by decide
  have hfew : ((drafted body).pages.map DraftPage.toJson).length ≤ 32 := by
    show 3 ≤ 32
    decide
  unfold validateReview
  simp only [hsnap.1, hsnap.2, heldBatch_through, heldBatch_messages, havailable, found_some, ok_bind, hr, require,
    if_pos hfirst, hreason, if_pos hnotes, hlist, if_pos hfew, hpages, hroutes]
  rfl

/-- The bytes of a body as `jq -c` writes it. -/
def compactSize (body : Json) : Nat := Json.bytes (Json.dumps ⟨false, false⟩ body)

theorem validated_review_is_published_sample :
    ∃ n, (finishRoute (compactSize (finishBody claimedBatch.lease (drafted "a"))) (finishBody claimedBatch.lease (drafted "a"))
      "a" true (some "editor") 5 claimedRun.2).1 = .ok n :=
  (validated_review_is_published claimedRun_run claimed_batch claimed_wiki claimed_lease
    (@drafted_validated "a" (by decide)) compactSize).mpr (by decide +kernel)

theorem letters (n : Nat) : ∃ body : String, body.utf8ByteSize ≤ n ∧ n ≤ Json.bytes (Json.quote ⟨false, false⟩ body) := by
  refine ⟨String.ofList (List.replicate n 'a'), ?_, ?_⟩
  · have hascii : ∀ c ∈ List.replicate n 'a', c.utf8Size = 1 := fun c hc => by
      rw [List.eq_of_mem_replicate hc]
      decide
    rw [← Json.bytes_toList, String.toList_ofList, bytes_of_ascii hascii, List.length_replicate]
  · have hchar : Json.bytes (Json.writeChar ⟨false, false⟩ 'a') = 1 := by decide
    rw [Json.bytes_quote_replicate, hchar]
    omega

/-- Three pages of 32 KiB: the coordinator lets them through, the route does not. -/
theorem long_review_is_refused :
    ¬ ∀ (room : String) (tr : WikiTrace) (s : WikiState), Sys.Run wikiMachine (AssignedInOrder room) tr s →
      ∀ p at₀ wb, (WikiInput.call false (.claim room p at₀), Except.ok (WikiAnswer.claimed (some wb))) ∈ tr →
      ∀ principals snap, wikiSnapshot principals s.tables room = .ok snap →
      ∀ principal now, leaseValid s.tables room principal wb.lease now = true →
      ∀ review d, validateReview review (heldBatch wb none) (snapshotDict snap) = .ok d →
      ∃ n, (finishRoute (compactSize (finishBody wb.lease d)) (finishBody wb.lease d) room true (some principal) now s).1 =
        .ok n := by
  intro hall
  obtain ⟨body, hbytes, hquote⟩ := letters 32768
  obtain ⟨n, hn⟩ := hall _ _ _ claimedRun_run _ _ _ claimed_batch _ _ claimed_wiki _ _ claimed_lease _ _
    (drafted_validated hbytes)
  have hsize : maxHttpBodyBytes < compactSize (finishBody claimedBatch.lease (drafted body)) := by
    show 65536 < _
    unfold compactSize finishBody DraftReview.toJson drafted
    simp only [Json.dumps, Json.dumpsFields, Json.dumpsItems, Json.joined, List.map_cons, List.map_nil, List.cons_append, List.nil_append,
      DraftPage.toJson, draftedPage, Json.bytes_append, Json.bytes_cons, List.flatMap_cons]
    omega
  unfold finishRoute at hn
  rw [if_pos hsize] at hn
  cases hn

end Loca.Runner
