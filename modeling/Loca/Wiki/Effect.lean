/-
# `Loca.Wiki.Effect` — what a successful wiki call did

One lemma per call of `Loca.Store.Wiki`.  It says everything the call checked and every
table it wrote; the invariants of the later modules are proved from these lemmas and
never open a call again.

The three commits share `Published`: the description of a publication, whoever submitted
it.  Only its last field, what became of the batches, depends on the kind of commit.
-/
import Loca.Store.Wiki

namespace Loca

open Check Table Text

theorem checkedAdd_eq_some {a b n : Nat} :
    checkedAdd a b = some n ↔ a + b < 2 ^ 64 ∧ n = a + b := by
  unfold checkedAdd
  split <;> simp_all [eq_comm]

theorem WikiTables.row_some {t : WikiTables} {room : String} {w : WikiRow}
    (h : t.row room = some w) : w ∈ t.wiki ∧ w.room = room :=
  ⟨List.mem_of_find?_eq_some h, by simpa using List.find?_some h⟩

theorem WikiTables.batch_some {t : WikiTables} {id : Nat} {b : WikiBatchRow}
    (h : t.batch id = some b) : b ∈ t.batches ∧ b.id = id :=
  ⟨List.mem_of_find?_eq_some h, by simpa using List.find?_some h⟩

theorem WikiTables.receipt_some {t : WikiTables} {room : String} {l : WikiLease}
    {r : WikiReceiptRow} (h : t.receipt room l = some r) :
    r ∈ t.receipts ∧ r.room = room ∧ r.batchId = l.batchId ∧ r.epoch = l.epoch :=
  ⟨List.mem_of_find?_eq_some h, by simpa [and_assoc] using List.find?_some h⟩

theorem WikiTables.lease_some {t : WikiTables} {l : WikiLease} {r : WikiLeaseRow}
    (h : t.lease l = some r) : r ∈ t.leases ∧ r.batchId = l.batchId ∧ r.epoch = l.epoch :=
  ⟨List.mem_of_find?_eq_some h, by simpa using List.find?_some h⟩

/-- The batch a valid lease holds, and the wiki row that still names its editor. -/
theorem leaseValid_iff {t : WikiTables} {room principal : String} {l : WikiLease} {now : Nat} :
    leaseValid t room principal l now = true ↔
      ∃ b ∈ t.batches, b.id = l.batchId ∧ b.epoch = l.epoch ∧ b.room = room ∧
        b.editorPrincipal = principal ∧ b.status = .running ∧ now < b.leaseExpiresAt ∧
        ∃ w ∈ t.wiki, w.room = room ∧ w.enabled = true ∧ w.editorPrincipal = principal := by
  unfold leaseValid
  simp only [List.any_eq_true, Bool.and_eq_true, decide_eq_true_eq, gt_iff_lt]
  constructor
  · rintro ⟨b, hb, ⟨⟨⟨⟨⟨h₁, h₂⟩, h₃⟩, h₄⟩, h₅⟩, h₆⟩, w, hw, ⟨h₇, h₈⟩, h₉⟩
    exact ⟨b, hb, h₁, h₂, h₃, h₄, h₅, h₆, w, hw, h₇.trans h₃, h₈, h₉.trans h₄⟩
  · rintro ⟨b, hb, h₁, h₂, h₃, h₄, h₅, h₆, w, hw, h₇, h₈, h₉⟩
    exact ⟨b, hb, ⟨⟨⟨⟨⟨h₁, h₂⟩, h₃⟩, h₄⟩, h₅⟩, h₆⟩, w, hw, ⟨h₇.trans h₃.symm, h₈⟩,
      h₉.trans h₄.symm⟩

/-! ## Configuration, removal, cancellation -/

/-- The page `configure_wiki` seeds, at revision 0. -/
def seedPage (room slug title : String) : WikiPageRow :=
  { room, slug, title, body := "", sources := [], revision := 0 }

theorem configureWiki_ok {room editor : String} {enabled : Bool} {interval : Nat}
    {t t' : WikiTables} {u : Unit}
    (h : configureWiki room editor enabled interval t = .ok (u, t')) :
    isBlank editor = false ∧ 1 ≤ interval ∧ interval ≤ 1000 ∧
    t' = { t.cancel room (fun b => b.editorPrincipal ≠ editor || !enabled) with
      wiki := insertOrUpdate WikiRow.room
        { room, editorPrincipal := editor, enabled, intervalMessages := interval,
          revision := 0, reviewedThrough := 0, reviewedAt := none, editedAt := none }
        (fun w => { w with editorPrincipal := editor, enabled, intervalMessages := interval }) t.wiki
      pages := insertIgnore WikiPageRow.key (seedPage room "working" "Working area")
        (insertIgnore WikiPageRow.key (seedPage room "overview" "Overview") t.pages) } := by
  simp only [configureWiki, bind_ok, require_ok, pure_ok, Prod.mk.injEq, exists_and_left] at h
  obtain ⟨⟨h₁, h₂, h₃⟩, -, -, rfl⟩ := h
  exact ⟨h₁, h₂, h₃, rfl⟩

theorem removeWikiPage_ok {room principal slug : String} {removal : WikiPageRemoval}
    {now n : Nat} {t t' : WikiTables}
    (h : removeWikiPage room principal slug removal now t = .ok (n, t')) :
    slug ≠ "overview" ∧ slug ≠ "working" ∧
    ∃ w page hist, t.row room = some w ∧ w.editorPrincipal = principal ∧ n = w.revision + 1 ∧
      page ∈ t.pages ∧ page.room = room ∧ page.slug = slug ∧
      hist = { room, slug, revision := n, title := page.title, body := page.body,
               sources := page.sources, editorPrincipal := principal,
               reason := s!"page removed: {removal.reason}", editedAt := now } ∧
      (∀ x ∈ t.history, x.key ≠ hist.key) ∧
      t' = { t with
        history := t.history ++ [hist]
        pages := deleteWhere (fun p => p.room = room && p.slug = slug) t.pages
        wiki := updateWhere (fun w => w.room = room)
          (fun w => { w with revision := n, editedAt := some now }) t.wiki }.cancel room
          (fun _ => true) := by
  simp only [removeWikiPage, bind_ok, require_ok, found_ok, pure_ok, Prod.mk.injEq,
    insertNew_eq_some, checkedAdd_eq_some, exists_and_left] at h
  obtain ⟨⟨h₁, h₂, -⟩, -, w, hw, he, -, -, -, n', ⟨-, rfl⟩, page, hp, hist, ⟨hn, rfl⟩, rfl, rfl⟩ := h
  have hmem := List.mem_of_find?_eq_some hp
  obtain ⟨hr, hs⟩ : page.room = room ∧ page.slug = slug := by
    simpa using List.find?_some hp
  refine ⟨h₁, h₂, w, page, _, hw, he, rfl, hmem, hr, hs, rfl, ?_, ?_⟩
  · rw [hr, hs] at hn
    exact hn
  · rw [hr, hs]

/-! ## Commits -/

/-- Is the page stored as submitted? -/
def storedAs (existing : List WikiPage) (p : WikiPage) : Bool :=
  existing.any fun q => sameContent q p

theorem reviewPages_ok {messages : List MessageRow} {room : String} {through : Nat}
    {existing : List WikiPage} {slugs : List String} {changed submitted out : List WikiPage}
    (h : reviewPages messages room through existing slugs changed submitted = .ok out) :
    out = changed ++ submitted.filter (fun p => !storedAs existing p) ∧
    (submitted.map WikiPage.slug).Nodup ∧ (∀ p ∈ submitted, p.slug ∉ slugs) ∧
    (∀ p ∈ submitted, validPage p = true) ∧
    (∀ p ∈ submitted, ∀ s ∈ p.sources, s ≤ through ∧ messageExists messages room s = true) := by
  -- the loop: `slugs` is what was seen, `changed` what was collected
  induction submitted generalizing slugs changed with
  | nil =>
      cases h
      simp
  | cons p rest ih =>
      simp only [reviewPages, bind_ok, require_ok, exists_and_left, exists_const] at h
      obtain ⟨⟨hv, hs⟩, hsrc, h⟩ := h
      obtain ⟨hout, hnd, hseen, hvalid, hsources⟩ := ih h
      refine ⟨?_, ?_, ?_, ?_, ?_⟩
      · rw [hout, List.filter_cons]
        by_cases he : storedAs existing p = true
        · have he' : (existing.any fun q => sameContent q p) = true := he
          simp [he, he']
        · have he' : ¬ (existing.any fun q => sameContent q p) = true := he
          simp [he, he']
      · rw [List.map_cons, List.nodup_cons]
        refine ⟨?_, hnd⟩
        intro hm
        obtain ⟨q, hq, hk⟩ := List.mem_map.mp hm
        exact hseen q hq (hk ▸ List.mem_cons_self)
      · intro q hq
        rcases List.mem_cons.mp hq with rfl | hq
        · exact hs
        · exact fun hm => hseen q hq (List.mem_cons_of_mem _ hm)
      · intro q hq
        rcases List.mem_cons.mp hq with rfl | hq
        · exact hv
        · exact hvalid q hq
      · intro q hq
        rcases List.mem_cons.mp hq with rfl | hq
        · exact hsrc
        · exact hsources q hq

/-- What the writing loop leaves: the listed pages at revision `next`, the other pages and
the other tables as they were, and one new history row per page. -/
structure PagesWritten (room principal reason : String) (now next : Nat) (changed : List WikiPage)
    (t t' : WikiTables) : Prop where
  page : ∀ x, x ∈ t'.pages ↔
    (x ∈ t.pages ∧ ∀ p ∈ changed, x.key ≠ (room, p.slug)) ∨ ∃ p ∈ changed, x = p.toRow room next
  pageKeys : (t.pages.map WikiPageRow.key).Nodup → (t'.pages.map WikiPageRow.key).Nodup
  history : t'.history = t.history ++ changed.map (WikiPage.toHistory room principal reason now next)
  fresh : (t.history.map WikiHistoryRow.key).Nodup → (t'.history.map WikiHistoryRow.key).Nodup
  rest : t' = { t with pages := t'.pages, history := t'.history }

theorem writePages_ok {room principal reason : String} {now next : Nat} {changed : List WikiPage}
    {t t' : WikiTables} (hnd : (changed.map WikiPage.slug).Nodup)
    (h : writePages room principal reason now next changed t = .ok t') :
    PagesWritten room principal reason now next changed t t' := by
  induction changed generalizing t with
  | nil =>
      cases h
      exact ⟨by simp, id, by simp, id, rfl⟩
  | cons p rest ih =>
      simp only [writePages, bind_ok, found_ok] at h
      obtain ⟨hist, hins, h⟩ := h
      rw [List.map_cons, List.nodup_cons] at hnd
      have ih' := ih hnd.2 h
      obtain ⟨-, rfl⟩ := insertNew_eq_some.mp hins
      have hput : ∀ y : WikiPageRow, y.key = (p.toRow room next).key →
          { y with title := p.title, body := p.body, sources := p.sources, revision := next } =
            p.toRow room next := by
        rintro ⟨r, sl, _, _, _, _⟩ hk
        simp only [WikiPageRow.key, WikiPage.toRow, Prod.mk.injEq] at hk ⊢
        simp [hk.1, hk.2]
      refine ⟨?_, ?_, ?_, ?_, ?_⟩
      · intro x
        rw [ih'.page x, mem_insertOrUpdate hput]
        constructor
        · rintro (⟨⟨hx, hk⟩ | rfl, hne⟩ | ⟨q, hq, rfl⟩)
          · left
            refine ⟨hx, ?_⟩
            intro q hq
            rcases List.mem_cons.mp hq with rfl | hq
            · exact hk
            · exact hne q hq
          · exact .inr ⟨p, List.mem_cons_self, rfl⟩
          · exact .inr ⟨q, List.mem_cons_of_mem _ hq, rfl⟩
        · rintro (⟨hx, hne⟩ | ⟨q, hq, rfl⟩)
          · exact .inl ⟨.inl ⟨hx, hne p List.mem_cons_self⟩,
              fun q hq => hne q (List.mem_cons_of_mem _ hq)⟩
          · rcases List.mem_cons.mp hq with rfl | hq
            · refine .inl ⟨.inr rfl, ?_⟩
              intro q' hq' hk
              simp only [WikiPageRow.key, WikiPage.toRow, Prod.mk.injEq, true_and] at hk
              exact hnd.1 (hk ▸ List.mem_map_of_mem hq')
            · exact .inr ⟨q, hq, rfl⟩
      · intro hk
        exact ih'.pageKeys (nodup_insertOrUpdate (fun _ => rfl) hk)
      · rw [ih'.history]
        simp
      · intro hk
        exact ih'.fresh (nodup_insertNew hk hins)
      · rw [ih'.rest]

/-- A publication by `principal`, from the wiki row `w` it was checked against.  `changed`
are the submitted pages that were not stored as submitted. -/
structure Published (messages : List MessageRow) (room principal : String) (update : WikiCommit)
    (now : Nat) (lease : Option WikiLease) (human : Bool) (w : WikiRow) (changed : List WikiPage)
    (t : WikiTables) (n : Nat) (t' : WikiTables) : Prop where
  expected : update.expectedRevision = w.revision
  cursor : w.reviewedThrough ≤ update.reviewedThrough
  through : update.reviewedThrough = 0 ∨ messageExists messages room update.reviewedThrough = true
  changed_eq : changed = update.pages.filter fun p => !storedAs (pages t room) p
  slugs : (changed.map WikiPage.slug).Nodup
  sources : ∀ p ∈ changed, ∀ s ∈ p.sources,
    s ≤ update.reviewedThrough ∧ messageExists messages room s = true
  revision : n = w.revision + if changed = [] then 0 else 1
  written : PagesWritten room principal update.reason now n changed t
    { t with pages := t'.pages, history := t'.history }
  wiki : t'.wiki = updateWhere (fun w => w.room = room) (fun w =>
    { w with
      revision := n
      reviewedThrough := update.reviewedThrough
      reviewedAt := if human then w.reviewedAt else some now
      editedAt := if changed = [] then w.editedAt else some now }) t.wiki
  leases : t'.leases = t.leases
  batchSeq : t'.batchSeq = t.batchSeq
  batches :
    (∃ l, lease = some l ∧
      t'.receipts = t.receipts ++ [⟨room, l.batchId, l.epoch, principal, update, n⟩] ∧
      t'.batches = updateWhere (fun b => b.id = l.batchId)
        (fun b => { b with status := .completed }) t.batches) ∨
    (lease = none ∧ t'.receipts = t.receipts ∧
      ((human = true ∧ changed = [] ∧ t'.batches = t.batches) ∨
       (human = true ∧ changed ≠ [] ∧ t'.batches = (t.cancel room fun _ => true).batches) ∨
       (human = false ∧
        t'.batches = (t.cancel room fun b => b.afterId < update.reviewedThrough).batches)))

theorem settleBatches_ok {room principal : String} {update : WikiCommit}
    {lease : Option WikiLease} {human changed : Bool} {n : Nat} {t t' : WikiTables}
    (h : settleBatches room principal update lease human changed n t = .ok t') :
    t' = { t with receipts := t'.receipts, batches := t'.batches } ∧
    ((∃ l, lease = some l ∧
      t'.receipts = t.receipts ++ [⟨room, l.batchId, l.epoch, principal, update, n⟩] ∧
      t'.batches = updateWhere (fun b => b.id = l.batchId)
        (fun b => { b with status := .completed }) t.batches) ∨
    (lease = none ∧ t'.receipts = t.receipts ∧
      ((human = true ∧ changed = false ∧ t'.batches = t.batches) ∨
       (human = true ∧ changed = true ∧ t'.batches = (t.cancel room fun _ => true).batches) ∨
       (human = false ∧
        t'.batches = (t.cancel room fun b => b.afterId < update.reviewedThrough).batches)))) := by
  cases lease with
  | some l =>
      simp only [settleBatches, bind_ok, found_ok, pure_ok, insertNew_eq_some] at h
      obtain ⟨r, ⟨-, rfl⟩, rfl⟩ := h
      exact ⟨rfl, .inl ⟨l, rfl, rfl, rfl⟩⟩
  | none =>
      cases human <;> cases changed <;>
        simp only [settleBatches, Bool.and_true, Bool.and_false, Bool.false_eq_true, if_true,
          if_false, pure_ok] at h <;> subst h <;> exact ⟨rfl, .inr ⟨rfl, rfl, by simp⟩⟩

theorem publishWiki_ok {messages : List MessageRow} {room principal : String}
    {update : WikiCommit} {now : Nat} {lease : Option WikiLease} {human : Bool} {w : WikiRow}
    {t t' : WikiTables} {n : Nat}
    (h : publishWiki messages room principal update now lease human w t = .ok (n, t')) :
    ∃ changed, Published messages room principal update now lease human w changed t n t' := by
  simp only [publishWiki, bind_ok, require_ok, found_ok, pure_ok, Prod.mk.injEq,
    checkedAdd_eq_some, exists_and_left, exists_const] at h
  obtain ⟨⟨hexp, hcur⟩, hthr, changed, hch, n', ⟨-, hn⟩, t₁, hw, t₂, hs, rfl, rfl⟩ := h
  obtain ⟨hceq, hnd, -, -, hsrc⟩ := reviewPages_ok hch
  rw [List.nil_append] at hceq
  have hsub : changed.Sublist update.pages := hceq ▸ List.filter_sublist
  have hslugs : (changed.map WikiPage.slug).Nodup := hnd.sublist (hsub.map _)
  have hpw := writePages_ok hslugs hw
  obtain ⟨hrest, hb⟩ := settleBatches_ok hs
  have hpages : t₂.pages = t₁.pages := by rw [hrest]
  have hhist : t₂.history = t₁.history := by rw [hrest]
  have hwr : { t with pages := t₂.pages, history := t₂.history } = t₁ := by
    rw [hpages, hhist]
    exact hpw.rest.symm
  refine ⟨changed, hexp, hcur, hthr, hceq, hslugs, fun p hp => hsrc p (hsub.subset hp), hn, ?_,
    ?_, ?_, ?_, ?_⟩
  · rw [hwr]
    exact hpw
  · rw [hrest, hpw.rest]
  · rw [hrest, hpw.rest]
  · rw [hrest, hpw.rest]
  · rw [hpw.rest] at hb
    simpa [WikiTables.cancel] using hb

/-- The lease checks that guard a publication by a worker. -/
structure LeaseHeld (room principal : String) (update : WikiCommit) (now : Nat) (l : WikiLease)
    (w : WikiRow) (b : WikiBatchRow) (t : WikiTables) : Prop where
  mem : b ∈ t.batches
  id : b.id = l.batchId
  unpublished : t.receipt room l = none
  valid : leaseValid t room principal l now = true
  after : w.reviewedThrough = b.afterId
  through : update.reviewedThrough = b.throughId

/-- A commit succeeds in one of two ways: it repeats an accepted one, or it publishes. -/
theorem commitWikiChecked_ok {messages : List MessageRow} {room principal : String}
    {update : WikiCommit} {now : Nat} {lease : Option WikiLease} {human : Bool}
    {t t' : WikiTables} {n : Nat}
    (h : commitWikiChecked messages room principal update now lease human t = .ok (n, t')) :
    (update.pages.length ≤ commitMaxPages ∧ validReason update.reason = true) ∧
    ∃ w, t.row room = some w ∧ (human = true ∨ w.editorPrincipal = principal) ∧
      (human = true → lease = none ∧ update.reviewedThrough = w.reviewedThrough) ∧
      ((∃ l r, lease = some l ∧ t.receipt room l = some r ∧ r.editorPrincipal = principal ∧
          r.request = update ∧ n = r.revision ∧ t' = t) ∨
       (∃ changed, Published messages room principal update now lease human w changed t n t' ∧
          ∀ l, lease = some l → ∃ b, LeaseHeld room principal update now l w b t)) := by
  simp only [commitWikiChecked, bind_ok, require_ok, found_ok, exists_and_left, exists_const] at h
  obtain ⟨hshape, w, hw, he, hh, h⟩ := h
  refine ⟨hshape, w, hw, he, ?_, ?_⟩
  · intro hhuman
    by_contra hne
    exact hh ⟨hhuman, by by_cases hl : lease = none <;> simp_all⟩
  · cases lease with
    | none =>
        obtain ⟨changed, hp⟩ := publishWiki_ok h
        exact .inr ⟨changed, hp, by simp⟩
    | some l =>
        cases hr : t.receipt room l with
        | some r =>
            simp only [hr, bind_ok, require_ok, pure_ok, Prod.mk.injEq, exists_and_left,
              exists_const] at h
            obtain ⟨⟨h₁, h₂⟩, h₃, h₄⟩ := h
            exact .inl ⟨l, r, rfl, hr, h₁, h₂, h₃.symm, h₄.symm⟩
        | none =>
            simp only [hr, bind_ok, require_ok, found_ok, exists_and_left, exists_const] at h
            obtain ⟨hv, b, hb, ⟨ha, ht⟩, h⟩ := h
            obtain ⟨changed, hp⟩ := publishWiki_ok h
            have hbm := WikiTables.batch_some hb
            refine .inr ⟨changed, hp, ?_⟩
            intro l' hl
            cases hl
            exact ⟨b, hbm.1, hbm.2, hr, hv, ha, ht⟩

/-! ## Batches -/

theorem scheduleWikiReview_ok {messages : List MessageRow} {room : String} {now : Nat}
    {t t' : WikiTables} {a : Bool}
    (h : scheduleWikiReview messages room now t = .ok (a, t')) :
    (a = false ∧ t' = t) ∨
    (a = true ∧ ∃ w reason through, w ∈ t.wiki ∧ w.room = room ∧ w.enabled = true ∧
      (∀ b ∈ t.batches, b.room = room → b.status.active = false) ∧
      (pendingSources messages room w.reviewedThrough)[
        min (pendingSources messages room w.reviewedThrough).length maxBatchMessages - 1]? =
          some through ∧
      t' = { t with
        batchSeq := t.batchSeq + 1
        batches := t.batches ++ [{
          id := t.batchSeq + 1, room, editorPrincipal := w.editorPrincipal
          afterId := w.reviewedThrough, throughId := through.id, status := .queued, reason
          createdAt := now, epoch := 0, attempts := 0, leaseExpiresAt := 0 }] }) := by
  unfold scheduleWikiReview at h
  cases hw : t.wiki.find? fun w => w.room = room && w.enabled with
  | none =>
      simp only [hw, pure_ok, Prod.mk.injEq] at h
      exact .inl ⟨h.1.symm, h.2.symm⟩
  | some w =>
      simp only [hw] at h
      obtain ⟨hr, he⟩ : w.room = room ∧ w.enabled = true := by simpa using List.find?_some hw
      split at h
      · simp only [pure_ok, Prod.mk.injEq] at h
        exact .inl ⟨h.1.symm, h.2.symm⟩
      · next hact =>
        split at h
        · next reason through _ hthr =>
          simp only [pure_ok, Prod.mk.injEq] at h
          refine .inr ⟨h.1.symm, w, reason, through, List.mem_of_find?_eq_some hw, hr, he, ?_, hthr,
            h.2.symm⟩
          intro b hb hbr
          by_contra hc
          exact hact (List.any_eq_true.mpr ⟨b, hb, by simp [hbr, hc]⟩)
        · simp only [pure_ok, Prod.mk.injEq] at h
          exact .inl ⟨h.1.symm, h.2.symm⟩

theorem claimWikiReview_ok {messages : List MessageRow} {room principal : String} {now : Nat}
    {t t' : WikiTables} {a : Option WikiBatch}
    (h : claimWikiReview messages room principal now t = .ok (a, t')) :
    ∃ w, t.row room = some w ∧ w.editorPrincipal = principal ∧
    ((a = none ∧ (t' = t ∨ t' = blockExhausted room now t)) ∨
     (w.enabled = true ∧ ∃ b, b ∈ (blockExhausted room now t).batches ∧
        claimable room principal now b = true ∧ b.epoch + 1 < 2 ^ 64 ∧
        (∀ l ∈ t.leases, l.key ≠ (b.id, b.epoch + 1)) ∧
        a = some {
          lease := { batchId := b.id, epoch := b.epoch + 1 }
          room, afterId := b.afterId, throughId := b.throughId, reason := b.reason
          leaseExpiresAt := now + leaseMs, attempts := b.attempts + 1
          messages := (windowMessages messages room b.afterId b.throughId).map fun m =>
            { m.toMessage with room } } ∧
        t' = { t with
          batches := updateWhere (fun x => x.id = b.id) (fun x =>
            { x with status := .running, epoch := b.epoch + 1, attempts := x.attempts + 1,
                     leaseExpiresAt := now + leaseMs }) (blockExhausted room now t).batches
          leases := t.leases ++ [{ batchId := b.id, epoch := b.epoch + 1, startedAt := now }] })) := by
  simp only [claimWikiReview, bind_ok, require_ok, found_ok, exists_and_left, exists_const] at h
  obtain ⟨w, hw, he, h⟩ := h
  refine ⟨w, hw, he, ?_⟩
  split at h
  · next hen =>
    cases hb : (blockExhausted room now t).batches.find? (claimable room principal now) with
    | none =>
        simp only [hb, pure_ok, Prod.mk.injEq] at h
        exact .inl ⟨h.1.symm, .inr h.2.symm⟩
    | some b =>
        simp only [hb, bind_ok, found_ok, checkedAdd_eq_some, insertNew_eq_some, pure_ok,
          Prod.mk.injEq] at h
        obtain ⟨expires, ⟨-, rfl⟩, epoch, ⟨hep, rfl⟩, leases, ⟨hl, rfl⟩, rfl, rfl⟩ := h
        exact .inr ⟨hen, b, List.mem_of_find?_eq_some hb, List.find?_some hb, hep, hl, rfl, rfl⟩
  · simp only [pure_ok, Prod.mk.injEq] at h
    exact .inl ⟨h.1.symm, .inl h.2.symm⟩

theorem renewWikiReview_ok {room principal : String} {l : WikiLease} {now n : Nat}
    {t t' : WikiTables} (h : renewWikiReview room principal l now t = .ok (n, t')) :
    leaseValid t room principal l now = true ∧
    ∃ lease b, t.lease l = some lease ∧ t.batch l.batchId = some b ∧
      n = min (max b.leaseExpiresAt (now + leaseMs)) (lease.startedAt + maxWorkerMs) ∧
      t' = { t with
        batches := updateWhere (fun x => x.id = l.batchId)
          (fun x => { x with leaseExpiresAt := n }) t.batches } := by
  simp only [renewWikiReview, bind_ok, require_ok, found_ok, checkedAdd_eq_some, pure_ok,
    Prod.mk.injEq, exists_and_left, exists_const] at h
  obtain ⟨hv, lease, hl, b, hb, d, ⟨-, rfl⟩, e, ⟨-, rfl⟩, -, rfl, rfl⟩ := h
  exact ⟨hv, lease, b, hl, hb, rfl, rfl⟩

end Loca
