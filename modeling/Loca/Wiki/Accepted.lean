/-
# `Loca.Wiki.Accepted` — which reviews a lease can publish

`Loca.Wiki.Effect` says what an accepted commit did.  This module goes the other way: with a valid lease, in a state that
a run reaches, what the store refuses a worker's review for is what the review says (`Publishable`), and nothing else.
The statements that could still fail in the storage do not: the history has no row of the coming revision, and a running
batch has no receipt.
-/
import Loca.Wiki.Coverage
import Loca.Wiki.History

namespace Loca

open Check Table

/-! ## The loops -/

theorem reviewPages_of {messages : List MessageRow} {room : String} {through : Nat} {existing : List WikiPage}
    {slugs : List String} {changed submitted : List WikiPage} (hvalid : ∀ p ∈ submitted, validPage p = true)
    (hnodup : (submitted.map WikiPage.slug).Nodup) (hfresh : ∀ p ∈ submitted, p.slug ∉ slugs)
    (hsources : ∀ p ∈ submitted, ∀ s ∈ p.sources, s ≤ through ∧ messageExists messages room s = true) :
    reviewPages messages room through existing slugs changed submitted =
      .ok (changed ++ submitted.filter fun p => !storedAs existing p) := by
  induction submitted generalizing slugs changed with
  | nil => rw [List.filter_nil, List.append_nil, reviewPages]
  | cons p rest ih =>
      rw [List.map_cons, List.nodup_cons] at hnodup
      have hrest : ∀ q ∈ rest, q.slug ∉ p.slug :: slugs := by
        intro q hq hm
        rcases List.mem_cons.mp hm with he | hm
        · exact hnodup.1 (he ▸ List.mem_map_of_mem hq)
        · exact hfresh q (List.mem_cons_of_mem p hq) hm
      have hp : validPage p = true ∧ p.slug ∉ slugs := ⟨hvalid p List.mem_cons_self, hfresh p List.mem_cons_self⟩
      have hs := hsources p List.mem_cons_self
      have hnext := fun changed => @ih (p.slug :: slugs) changed (fun q hq => hvalid q (List.mem_cons_of_mem p hq)) hnodup.2
        hrest fun q hq => hsources q (List.mem_cons_of_mem p hq)
      rw [reviewPages, require, require, if_pos hp, if_pos hs, ok_bind, ok_bind, hnext, List.filter_cons]
      by_cases he : storedAs existing p = true
      · have he' : (existing.any fun q => sameContent q p) = true := he
        rw [if_pos he', if_neg (by simp [he])]
      · have he' : ¬(existing.any fun q => sameContent q p) = true := he
        rw [if_neg he', if_pos (by simp [he]), List.append_assoc, List.singleton_append]

/-- The pages can be written when the history has no row of that revision. -/
theorem writePages_of {room principal reason : String} {now next : Nat} {changed : List WikiPage} {t : WikiTables}
    (hnodup : (changed.map WikiPage.slug).Nodup)
    (hfresh : ∀ p ∈ changed, ∀ h ∈ t.history, h.key ≠ (room, p.slug, next)) :
    ∃ t', writePages room principal reason now next changed t = .ok t' := by
  induction changed generalizing t with
  | nil => exact ⟨t, rfl⟩
  | cons p rest ih =>
      rw [List.map_cons, List.nodup_cons] at hnodup
      have hnew : insertNew WikiHistoryRow.key (p.toHistory room principal reason now next) t.history =
          some (t.history ++ [p.toHistory room principal reason now next]) :=
        insertNew_eq_some.mpr ⟨hfresh p List.mem_cons_self, rfl⟩
      rw [writePages, hnew, found_some, ok_bind]
      refine ih hnodup.2 fun q hq h hh => ?_
      rcases List.mem_append.mp hh with hh | hh
      · exact hfresh q (List.mem_cons_of_mem p hq) h hh
      · obtain rfl := List.mem_singleton.mp hh
        intro hkey
        simp only [WikiHistoryRow.key, WikiPage.toHistory, Prod.mk.injEq, true_and, and_true] at hkey
        exact hnodup.1 (hkey ▸ List.mem_map_of_mem hq)

theorem settleBatches_lease {room principal : String} {update : WikiCommit} {l : WikiLease} {human changed : Bool} {n : Nat}
    {t : WikiTables} (h : ∀ x ∈ t.receipts, x.key ≠ (room, l.batchId, l.epoch)) :
    ∃ t', settleBatches room principal update (some l) human changed n t = .ok t' := by
  have hnew : insertNew WikiReceiptRow.key ⟨room, l.batchId, l.epoch, principal, update, n⟩ t.receipts =
      some (t.receipts ++ [⟨room, l.batchId, l.epoch, principal, update, n⟩]) := insertNew_eq_some.mpr ⟨h, rfl⟩
  simp only [settleBatches, hnew, found_some, ok_bind]
  exact ⟨_, rfl⟩

/-! ## Revisions fit their type -/

def RevisionsFit (t : WikiTables) : Prop := ∀ w ∈ t.wiki, w.revision < 2 ^ 64

theorem RevisionsFit.update {t t' : WikiTables} {p : WikiRow → Bool} {f : WikiRow → WikiRow} (h : RevisionsFit t)
    (hw : t'.wiki = updateWhere p f t.wiki) (hf : ∀ w, (f w).revision < 2 ^ 64) : RevisionsFit t' := by
  intro x hx
  rw [hw, mem_updateWhere] at hx
  obtain ⟨y, hy, rfl⟩ := hx
  by_cases hp : p y = true
  · rw [if_pos hp]
    exact hf y
  · rw [if_neg hp]
    exact h y hy

theorem publishWiki_fits {messages : List MessageRow} {room principal : String} {update : WikiCommit} {now : Nat}
    {lease : Option WikiLease} {human : Bool} {w : WikiRow} {t t' : WikiTables} {n : Nat} (h : RevisionsFit t)
    (hs : publishWiki messages room principal update now lease human w t = .ok (n, t')) : RevisionsFit t' := by
  obtain ⟨changed, hp⟩ := publishWiki_ok hs
  simp only [publishWiki, bind_ok, found_ok, pure_ok, Prod.mk.injEq, checkedAdd_eq_some] at hs
  obtain ⟨_, _, _, _, _, _, n', ⟨hlt, hn⟩, _, _, _, _, rfl, _⟩ := hs
  exact h.update hp.wiki fun _ => hn ▸ hlt

theorem commitWikiChecked_fits {messages : List MessageRow} {room principal : String} {update : WikiCommit} {now : Nat}
    {lease : Option WikiLease} {human : Bool} {t t' : WikiTables} {n : Nat} (h : RevisionsFit t)
    (hs : commitWikiChecked messages room principal update now lease human t = .ok (n, t')) : RevisionsFit t' := by
  simp only [commitWikiChecked, bind_ok, require_ok, found_ok, exists_and_left, exists_const] at hs
  obtain ⟨-, w, -, -, -, hs⟩ := hs
  cases lease with
  | none => exact publishWiki_fits h hs
  | some l =>
      cases hr : t.receipt room l with
      | some r =>
          simp only [hr, bind_ok, require_ok, pure_ok, Prod.mk.injEq, exists_and_left, exists_const] at hs
          exact hs.2.2 ▸ h
      | none =>
          simp only [hr, bind_ok, require_ok, found_ok, exists_and_left, exists_const] at hs
          obtain ⟨-, -, -, -, hs⟩ := hs
          exact publishWiki_fits h hs

theorem run_revisionsFit {ok : WikiState → WikiInput → Prop} {tr : WikiTrace} {s : WikiState}
    (r : Sys.Run wikiMachine ok tr s) : RevisionsFit s.tables := by
  refine tables_invariant (fun _ hw => nomatch hw) ?_ r
  intro messages t c a t' h hs
  have idle : t'.wiki = t.wiki → RevisionsFit t' := fun hw x hx => h x (hw ▸ hx)
  cases c with
  | configure room editor enabled interval =>
      obtain ⟨u, hc, -⟩ := answer_ok.mp hs
      obtain ⟨-, -, -, rfl⟩ := configureWiki_ok hc
      intro x hx
      rcases insertOrUpdate_cases WikiRow.room _ _ _ with ⟨-, he⟩ | ⟨-, he⟩ <;> rw [he] at hx
      · obtain ⟨y, hy, rfl⟩ := mem_updateWhere.mp hx
        have := h y hy
        split <;> exact this
      · rcases List.mem_append.mp hx with hx | hx
        · exact h x hx
        · rw [List.mem_singleton.mp hx]
          exact Nat.two_pow_pos 64
  | schedule room now =>
      obtain ⟨u, hc, -⟩ := answer_ok.mp hs
      obtain ⟨-, rfl⟩ | ⟨-, w, reason, through, -, -, -, -, -, rfl⟩ := scheduleWikiReview_ok hc <;> exact idle rfl
  | claim room principal now =>
      obtain ⟨u, hc, -⟩ := answer_ok.mp hs
      obtain ⟨w, -, -, ⟨-, rfl | rfl⟩ | ⟨-, b, -, -, -, -, -, rfl⟩⟩ := claimWikiReview_ok hc <;> exact idle rfl
  | renew room principal l now =>
      obtain ⟨u, hc, -⟩ := answer_ok.mp hs
      obtain ⟨-, lease, b, -, -, -, rfl⟩ := renewWikiReview_ok hc
      exact idle rfl
  | finish room principal update l now =>
      obtain ⟨u, hc, -⟩ := answer_ok.mp hs
      exact commitWikiChecked_fits h hc
  | commit room principal update now =>
      obtain ⟨u, hc, -⟩ := answer_ok.mp hs
      exact commitWikiChecked_fits h hc
  | edit room actor slug page cursor now =>
      obtain ⟨u, hc, -⟩ := answer_ok.mp hs
      exact commitWikiChecked_fits h hc
  | remove room principal slug removal now =>
      obtain ⟨u, hc, -⟩ := answer_ok.mp hs
      simp only [removeWikiPage, bind_ok, require_ok, found_ok, pure_ok, Prod.mk.injEq, checkedAdd_eq_some] at hc
      obtain ⟨_, _, w, _, _, _, _, _, n, ⟨hlt, hn⟩, _, _, _, _, _, rfl⟩ := hc
      exact h.update rfl fun _ => by
        show n < 2 ^ 64
        omega
  | cancel room =>
      obtain ⟨u, hc, -⟩ := answer_ok.mp hs
      simp only [cancelWikiReview, pure_ok, Prod.mk.injEq] at hc
      obtain ⟨-, rfl⟩ := hc
      exact idle rfl

/-! ## A review -/

/-- What a review must say to be published from batch `b` of a wiki at row `w`. -/
structure Publishable (messages : List MessageRow) (t : WikiTables) (w : WikiRow) (b : WikiBatchRow) (update : WikiCommit) :
    Prop where
  few : update.pages.length ≤ commitMaxPages
  reason : validReason update.reason = true
  expected : update.expectedRevision = w.revision
  through : update.reviewedThrough = b.throughId
  slugs : (update.pages.map WikiPage.slug).Nodup
  pages : ∀ p ∈ update.pages, validPage p = true
  sources : ∀ p ∈ update.pages, ∀ s ∈ p.sources, s ≤ b.throughId ∧ messageExists messages b.room s = true
  room : (∀ p ∈ update.pages, storedAs (Loca.pages t b.room) p = true) ∨ w.revision + 1 < 2 ^ 64

/-- The batch of a valid lease, and the row of its wiki. -/
theorem leaseValid_row {t : WikiTables} (h : Fenced t) {room principal : String} {l : WikiLease} {now : Nat}
    (hv : leaseValid t room principal l now = true) :
    ∃ b w, t.batch l.batchId = some b ∧ b.room = room ∧ b.epoch = l.epoch ∧ b.status = .running ∧
      t.row room = some w ∧ w.editorPrincipal = principal ∧ ∀ x ∈ t.receipts, x.batchId ≠ l.batchId := by
  obtain ⟨b, hb, hid, hep, hroom, -, hrun, -, w, hw, hwr, -, hwe⟩ := leaseValid_iff.mp hv
  have hbatch : t.batch l.batchId = some b := by
    cases hf : t.batch l.batchId with
    | none => simpa [hid] using List.find?_eq_none.mp hf b hb
    | some b' =>
        obtain ⟨hb', hid'⟩ := WikiTables.batch_some hf
        rw [h.eq_of_id hb' hb (hid'.trans hid.symm)]
  have hrow : t.row room = some w := by
    cases hf : t.row room with
    | none => simpa [hwr] using List.find?_eq_none.mp hf w hw
    | some w' => rw [h.row_eq hf hw hwr]
  refine ⟨b, w, hbatch, hroom, hep, hrun, hrow, hwe, fun x hx hxid => ?_⟩
  -- a batch with a receipt is completed
  obtain ⟨b', hb', hid', -, -, hdone⟩ := h.published x hx
  rw [h.eq_of_id hb' hb (hid'.trans (hxid.trans hid.symm)), hrun] at hdone
  cases hdone

theorem receipt_none {t : WikiTables} {room : String} {l : WikiLease} (h : ∀ x ∈ t.receipts, x.batchId ≠ l.batchId) :
    t.receipt room l = none := by
  cases hfound : t.receipt room l with
  | none => rfl
  | some x => exact absurd (WikiTables.receipt_some hfound).2.2.1 (h x (WikiTables.receipt_some hfound).1)

/-- In a state that a run reaches, a review that may be published is published. -/
theorem finish_of_publishable {s : WikiState} {room principal : String} {update : WikiCommit} {l : WikiLease} {now : Nat}
    (hcov : Covered room s) (hf : Fenced s.tables) (hk : Chronicled s.messages s.tables) (hfit : RevisionsFit s.tables)
    (hv : leaseValid s.tables room principal l now = true) {b : WikiBatchRow} {w : WikiRow}
    (hb : s.tables.batch l.batchId = some b) (hw : s.tables.row room = some w)
    (h : Publishable s.messages s.tables w b update) :
    ∃ n t, finishWikiReview s.messages room principal update l now s.tables = .ok (n, t) := by
  obtain ⟨b', w', hb', hroom, -, hrun, hw', hed, hnone⟩ := leaseValid_row hf hv
  obtain rfl := Option.some.inj (hb.symm.trans hb')
  obtain rfl := Option.some.inj (hw.symm.trans hw')
  obtain ⟨hbm, hbid⟩ := WikiTables.batch_some hb
  have hreceipt : s.tables.receipt room l = none := receipt_none hnone
  have hafter : w.reviewedThrough = b.afterId := by
    rw [hcov.after b hbm hroom (by rw [hrun]; rfl), cursor_of_row hw]
  obtain ⟨m, hm, hmr, hmid⟩ := (hcov.window b hbm hroom).exists_through
  have hthrough : messageExists s.messages room b.throughId = true :=
    List.any_eq_true.mpr ⟨m, hm, by simp [hmr, hmid, hroom]⟩
  have hle : w.reviewedThrough ≤ b.throughId := by
    obtain ⟨x, hx, hxid⟩ := Option.map_eq_some_iff.mp (hcov.window b hbm hroom).2
    obtain ⟨-, -, hgt, -⟩ := mem_eligibleWindow.mp (List.mem_of_getLast? hx)
    omega
  have hreview := @reviewPages_of s.messages room b.throughId (pages s.tables room) [] [] _ h.pages h.slugs
    (fun _ _ => List.not_mem_nil) fun p hp src hsrc => hroom ▸ h.sources p hp src hsrc
  rw [List.nil_append] at hreview
  generalize hch : update.pages.filter (fun p => !storedAs (pages s.tables room) p) = changed at hreview
  have hsub : changed.Sublist update.pages := hch ▸ List.filter_sublist
  have hnodup : (changed.map WikiPage.slug).Nodup := h.slugs.sublist (hsub.map _)
  have hwm := (WikiTables.row_some hw).1
  have hlt : w.revision + (if changed = [] then 0 else 1) < 2 ^ 64 := by
    by_cases hnil : changed = []
    · rw [if_pos hnil]
      exact hfit w hwm
    · rw [if_neg hnil]
      refine h.room.resolve_left fun hall => hnil ?_
      rw [← hch, List.filter_eq_nil_iff]
      intro p hp
      rw [hroom] at hall
      simp [hall p hp]
  have hhistory : ∀ p ∈ changed, ∀ x ∈ s.tables.history,
      x.key ≠ (room, p.slug, w.revision + if changed = [] then 0 else 1) := by
    intro p hp x hx hkey
    simp only [WikiHistoryRow.key, Prod.mk.injEq] at hkey
    obtain ⟨w', hw'm, hwr, hle'⟩ := hk.historyRevision x hx
    rw [if_neg (List.ne_nil_of_mem hp)] at hkey
    have hsame : w' = w := eq_of_key hf.wikiKey hw'm hwm (by rw [hwr, hkey.1, (WikiTables.row_some hw).2])
    rw [hsame] at hle'
    omega
  obtain ⟨t₁, ht₁⟩ := @writePages_of room principal update.reason now _ _ _ hnodup hhistory
  have hreceipts : t₁.receipts = s.tables.receipts := by rw [(writePages_ok hnodup ht₁).rest]
  generalize hn : w.revision + (if changed = [] then 0 else 1) = n at hlt ht₁
  have hreceiptKey : ∀ x ∈ t₁.receipts, x.key ≠ (room, l.batchId, l.epoch) := by
    intro x hx hkey
    simp only [WikiReceiptRow.key, Prod.mk.injEq] at hkey
    exact hnone x (hreceipts ▸ hx) hkey.2.1
  obtain ⟨t₂, ht₂⟩ := @settleBatches_lease room principal update l false (decide (changed ≠ [])) n
    { t₁ with
      wiki := updateWhere (fun w => w.room = room) (fun w =>
        { w with
          revision := n
          reviewedThrough := update.reviewedThrough
          reviewedAt := if false = true then w.reviewedAt else some now
          editedAt := if changed = [] then w.editedAt else some now }) t₁.wiki } hreceiptKey
  refine ⟨n, t₂, ?_⟩
  have hcheck : update.expectedRevision = w.revision ∧ w.reviewedThrough ≤ b.throughId := ⟨h.expected, hle⟩
  have hexists : b.throughId = 0 ∨ messageExists s.messages room b.throughId = true := .inr hthrough
  have hnext : checkedAdd w.revision (if changed = [] then 0 else 1) = some n :=
    checkedAdd_eq_some.mpr ⟨by rw [hn]; exact hlt, hn.symm⟩
  have hpublish : publishWiki s.messages room principal update now (some l) false w s.tables = .ok (n, t₂) := by
    simp only [publishWiki, require, if_pos hcheck, if_pos hexists, ok_bind, h.through, hreview, hnext, found_some, ht₁]
    rw [h.through] at ht₂
    rw [ht₂, ok_bind]
    rfl
  have hshape : update.pages.length ≤ commitMaxPages ∧ validReason update.reason = true := ⟨h.few, h.reason⟩
  have hsame : w.reviewedThrough = b.afterId ∧ update.reviewedThrough = b.throughId := ⟨hafter, h.through⟩
  simp [finishWikiReview, commitWikiChecked, require, hshape, hw, hed, hreceipt, hv, hb, hsame, hpublish]

/-- What is published might be published. -/
theorem publishable_of_finish {s : WikiState} {room principal : String} {update : WikiCommit} {l : WikiLease} {now n : Nat}
    {t : WikiTables} (hf : Fenced s.tables) (hv : leaseValid s.tables room principal l now = true) {b : WikiBatchRow}
    {w : WikiRow} (hb : s.tables.batch l.batchId = some b) (hw : s.tables.row room = some w)
    (h : finishWikiReview s.messages room principal update l now s.tables = .ok (n, t)) :
    Publishable s.messages s.tables w b update := by
  obtain ⟨b', w', hb', hroom, -, -, hw', -, hnone⟩ := leaseValid_row hf hv
  obtain rfl := Option.some.inj (hb.symm.trans hb')
  obtain rfl := Option.some.inj (hw.symm.trans hw')
  have hreceipt : s.tables.receipt room l = none := receipt_none hnone
  simp only [finishWikiReview, commitWikiChecked, hw, hreceipt, hb, found_some, ok_bind, bind_ok, require_ok,
    exists_and_left, exists_const] at h
  obtain ⟨⟨hfew, hreason⟩, -, -, -, ⟨-, hthrough⟩, h⟩ := h
  simp only [publishWiki, bind_ok, require_ok, found_ok, pure_ok, Prod.mk.injEq, checkedAdd_eq_some, exists_and_left,
    exists_const] at h
  obtain ⟨⟨hexpected, -⟩, -, changed, hreview, n', ⟨hlt, -⟩, -⟩ := h
  obtain ⟨hout, hslugs, -, hpages, hsources⟩ := reviewPages_ok hreview
  refine ⟨hfew, hreason, hexpected, hthrough, hslugs, hpages, ?_, ?_⟩
  · rw [hroom, ← hthrough]
    exact hsources
  · rw [hroom]
    by_cases hnil : changed = []
    · left
      rw [hnil, List.nil_append, eq_comm, List.filter_eq_nil_iff] at hout
      intro p hp
      simpa using hout p hp
    · rw [if_neg hnil] at hlt
      exact .inr hlt

/-- With a valid lease, `finish` is accepted exactly for the reviews that may be published. -/
theorem finish_accepted_iff {room principal : String} {tr : WikiTrace} {s : WikiState} {l : WikiLease} {now : Nat}
    (r : Sys.Run wikiMachine (AssignedInOrder room) tr s) (hv : leaseValid s.tables room principal l now = true) :
    ∃ b w, s.tables.batch l.batchId = some b ∧ s.tables.row room = some w ∧ ∀ update,
      (∃ n, (wikiStep s (.call false (.finish room principal update l now))).1 = .ok (.revision n)) ↔
        Publishable s.messages s.tables w b update := by
  obtain ⟨b, w, hb, -, -, -, hw, -, -⟩ := leaseValid_row (run_fenced r) hv
  refine ⟨b, w, hb, hw, fun update => ⟨?_, fun h => ?_⟩⟩
  · rintro ⟨n, h⟩
    obtain ⟨t, hrun, -⟩ := wikiStep_ok h
    obtain ⟨n', hfinish, -⟩ := answer_ok.mp hrun
    exact publishable_of_finish (run_fenced r) hv hb hw hfinish
  · obtain ⟨n, t, hfinish⟩ := finish_of_publishable (run_covered r) (run_fenced r) (run_wellKept r).1
      (run_revisionsFit r) hv hb hw h
    refine ⟨n, ?_⟩
    simp [wikiStep, atomically, WikiCall.run, hfinish, answer, Except.map]

def claimedRun : List (WikiInput × Except WikiError WikiAnswer) × WikiState := wikiMachine.exec (sampleReview.take 4) [] {}

theorem claimedRun_run : Sys.Run wikiMachine (AssignedInOrder "a") claimedRun.1 claimedRun.2 := by
  refine Sys.Run.exec (sampleReview.take 4) ?_ (.nil ⟨List.nodup_nil, by simp, rfl, rfl, rfl⟩)
  refine ⟨?_, ?_, ?_, ?_, trivial⟩
  · intro m h; cases h
  · intro m h _
    cases h
    exact ⟨by decide, by decide⟩
  · intro m h; cases h
  · intro m h; cases h

theorem finish_accepted_iff_sample :
    ∃ b w, claimedRun.2.tables.batch 1 = some b ∧ claimedRun.2.tables.row "a" = some w ∧ ∀ update,
      (∃ n, (wikiStep claimedRun.2 (.call false (.finish "a" "editor" update ⟨1, 1⟩ 5))).1 = .ok (.revision n)) ↔
        Publishable claimedRun.2.messages claimedRun.2.tables w b update :=
  @finish_accepted_iff "a" "editor" _ _ ⟨1, 1⟩ 5 claimedRun_run (by decide)

end Loca
