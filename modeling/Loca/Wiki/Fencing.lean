/-
# `Loca.Wiki.Fencing` — leases, epochs and receipts

One worker at a time may publish a batch, and a batch is published once.  The store keeps
no lock for this: a worker proves its right with the pair (batch, epoch), every claim
raises the epoch, and the acceptance leaves a receipt in the same transaction.

`Fenced` is the invariant of the batch, lease and receipt tables.  It holds from the empty
tables on (`run_fenced`), and everything a worker or an observer can see of the fencing is
read off it.
-/
import Loca.Wiki.Machine

namespace Loca

open Check Table

structure Fenced (t : WikiTables) : Prop where
  wikiKey : (t.wiki.map WikiRow.room).Nodup
  ids : (t.batches.map WikiBatchRow.id).Nodup
  seq : ∀ b ∈ t.batches, b.id ≤ t.batchSeq
  oneActive : ∀ b ∈ t.batches, ∀ b' ∈ t.batches, b.room = b'.room →
    b.status.active = true → b'.status.active = true → b = b'
  attempts : ∀ b ∈ t.batches,
    b.attempts = b.epoch ∧ b.epoch ≤ 3 ∧ (b.status = .queued → b.epoch = 0) ∧
      (b.status = .running → b.epoch ≠ 0)
  leaseKey : (t.leases.map WikiLeaseRow.key).Nodup
  leaseEpoch : ∀ l ∈ t.leases, l.epoch ≠ 0
  lease : ∀ b ∈ t.batches, b.epoch ≠ 0 → ∃ l ∈ t.leases, l.key = (b.id, b.epoch) ∧
    b.leaseExpiresAt ≤ l.startedAt + maxWorkerMs
  published : ∀ r ∈ t.receipts, ∃ b ∈ t.batches, b.id = r.batchId ∧ b.room = r.room ∧
    b.epoch = r.epoch ∧ b.status = .completed
  receiptOnce : (t.receipts.map WikiReceiptRow.batchId).Nodup
  completed : ∀ b ∈ t.batches, b.status = .completed → ∃ r ∈ t.receipts, r.batchId = b.id
  requests : ∀ r ∈ t.receipts,
    r.request.pages.length ≤ commitMaxPages ∧ validReason r.request.reason = true

theorem fenced_empty : Fenced {} := by
  constructor <;> simp

/-! ## Updates of existing batches -/

/-- An update that moves a batch along without starting a new epoch: it never reopens a
closed batch and never completes one. -/
structure KeepsFence (leases : List WikiLeaseRow) (b b' : WikiBatchRow) : Prop where
  id : b'.id = b.id
  room : b'.room = b.room
  epoch : b'.epoch = b.epoch
  attempts : b'.attempts = b.attempts
  unfinished : b.status ≠ .completed ∧ b'.status ≠ .completed
  active : b'.status.active = true → b.status.active = true
  queued : b'.status = .queued → b.status = .queued
  running : b'.status = .running → b.status = .running
  expiry : ∀ l ∈ leases, l.key = (b.id, b.epoch) → b.leaseExpiresAt ≤ l.startedAt + maxWorkerMs →
    b'.leaseExpiresAt ≤ l.startedAt + maxWorkerMs

theorem Fenced.wiki {t : WikiTables} {wiki : List WikiRow} {pages : List WikiPageRow}
    {history : List WikiHistoryRow} (h : Fenced t) (hw : (wiki.map WikiRow.room).Nodup) :
    Fenced { t with wiki, pages, history } :=
  { h with wikiKey := hw }

theorem Fenced.update {t : WikiTables} {p : WikiBatchRow → Bool} {f : WikiBatchRow → WikiBatchRow}
    (h : Fenced t) (hf : ∀ b ∈ t.batches, p b = true → KeepsFence t.leases b (f b)) :
    Fenced { t with batches := updateWhere p f t.batches } := by
  -- every row afterwards comes from one row before, changed or not
  have key : ∀ x ∈ updateWhere p f t.batches, ∃ b ∈ t.batches,
      x = (if p b then f b else b) ∧ (x = b ∨ KeepsFence t.leases b x) := by
    intro x hx
    obtain ⟨b, hb, rfl⟩ := mem_updateWhere.mp hx
    refine ⟨b, hb, rfl, ?_⟩
    by_cases hp : p b = true
    · rw [if_pos hp]; exact .inr (hf b hb hp)
    · rw [if_neg hp]; exact .inl rfl
  have keep : ∀ b ∈ t.batches, b.status = .completed → b ∈ updateWhere p f t.batches := by
    intro b hb hc
    refine mem_updateWhere.mpr ⟨b, hb, ?_⟩
    by_cases hp : p b = true
    · exact absurd hc (hf b hb hp).unfinished.1
    · rw [if_neg hp]
  constructor
  · exact h.wikiKey
  · have hid : (updateWhere p f t.batches).map WikiBatchRow.id = t.batches.map WikiBatchRow.id := by
      unfold updateWhere
      rw [List.map_map]
      apply List.map_congr_left
      intro b hb
      simp only [Function.comp]
      split
      · next hp => exact (hf b hb hp).id
      · rfl
    simpa [hid] using h.ids
  · intro x hx
    obtain ⟨b, hb, -, rfl | hk⟩ := key x hx
    · exact h.seq _ hb
    · exact hk.id ▸ h.seq _ hb
  · intro x hx y hy hroom hax hay
    obtain ⟨b, hb, hxb, hx'⟩ := key x hx
    obtain ⟨c, hc, hyc, hy'⟩ := key y hy
    have hxa : b.room = x.room ∧ b.status.active = true := by
      rcases hx' with rfl | hk
      · exact ⟨rfl, hax⟩
      · exact ⟨hk.room.symm, hk.active hax⟩
    have hya : c.room = y.room ∧ c.status.active = true := by
      rcases hy' with rfl | hk
      · exact ⟨rfl, hay⟩
      · exact ⟨hk.room.symm, hk.active hay⟩
    have hbc := h.oneActive b hb c hc (hxa.1.trans (hroom.trans hya.1.symm)) hxa.2 hya.2
    rw [hxb, hyc, hbc]
  · intro x hx
    obtain ⟨b, hb, -, rfl | hk⟩ := key x hx
    · exact h.attempts _ hb
    · obtain ⟨h₁, h₂, h₃, h₄⟩ := h.attempts b hb
      exact ⟨by rw [hk.attempts, hk.epoch, h₁], hk.epoch ▸ h₂, fun hq => hk.epoch ▸ h₃ (hk.queued hq),
        fun hr => hk.epoch ▸ h₄ (hk.running hr)⟩
  · exact h.leaseKey
  · exact h.leaseEpoch
  · intro x hx hne
    obtain ⟨b, hb, -, rfl | hk⟩ := key x hx
    · exact h.lease _ hb hne
    · obtain ⟨l, hl, hlk, hle⟩ := h.lease b hb (hk.epoch ▸ hne)
      exact ⟨l, hl, by rw [hk.id, hk.epoch]; exact hlk, hk.expiry l hl hlk hle⟩
  · intro r hr
    obtain ⟨b, hb, h₁, h₂, h₃, h₄⟩ := h.published r hr
    exact ⟨b, keep b hb h₄, h₁, h₂, h₃, h₄⟩
  · exact h.receiptOnce
  · intro x hx hc
    obtain ⟨b, hb, -, rfl | hk⟩ := key x hx
    · exact h.completed _ hb hc
    · exact absurd hc hk.unfinished.2
  · exact h.requests

theorem Fenced.cancel {t : WikiTables} (h : Fenced t) (room : String) (p : WikiBatchRow → Bool) :
    Fenced (t.cancel room p) := by
  refine h.update ?_
  intro b _ hp
  simp only [Bool.and_eq_true] at hp
  have ha := hp.1.2
  refine ⟨rfl, rfl, rfl, rfl, ⟨?_, by simp⟩, ?_, ?_, ?_, fun _ _ _ h => h⟩
  · intro hc; rw [hc] at ha; cases ha
  · intro hc; cases hc
  · intro hc; cases hc
  · intro hc; cases hc

theorem Fenced.block {t : WikiTables} (h : Fenced t) (room : String) (now : Nat) :
    Fenced (blockExhausted room now t) := by
  refine h.update ?_
  intro b _ hp
  simp only [Bool.and_eq_true, decide_eq_true_eq] at hp
  have hr : b.status = .running := hp.1.1.2
  refine ⟨rfl, rfl, rfl, rfl, ⟨by simp [hr], by simp⟩, fun _ => by rw [hr]; rfl, ?_, ?_,
    fun _ _ _ h => h⟩
  · intro hc; cases hc
  · intro hc; cases hc

/-- Two batches with one id are one batch. -/
theorem Fenced.eq_of_id {t : WikiTables} (h : Fenced t) {b b' : WikiBatchRow}
    (hb : b ∈ t.batches) (hb' : b' ∈ t.batches) (hid : b.id = b'.id) : b = b' :=
  eq_of_key h.ids hb hb' hid

theorem Fenced.row_eq {t : WikiTables} (h : Fenced t) {room : String} {w w' : WikiRow}
    (hw : t.row room = some w) (hw' : w' ∈ t.wiki) (hr : w'.room = room) : w' = w := by
  obtain ⟨hm, hr'⟩ := WikiTables.row_some hw
  exact eq_of_key h.wikiKey hw' hm (hr.trans hr'.symm)

/-! ## A new batch, a new epoch, an acceptance -/

theorem Fenced.schedule {messages : List MessageRow} {room : String} {now : Nat}
    {t t' : WikiTables} {a : Bool} (h : Fenced t)
    (hs : scheduleWikiReview messages room now t = .ok (a, t')) : Fenced t' := by
  obtain ⟨-, rfl⟩ | ⟨-, w, reason, through, -, -, -, hidle, -, rfl⟩ := scheduleWikiReview_ok hs
  · exact h
  have hfresh : ∀ b ∈ t.batches, b.id ≠ t.batchSeq + 1 := by
    intro b hb hid
    have := h.seq b hb
    omega
  constructor
  · exact h.wikiKey
  · exact nodup_append_new h.ids hfresh
  · intro b hb
    rcases List.mem_append.mp hb with hb | hb
    · exact Nat.le_succ_of_le (h.seq b hb)
    · rw [List.mem_singleton.mp hb]
  · intro b hb b' hb' hroom ha ha'
    rcases List.mem_append.mp hb with hb | hb <;> rcases List.mem_append.mp hb' with hb' | hb'
    · exact h.oneActive b hb b' hb' hroom ha ha'
    · rw [List.mem_singleton.mp hb'] at hroom
      rw [hidle b hb hroom] at ha
      cases ha
    · rw [List.mem_singleton.mp hb] at hroom
      rw [hidle b' hb' hroom.symm] at ha'
      cases ha'
    · rw [List.mem_singleton.mp hb, List.mem_singleton.mp hb']
  · intro b hb
    rcases List.mem_append.mp hb with hb | hb
    · exact h.attempts b hb
    · rw [List.mem_singleton.mp hb]
      exact ⟨rfl, by simp, fun _ => rfl, fun hr => nomatch hr⟩
  · exact h.leaseKey
  · exact h.leaseEpoch
  · intro b hb hne
    rcases List.mem_append.mp hb with hb | hb
    · exact h.lease b hb hne
    · rw [List.mem_singleton.mp hb] at hne
      exact absurd rfl hne
  · intro r hr
    obtain ⟨b, hb, h'⟩ := h.published r hr
    exact ⟨b, List.mem_append_left _ hb, h'⟩
  · exact h.receiptOnce
  · intro b hb hc
    rcases List.mem_append.mp hb with hb | hb
    · exact h.completed b hb hc
    · rw [List.mem_singleton.mp hb] at hc
      cases hc
  · exact h.requests

/-- After exhausted batches were set aside, a claimable batch has an attempt left. -/
theorem claimable_attempts {t : WikiTables} (h : Fenced t) {room principal : String} {now : Nat}
    {b : WikiBatchRow} (hb : b ∈ (blockExhausted room now t).batches)
    (hc : claimable room principal now b = true) :
    b.epoch < 3 ∧ b.room = room ∧ b.editorPrincipal = principal ∧ b.status.active = true ∧
      b.status ≠ .completed := by
  simp only [claimable, Bool.and_eq_true, Bool.or_eq_true, decide_eq_true_eq] at hc
  obtain ⟨⟨hr, he⟩, hq | ⟨hrun, hexp⟩⟩ := hc
  · have := ((h.block room now).attempts b hb).2.2.1 hq
    exact ⟨by omega, hr, he, by rw [hq]; rfl, by simp [hq]⟩
  · refine ⟨?_, hr, he, by rw [hrun]; rfl, by simp [hrun]⟩
    obtain ⟨b₀, hb₀, rfl⟩ := mem_updateWhere.mp hb
    by_contra hge
    split at hge
    · next hp => simp only [hp, if_true] at hrun; cases hrun
    · next hp =>
      simp only [hp, Bool.false_eq_true, if_false] at hr hexp hrun
      have ha := (h.attempts b₀ hb₀).1
      apply hp
      simp only [hr, hrun, hexp, Bool.and_eq_true, decide_eq_true_eq]
      exact ⟨by simp, by omega⟩

theorem leaseMs_le : leaseMs ≤ maxWorkerMs := by decide

theorem Fenced.claim {messages : List MessageRow} {room principal : String} {now : Nat}
    {t t' : WikiTables} {a : Option WikiBatch} (h : Fenced t)
    (hs : claimWikiReview messages room principal now t = .ok (a, t')) : Fenced t' := by
  obtain ⟨w, -, -, ⟨-, rfl | rfl⟩ | ⟨-, b, hb, hc, -, hlease, -, rfl⟩⟩ := claimWikiReview_ok hs
  · exact h
  · exact h.block room now
  have hB := h.block room now
  obtain ⟨hep, -, -, hact, hnc⟩ := claimable_attempts h hb hc
  -- the claimed batch is the only row with its id
  have key : ∀ x ∈ updateWhere (fun x => x.id = b.id) (fun x =>
      { x with status := .running, epoch := b.epoch + 1, attempts := x.attempts + 1,
               leaseExpiresAt := now + leaseMs }) (blockExhausted room now t).batches,
      (x ∈ (blockExhausted room now t).batches ∧ x.id ≠ b.id) ∨
      x = { b with status := .running, epoch := b.epoch + 1, attempts := b.attempts + 1,
                   leaseExpiresAt := now + leaseMs } := by
    intro x hx
    obtain ⟨y, hy, rfl⟩ := mem_updateWhere.mp hx
    by_cases hid : y.id = b.id
    · obtain rfl := hB.eq_of_id hy hb hid
      exact .inr (by simp)
    · exact .inl (by simp [hid, hy])
  have hold : ∀ x ∈ (blockExhausted room now t).batches, x.id ≠ b.id →
      x ∈ updateWhere (fun x => x.id = b.id) (fun x =>
        { x with status := .running, epoch := b.epoch + 1, attempts := x.attempts + 1,
                 leaseExpiresAt := now + leaseMs }) (blockExhausted room now t).batches := by
    intro x hx hid
    exact mem_updateWhere.mpr ⟨x, hx, by simp [hid]⟩
  constructor
  · exact h.wikiKey
  · exact nodup_updateWhere (fun _ => rfl) hB.ids
  · intro x hx
    rcases key x hx with ⟨hx, -⟩ | rfl
    · exact hB.seq x hx
    · exact hB.seq b hb
  · intro x hx y hy hroom hax hay
    rcases key x hx with ⟨hx, hxb⟩ | rfl <;> rcases key y hy with ⟨hy, hyb⟩ | rfl
    · exact hB.oneActive x hx y hy hroom hax hay
    · exact absurd (congrArg WikiBatchRow.id (hB.oneActive x hx b hb hroom hax hact)) hxb
    · exact absurd (congrArg WikiBatchRow.id (hB.oneActive y hy b hb hroom.symm hay hact)) hyb
    · rfl
  · intro x hx
    rcases key x hx with ⟨hx, -⟩ | rfl
    · exact hB.attempts x hx
    · have := (hB.attempts b hb).1
      exact ⟨by simp [this], hep, fun hq => (nomatch hq), fun _ => by simp⟩
  · exact nodup_append_new h.leaseKey hlease
  · intro l hl
    rcases List.mem_append.mp hl with hl | hl
    · exact h.leaseEpoch l hl
    · rw [List.mem_singleton.mp hl]
      exact Nat.succ_ne_zero _
  · intro x hx hne
    rcases key x hx with ⟨hx, -⟩ | rfl
    · obtain ⟨l, hl, hk⟩ := hB.lease x hx hne
      exact ⟨l, List.mem_append_left _ hl, hk⟩
    · exact ⟨_, List.mem_append_right _ (List.mem_singleton.mpr rfl), rfl,
        Nat.add_le_add_left leaseMs_le now⟩
  · intro r hr
    obtain ⟨x, hx, h₁, h₂, h₃, h₄⟩ := hB.published r hr
    refine ⟨x, hold x hx ?_, h₁, h₂, h₃, h₄⟩
    intro hid
    exact hnc (hB.eq_of_id hx hb hid ▸ h₄)
  · exact h.receiptOnce
  · intro x hx hcomp
    rcases key x hx with ⟨hx, -⟩ | rfl
    · exact hB.completed x hx hcomp
    · cases hcomp
  · exact h.requests

/-- A valid lease names the one batch with its id, and that batch is running. -/
theorem Fenced.held {t : WikiTables} (h : Fenced t) {room principal : String} {l : WikiLease}
    {now : Nat} (hv : leaseValid t room principal l now = true) {b : WikiBatchRow}
    (hb : b ∈ t.batches) (hid : b.id = l.batchId) :
    b.epoch = l.epoch ∧ b.room = room ∧ b.editorPrincipal = principal ∧ b.status = .running ∧
      now < b.leaseExpiresAt := by
  obtain ⟨b', hb', h₁, h₂, h₃, h₄, h₅, h₆, -⟩ := leaseValid_iff.mp hv
  obtain rfl := h.eq_of_id hb hb' (hid.trans h₁.symm)
  exact ⟨h₂, h₃, h₄, h₅, h₆⟩

theorem Fenced.renew {room principal : String} {l : WikiLease} {now n : Nat} {t t' : WikiTables}
    (h : Fenced t) (hs : renewWikiReview room principal l now t = .ok (n, t')) : Fenced t' := by
  obtain ⟨hv, lease, b, hl, hb, rfl, rfl⟩ := renewWikiReview_ok hs
  refine h.update ?_
  intro x hx hp
  simp only [decide_eq_true_eq] at hp
  obtain ⟨hep, -, -, hrun, -⟩ := h.held hv hx hp
  obtain ⟨hlm, hlb, hle⟩ := WikiTables.lease_some hl
  refine ⟨rfl, rfl, rfl, rfl, by simp [hrun], id, id, id, ?_⟩
  intro l' hl' hk _
  have hkey : lease.key = l'.key := by
    rw [hk, WikiLeaseRow.key, hlb, hle, hp, hep]
  rw [← eq_of_key h.leaseKey hlm hl' hkey]
  exact Nat.min_le_right _ _

theorem Fenced.complete {t : WikiTables} (h : Fenced t) {room principal : String}
    {update : WikiCommit} {now n : Nat} {l : WikiLease} {w : WikiRow} {b : WikiBatchRow}
    (hshape : update.pages.length ≤ commitMaxPages ∧ validReason update.reason = true)
    (hl : LeaseHeld room principal update now l w b t) :
    Fenced { t with
      receipts := t.receipts ++ [⟨room, l.batchId, l.epoch, principal, update, n⟩]
      batches := updateWhere (fun b => b.id = l.batchId)
        (fun b => { b with status := .completed }) t.batches } := by
  obtain ⟨hep, hroom, -, hrun, -⟩ := h.held hl.valid hl.mem hl.id
  have key : ∀ x ∈ updateWhere (fun b : WikiBatchRow => b.id = l.batchId)
      (fun b => { b with status := .completed }) t.batches,
      (x ∈ t.batches ∧ x.id ≠ b.id) ∨ x = { b with status := .completed } := by
    intro x hx
    obtain ⟨y, hy, rfl⟩ := mem_updateWhere.mp hx
    by_cases hid : y.id = l.batchId
    · obtain rfl := h.eq_of_id hy hl.mem (hid.trans hl.id.symm)
      exact .inr (by simp [hid])
    · exact .inl (by simp [hid, hy, hl.id])
  have hnew : { b with status := .completed } ∈ updateWhere (fun b : WikiBatchRow => b.id = l.batchId)
      (fun b => { b with status := .completed }) t.batches :=
    mem_updateWhere.mpr ⟨b, hl.mem, by simp [hl.id]⟩
  constructor
  · exact h.wikiKey
  · exact nodup_updateWhere (fun _ => rfl) h.ids
  · intro x hx
    rcases key x hx with ⟨hx, -⟩ | rfl
    · exact h.seq x hx
    · exact h.seq b hl.mem
  · intro x hx y hy hr hax hay
    rcases key x hx with ⟨hx, -⟩ | rfl
    · rcases key y hy with ⟨hy, -⟩ | rfl
      · exact h.oneActive x hx y hy hr hax hay
      · cases hay
    · cases hax
  · intro x hx
    rcases key x hx with ⟨hx, -⟩ | rfl
    · exact h.attempts x hx
    · exact ⟨(h.attempts b hl.mem).1, (h.attempts b hl.mem).2.1, fun hq => (nomatch hq),
        fun hr => (nomatch hr)⟩
  · exact h.leaseKey
  · exact h.leaseEpoch
  · intro x hx hne
    rcases key x hx with ⟨hx, -⟩ | rfl
    · exact h.lease x hx hne
    · exact h.lease b hl.mem hne
  · intro r hr
    rcases List.mem_append.mp hr with hr | hr
    · obtain ⟨x, hx, h₁, h₂, h₃, h₄⟩ := h.published r hr
      refine ⟨x, mem_updateWhere.mpr ⟨x, hx, ?_⟩, h₁, h₂, h₃, h₄⟩
      by_cases hid : x.id = l.batchId
      · rw [h.eq_of_id hx hl.mem (hid.trans hl.id.symm), hrun] at h₄
        cases h₄
      · simp [hid]
    · rw [List.mem_singleton.mp hr]
      exact ⟨_, hnew, hl.id, hroom, hep, rfl⟩
  · refine nodup_append_new h.receiptOnce ?_
    -- a receipt for this batch would mean that it is completed, but it is running
    intro r hr hid
    obtain ⟨x, hx, h₁, -, -, h₄⟩ := h.published r hr
    rw [h.eq_of_id hx hl.mem (h₁.trans (hid.trans hl.id.symm)), hrun] at h₄
    cases h₄
  · intro x hx hc
    rcases key x hx with ⟨hx, -⟩ | rfl
    · obtain ⟨r, hr, hid⟩ := h.completed x hx hc
      exact ⟨r, List.mem_append_left _ hr, hid⟩
    · exact ⟨_, List.mem_append_right _ (List.mem_singleton.mpr rfl), hl.id.symm⟩
  · intro r hr
    rcases List.mem_append.mp hr with hr | hr
    · exact h.requests r hr
    · rw [List.mem_singleton.mp hr]
      exact hshape

/-! ## Every call -/

theorem Fenced.commitChecked {messages : List MessageRow} {room principal : String}
    {update : WikiCommit} {now n : Nat} {lease : Option WikiLease} {human : Bool}
    {t t' : WikiTables} (h : Fenced t)
    (hs : commitWikiChecked messages room principal update now lease human t = .ok (n, t')) :
    Fenced t' := by
  obtain ⟨hshape, w, -, -, -, ⟨l, r, -, -, -, -, -, rfl⟩ | ⟨changed, hp, hlease⟩⟩ :=
    commitWikiChecked_ok hs
  · exact h
  have ht' : t' = { { t with receipts := t'.receipts, batches := t'.batches } with
      wiki := t'.wiki, pages := t'.pages, history := t'.history } := by
    rw [← hp.leases, ← hp.batchSeq]
  have hwiki : (t'.wiki.map WikiRow.room).Nodup := by
    rw [hp.wiki]
    exact nodup_updateWhere (fun _ => rfl) h.wikiKey
  rw [ht']
  refine Fenced.wiki ?_ hwiki
  rcases hp.batches with ⟨l, hl, hrec, hbat⟩ | ⟨-, hrec, ⟨-, -, hbat⟩ | ⟨-, -, hbat⟩ | ⟨-, hbat⟩⟩
  · obtain ⟨b, hb⟩ := hlease l hl
    rw [hrec, hbat]
    exact h.complete hshape hb
  · rw [hrec, hbat]
    exact h
  · rw [hrec, hbat]
    exact h.cancel room _
  · rw [hrec, hbat]
    exact h.cancel room _

theorem Fenced.run {messages : List MessageRow} {c : WikiCall} {a : WikiAnswer}
    {t t' : WikiTables} (h : Fenced t) (hs : c.run messages t = .ok (a, t')) : Fenced t' := by
  cases c with
  | configure room editor enabled interval =>
      obtain ⟨u, hs, -⟩ := answer_ok.mp hs
      obtain ⟨-, -, -, rfl⟩ := configureWiki_ok hs
      exact (h.cancel room _).wiki (nodup_insertOrUpdate (fun _ => rfl) h.wikiKey)
  | schedule room now =>
      obtain ⟨u, hs, -⟩ := answer_ok.mp hs
      exact h.schedule hs
  | claim room principal now =>
      obtain ⟨u, hs, -⟩ := answer_ok.mp hs
      exact h.claim hs
  | renew room principal l now =>
      obtain ⟨u, hs, -⟩ := answer_ok.mp hs
      exact h.renew hs
  | finish room principal update l now =>
      obtain ⟨u, hs, -⟩ := answer_ok.mp hs
      exact h.commitChecked hs
  | commit room principal update now =>
      obtain ⟨u, hs, -⟩ := answer_ok.mp hs
      exact h.commitChecked hs
  | edit room actor slug page cursor now =>
      obtain ⟨u, hs, -⟩ := answer_ok.mp hs
      exact h.commitChecked hs
  | remove room principal slug removal now =>
      obtain ⟨u, hs, -⟩ := answer_ok.mp hs
      obtain ⟨-, -, w, page, hist, -, -, -, -, -, -, -, -, rfl⟩ := removeWikiPage_ok hs
      refine Fenced.cancel (Fenced.wiki h ?_) room _
      exact nodup_updateWhere (fun _ => rfl) h.wikiKey
  | cancel room =>
      obtain ⟨u, hs, -⟩ := answer_ok.mp hs
      simp only [cancelWikiReview, pure_ok, Prod.mk.injEq] at hs
      exact hs.2 ▸ h.cancel room _

theorem run_fenced {ok : WikiState → WikiInput → Prop}
    {tr : List (WikiInput × Except WikiError WikiAnswer)} {s : WikiState}
    (r : Sys.Run wikiMachine ok tr s) : Fenced s.tables :=
  tables_invariant fenced_empty (fun _ _ _ _ _ h hs => h.run hs) r

/-! ## What the answers say

`claimsOf` counts the leases handed out for a batch.  `Answered` ties every answer given so
far to the tables as they are now. -/

abbrev WikiTrace := List (WikiInput × Except WikiError WikiAnswer)

def claimsOf (id : Nat) (tr : WikiTrace) : Nat :=
  tr.countP fun e =>
    match e.2 with
    | .ok (.claimed (some b)) => b.lease.batchId = id
    | _ => false

structure Answered (tr : WikiTrace) (t : WikiTables) : Prop where
  claims : ∀ b ∈ t.batches, claimsOf b.id tr = b.epoch
  noClaim : ∀ id, (∀ b ∈ t.batches, b.id ≠ id) → claimsOf id tr = 0
  leased : ∀ room p now b,
    (WikiInput.call false (.claim room p now), Except.ok (WikiAnswer.claimed (some b))) ∈ tr →
      ⟨b.lease.batchId, b.lease.epoch, now⟩ ∈ t.leases
  accepted : ∀ room p u l now n,
    (WikiInput.call false (.finish room p u l now), Except.ok (WikiAnswer.revision n)) ∈ tr →
      ⟨room, l.batchId, l.epoch, p, u, n⟩ ∈ t.receipts

/-- No epoch begins: batches keep their ids and epochs, and a new one starts at epoch 0. -/
structure EpochsKept (t t' : WikiTables) : Prop where
  epoch : ∀ b' ∈ t'.batches, (∃ b ∈ t.batches, b.id = b'.id ∧ b.epoch = b'.epoch) ∨
    (b'.epoch = 0 ∧ ∀ b ∈ t.batches, b.id ≠ b'.id)
  ids : ∀ b ∈ t.batches, ∃ b' ∈ t'.batches, b'.id = b.id

theorem epochsKept_of_update {t t' : WikiTables} {p : WikiBatchRow → Bool}
    {f : WikiBatchRow → WikiBatchRow} (hb : t'.batches = updateWhere p f t.batches)
    (hf : ∀ b, (f b).id = b.id ∧ (f b).epoch = b.epoch) : EpochsKept t t' := by
  have hsame : ∀ b, (if p b then f b else b).id = b.id ∧ (if p b then f b else b).epoch = b.epoch := by
    intro b
    split
    · exact hf b
    · exact ⟨rfl, rfl⟩
  refine ⟨?_, ?_⟩
  · intro b' hb'
    rw [hb] at hb'
    obtain ⟨b, hbm, rfl⟩ := mem_updateWhere.mp hb'
    exact .inl ⟨b, hbm, (hsame b).1.symm, (hsame b).2.symm⟩
  · intro b hbm
    refine ⟨_, ?_, (hsame b).1⟩
    rw [hb]
    exact mem_updateWhere.mpr ⟨b, hbm, rfl⟩

theorem EpochsKept.of_eq {t t' : WikiTables} (h : t'.batches = t.batches) : EpochsKept t t' :=
  ⟨fun b hb => .inl ⟨b, h ▸ hb, rfl, rfl⟩, fun b hb => ⟨b, h.symm ▸ hb, rfl⟩⟩

/-- A lease is handed out: one batch moves to its next epoch. -/
structure EpochBegun (t t' : WikiTables) (b : WikiBatchRow) (now : Nat) (wb : WikiBatch) :
    Prop where
  lease : wb.lease = ⟨b.id, b.epoch + 1⟩
  old : ∃ b₀ ∈ t.batches, b₀.id = b.id ∧ b₀.epoch = b.epoch
  epoch : ∀ b' ∈ t'.batches, (b'.id = b.id ∧ b'.epoch = b.epoch + 1) ∨
    (b'.id ≠ b.id ∧ ∃ b₀ ∈ t.batches, b₀.id = b'.id ∧ b₀.epoch = b'.epoch)
  ids : ∀ b₀ ∈ t.batches, ∃ b' ∈ t'.batches, b'.id = b₀.id
  leases : t'.leases = t.leases ++ [⟨b.id, b.epoch + 1, now⟩]
  receipts : t'.receipts = t.receipts

theorem commitWikiChecked_receipts {messages : List MessageRow} {room principal : String}
    {update : WikiCommit} {now n : Nat} {lease : Option WikiLease} {human : Bool}
    {t t' : WikiTables}
    (hs : commitWikiChecked messages room principal update now lease human t = .ok (n, t')) :
    t'.leases = t.leases ∧
    (t'.receipts = t.receipts ∨
      ∃ l, lease = some l ∧ t'.receipts = t.receipts ++ [⟨room, l.batchId, l.epoch, principal, update, n⟩]) ∧
    (∀ l, lease = some l → ⟨room, l.batchId, l.epoch, principal, update, n⟩ ∈ t'.receipts) := by
  obtain ⟨-, w, -, -, -, ⟨l, r, rfl, hr, rfl, rfl, rfl, rfl⟩ | ⟨changed, hp, -⟩⟩ :=
    commitWikiChecked_ok hs
  · obtain ⟨hm, rfl, hb, he⟩ := WikiTables.receipt_some hr
    refine ⟨rfl, .inl rfl, ?_⟩
    intro l' hl
    cases hl
    rw [← hb, ← he]
    exact hm
  · refine ⟨hp.leases, ?_, ?_⟩
    · rcases hp.batches with ⟨l, hl, hrec, -⟩ | ⟨-, hrec, -⟩
      · exact .inr ⟨l, hl, hrec⟩
      · exact .inl hrec
    · intro l hl
      rcases hp.batches with ⟨l', hl', hrec, -⟩ | ⟨hnone, -⟩
      · rw [hl] at hl'
        cases hl'
        simp [hrec]
      · rw [hl] at hnone
        cases hnone

theorem commitWikiChecked_epochs {messages : List MessageRow} {room principal : String}
    {update : WikiCommit} {now n : Nat} {lease : Option WikiLease} {human : Bool}
    {t t' : WikiTables}
    (hs : commitWikiChecked messages room principal update now lease human t = .ok (n, t')) :
    EpochsKept t t' := by
  obtain ⟨-, w, -, -, -, ⟨l, r, -, -, -, -, -, rfl⟩ | ⟨changed, hp, -⟩⟩ := commitWikiChecked_ok hs
  · exact .of_eq rfl
  rcases hp.batches with ⟨l, -, -, hb⟩ | ⟨-, -, ⟨-, -, hb⟩ | ⟨-, -, hb⟩ | ⟨-, hb⟩⟩
  · exact epochsKept_of_update hb fun _ => ⟨rfl, rfl⟩
  · exact .of_eq hb
  · exact epochsKept_of_update hb fun _ => ⟨rfl, rfl⟩
  · exact epochsKept_of_update hb fun _ => ⟨rfl, rfl⟩

theorem claimWikiReview_epochs {messages : List MessageRow} {room principal : String}
    {now : Nat} {t t' : WikiTables} {a : Option WikiBatch} (h : Fenced t)
    (hs : claimWikiReview messages room principal now t = .ok (a, t')) :
    (a = none ∧ EpochsKept t t' ∧ t'.leases = t.leases ∧ t'.receipts = t.receipts) ∨
    (∃ b wb, a = some wb ∧ EpochBegun t t' b now wb) := by
  have hblock : EpochsKept t (blockExhausted room now t) :=
    epochsKept_of_update rfl fun _ => ⟨rfl, rfl⟩
  obtain ⟨w, -, -, ⟨rfl, rfl | rfl⟩ | ⟨-, b, hb, -, -, -, rfl, rfl⟩⟩ := claimWikiReview_ok hs
  · exact .inl ⟨rfl, .of_eq rfl, rfl, rfl⟩
  · exact .inl ⟨rfl, hblock, rfl, rfl⟩
  have hold : ∀ x ∈ (blockExhausted room now t).batches,
      ∃ b₀ ∈ t.batches, b₀.id = x.id ∧ b₀.epoch = x.epoch := by
    intro x hx
    obtain ⟨y, hy, rfl⟩ := mem_updateWhere.mp hx
    refine ⟨y, hy, ?_⟩
    split <;> exact ⟨rfl, rfl⟩
  refine .inr ⟨b, _, rfl, rfl, hold b hb, ?_, ?_, rfl, rfl⟩
  · intro b' hb'
    obtain ⟨x, hx, rfl⟩ := mem_updateWhere.mp hb'
    by_cases hid : x.id = b.id
    · exact .inl (by simp [hid])
    · exact .inr (by simpa [hid] using hold x hx)
  · intro b₀ hb₀
    obtain ⟨x, hx, hid⟩ := hblock.ids b₀ hb₀
    refine ⟨_, mem_updateWhere.mpr ⟨x, hx, rfl⟩, ?_⟩
    split <;> exact hid

theorem scheduleWikiReview_epochs {messages : List MessageRow} {room : String} {now : Nat}
    {t t' : WikiTables} {a : Bool} (h : Fenced t)
    (hs : scheduleWikiReview messages room now t = .ok (a, t')) :
    EpochsKept t t' ∧ t'.leases = t.leases ∧ t'.receipts = t.receipts := by
  obtain ⟨-, rfl⟩ | ⟨-, w, reason, through, -, -, -, -, -, rfl⟩ := scheduleWikiReview_ok hs
  · exact ⟨.of_eq rfl, rfl, rfl⟩
  refine ⟨⟨?_, ?_⟩, rfl, rfl⟩
  · intro b' hb'
    rcases List.mem_append.mp hb' with hb' | hb'
    · exact .inl ⟨b', hb', rfl, rfl⟩
    · rw [List.mem_singleton.mp hb']
      refine .inr ⟨rfl, ?_⟩
      intro b hb hid
      have := h.seq b hb
      simp only at hid
      omega
  · intro b hb
    exact ⟨b, List.mem_append_left _ hb, rfl⟩

/-- What a successful call did to epochs, leases and receipts. -/
theorem run_epochs {messages : List MessageRow} {c : WikiCall} {a : WikiAnswer}
    {t t' : WikiTables} (h : Fenced t) (hs : c.run messages t = .ok (a, t')) :
    ((∀ wb, a ≠ .claimed (some wb)) ∧ EpochsKept t t' ∧ t'.leases = t.leases ∧
      (t'.receipts = t.receipts ∨ ∃ room p u l now n, c = .finish room p u l now ∧
        a = .revision n ∧ t'.receipts = t.receipts ++ [⟨room, l.batchId, l.epoch, p, u, n⟩]) ∧
      (∀ room p u l now n, c = .finish room p u l now → a = .revision n →
        ⟨room, l.batchId, l.epoch, p, u, n⟩ ∈ t'.receipts)) ∨
    (∃ room p now b wb, c = .claim room p now ∧ a = .claimed (some wb) ∧
      EpochBegun t t' b now wb) := by
  cases c with
  | configure room editor enabled interval =>
      obtain ⟨u, hc, rfl⟩ := answer_ok.mp hs
      obtain ⟨-, -, -, rfl⟩ := configureWiki_ok hc
      exact .inl ⟨by simp, epochsKept_of_update rfl fun _ => ⟨rfl, rfl⟩, rfl, .inl rfl, by simp⟩
  | schedule room now =>
      obtain ⟨u, hc, rfl⟩ := answer_ok.mp hs
      obtain ⟨h₁, h₂, h₃⟩ := scheduleWikiReview_epochs h hc
      exact .inl ⟨by simp, h₁, h₂, .inl h₃, by simp⟩
  | claim room principal now =>
      obtain ⟨u, hc, rfl⟩ := answer_ok.mp hs
      obtain ⟨rfl, h₁, h₂, h₃⟩ | ⟨b, wb, rfl, hb⟩ := claimWikiReview_epochs h hc
      · exact .inl ⟨by simp, h₁, h₂, .inl h₃, by simp⟩
      · exact .inr ⟨room, principal, now, b, wb, rfl, rfl, hb⟩
  | renew room principal l now =>
      obtain ⟨u, hc, rfl⟩ := answer_ok.mp hs
      obtain ⟨-, lease, b, -, -, -, rfl⟩ := renewWikiReview_ok hc
      exact .inl ⟨by simp, epochsKept_of_update rfl fun _ => ⟨rfl, rfl⟩, rfl, .inl rfl, by simp⟩
  | finish room principal update l now =>
      obtain ⟨n, hc, rfl⟩ := answer_ok.mp hs
      obtain ⟨hl, hr, hm⟩ := commitWikiChecked_receipts hc
      refine .inl ⟨by simp, commitWikiChecked_epochs hc, hl, ?_, ?_⟩
      · rcases hr with hr | ⟨l', hl', hr⟩
        · exact .inl hr
        · cases hl'
          exact .inr ⟨_, _, _, _, _, _, rfl, rfl, hr⟩
      · intro room' p' u' l' now' n' he ha
        cases he
        cases ha
        exact hm l rfl
  | commit room principal update now =>
      obtain ⟨n, hc, rfl⟩ := answer_ok.mp hs
      obtain ⟨hl, hr | ⟨l, hnone, -⟩, -⟩ := commitWikiChecked_receipts hc
      · exact .inl ⟨by simp, commitWikiChecked_epochs hc, hl, .inl hr, by simp⟩
      · cases hnone
  | edit room actor slug page cursor now =>
      obtain ⟨n, hc, rfl⟩ := answer_ok.mp hs
      obtain ⟨hl, hr | ⟨l, hnone, -⟩, -⟩ := commitWikiChecked_receipts hc
      · exact .inl ⟨by simp, commitWikiChecked_epochs hc, hl, .inl hr, by simp⟩
      · cases hnone
  | remove room principal slug removal now =>
      obtain ⟨n, hc, rfl⟩ := answer_ok.mp hs
      obtain ⟨-, -, w, page, hist, -, -, -, -, -, -, -, -, rfl⟩ := removeWikiPage_ok hc
      exact .inl ⟨by simp, epochsKept_of_update rfl fun _ => ⟨rfl, rfl⟩, rfl, .inl rfl, by simp⟩
  | cancel room =>
      obtain ⟨u, hc, rfl⟩ := answer_ok.mp hs
      simp only [cancelWikiReview, pure_ok, Prod.mk.injEq] at hc
      obtain ⟨-, rfl⟩ := hc
      exact .inl ⟨by simp, epochsKept_of_update rfl fun _ => ⟨rfl, rfl⟩, rfl, .inl rfl, by simp⟩

/-! ## The trace -/

theorem claimsOf_cons_other {id : Nat} {i : WikiInput} {o : Except WikiError WikiAnswer}
    {tr : WikiTrace} (h : ∀ wb, o ≠ .ok (.claimed (some wb))) :
    claimsOf id ((i, o) :: tr) = claimsOf id tr := by
  unfold claimsOf
  rw [List.countP_cons_of_neg]
  split
  · next b hb => exact absurd hb (h b)
  · simp

theorem claimsOf_cons_claim (id : Nat) (i : WikiInput) (wb : WikiBatch) (tr : WikiTrace) :
    claimsOf id ((i, .ok (.claimed (some wb))) :: tr) =
      claimsOf id tr + if wb.lease.batchId = id then 1 else 0 := by
  simp [claimsOf, List.countP_cons]

/-- A step that changes no batch, lease or receipt and hands out no lease. -/
theorem Answered.quiet {tr : WikiTrace} {t : WikiTables} {i : WikiInput}
    {o : Except WikiError WikiAnswer} (h : Answered tr t)
    (ho : (∃ e, o = .error e) ∨ (∀ f c, i ≠ .call f c) ∧ o = .ok .done) :
    Answered ((i, o) :: tr) t := by
  have hno : ∀ wb, o ≠ .ok (.claimed (some wb)) := by
    rcases ho with ⟨e, rfl⟩ | ⟨-, rfl⟩ <;> simp
  have hnf : ∀ n, (∀ f c, i ≠ .call f c) ∨ o ≠ .ok (.revision n) := by
    intro n
    rcases ho with ⟨e, rfl⟩ | ⟨hi, -⟩
    · exact .inr (by simp)
    · exact .inl hi
  constructor
  · intro b hb
    rw [claimsOf_cons_other hno]
    exact h.claims b hb
  · intro id hid
    rw [claimsOf_cons_other hno]
    exact h.noClaim id hid
  · intro room p now b hm
    rcases List.mem_cons.mp hm with he | hm
    · exact absurd (Prod.mk.inj he).2.symm (hno b)
    · exact h.leased room p now b hm
  · intro room p u l now n hm
    rcases List.mem_cons.mp hm with he | hm
    · obtain ⟨rfl, rfl⟩ := Prod.mk.inj he
      rcases hnf n with hi | hi
      · exact absurd rfl (hi _ _)
      · exact absurd rfl hi
    · exact h.accepted room p u l now n hm

theorem Answered.call {messages : List MessageRow} {tr : WikiTrace} {c : WikiCall}
    {a : WikiAnswer} {t t' : WikiTables} (h : Answered tr t) (hf : Fenced t)
    (hs : c.run messages t = .ok (a, t')) :
    Answered ((.call false c, .ok a) :: tr) t' := by
  rcases run_epochs hf hs with ⟨hno, hep, hl, hr, hacc⟩ | ⟨room, p, now, b, wb, rfl, rfl, hb⟩
  · have hno' : ∀ wb, (Except.ok a : Except WikiError WikiAnswer) ≠ .ok (.claimed (some wb)) := by
      intro wb he
      exact hno wb (Except.ok.inj he)
    have hrsub : ∀ r ∈ t.receipts, r ∈ t'.receipts := by
      intro r hr'
      rcases hr with hr | ⟨_, _, _, _, _, _, -, -, hr⟩
      · exact hr ▸ hr'
      · exact hr ▸ List.mem_append_left _ hr'
    constructor
    · intro b' hb'
      rw [claimsOf_cons_other hno']
      rcases hep.epoch b' hb' with ⟨b, hb, hid, he⟩ | ⟨he, hnew⟩
      · rw [← hid, ← he]
        exact h.claims b hb
      · rw [he]
        exact h.noClaim b'.id hnew
    · intro id hid
      rw [claimsOf_cons_other hno']
      refine h.noClaim id ?_
      intro b hb he
      obtain ⟨b', hb', hid'⟩ := hep.ids b hb
      exact hid b' hb' (hid'.trans he)
    · intro room p now b hm
      rcases List.mem_cons.mp hm with he | hm
      · exact absurd (Prod.mk.inj he).2.symm (hno' b)
      · exact hl ▸ h.leased room p now b hm
    · intro room p u l now n hm
      rcases List.mem_cons.mp hm with he | hm
      · obtain ⟨hc, ha⟩ := Prod.mk.inj he
        cases hc
        cases ha
        exact hacc room p u l now n rfl rfl
      · exact hrsub _ (h.accepted room p u l now n hm)
  · constructor
    · intro b' hb'
      rw [claimsOf_cons_claim, hb.lease]
      rcases hb.epoch b' hb' with ⟨hid, he⟩ | ⟨hid, b₀, hb₀, hid₀, he₀⟩
      · obtain ⟨b₀, hb₀, hid₀, he₀⟩ := hb.old
        rw [he, hid, ← hid₀, h.claims b₀ hb₀, he₀]
        simp
      · rw [if_neg (Ne.symm hid), ← hid₀, ← he₀]
        exact h.claims b₀ hb₀
    · intro id hid
      obtain ⟨b₀, hb₀, hid₀, -⟩ := hb.old
      obtain ⟨b', hb', hid'⟩ := hb.ids b₀ hb₀
      rw [claimsOf_cons_claim, hb.lease, if_neg]
      · refine h.noClaim id ?_
        intro b hbm he
        obtain ⟨b'', hb'', hid''⟩ := hb.ids b hbm
        exact hid b'' hb'' (hid''.trans he)
      · intro he
        exact hid b' hb' (hid'.trans (hid₀.trans he))
    · intro room' p' now' b' hm
      rw [hb.leases]
      rcases List.mem_cons.mp hm with he | hm
      · obtain ⟨hc, ha⟩ := Prod.mk.inj he
        cases hc
        cases ha
        rw [hb.lease]
        simp
      · exact List.mem_append_left _ (h.leased room' p' now' b' hm)
    · intro room' p' u l now' n hm
      rw [hb.receipts]
      rcases List.mem_cons.mp hm with he | hm
      · cases (Prod.mk.inj he).1
      · exact h.accepted room' p' u l now' n hm

theorem run_answered {ok : WikiState → WikiInput → Prop} {tr : WikiTrace} {s : WikiState}
    (r : Sys.Run wikiMachine ok tr s) : Answered tr s.tables := by
  refine Sys.Run.induction (P := fun tr s => Answered tr s.tables) ?_ ?_ r
  · rintro s ⟨-, -, ht, -⟩
    rw [ht]
    constructor <;> simp [claimsOf]
  · intro tr s i hr h _
    have hf := run_fenced hr
    show Answered ((i, (wikiStep s i).1) :: tr) (wikiStep s i).2.tables
    cases i with
    | restart => exact h.quiet (.inr ⟨by simp, rfl⟩)
    | post m =>
        cases hi : insertNew MessageRow.id m s.messages with
        | none => simpa [wikiStep, hi] using h.quiet (i := .post m) (.inl ⟨_, rfl⟩)
        | some ms => simpa [wikiStep, hi] using h.quiet (i := .post m) (.inr ⟨by simp, rfl⟩)
    | call failed c =>
        cases failed with
        | true => exact h.quiet (.inl ⟨_, rfl⟩)
        | false =>
            cases hc : c.run s.messages s.tables with
            | error e =>
                simpa [wikiStep, atomically, hc] using h.quiet (i := .call false c) (.inl ⟨e, rfl⟩)
            | ok x => simpa [wikiStep, atomically, hc] using h.call hf hc

/-! ## Fencing of whole runs -/

/-- The right to publish: the lease carries the batch's latest epoch and has not expired,
and its holder is the editor of the room, whose wiki is enabled. -/
def MayPublish (t : WikiTables) (room principal : String) (l : WikiLease) (now : Nat) : Prop :=
  ∃ b ∈ t.batches, b.id = l.batchId ∧ b.room = room ∧ b.epoch = l.epoch ∧ b.status = .running ∧
    now < b.leaseExpiresAt ∧
    ∃ w, t.row room = some w ∧ w.enabled = true ∧ w.editorPrincipal = principal

/-- A new receipt is a first publication, by a worker with the right to it. -/
theorem finish_published {messages : List MessageRow} {room principal : String}
    {update : WikiCommit} {l : WikiLease} {now n : Nat} {t t' : WikiTables} (h : Fenced t)
    (hs : finishWikiReview messages room principal update l now t = .ok (n, t'))
    (hnew : t'.receipts ≠ t.receipts) :
    MayPublish t room principal l now ∧ ∀ x ∈ t.receipts, x.batchId ≠ l.batchId := by
  obtain ⟨-, w, hw, -, -, ⟨_, _, _, _, _, _, _, rfl⟩ | ⟨changed, hp, hlease⟩⟩ :=
    commitWikiChecked_ok hs
  · exact absurd rfl hnew
  obtain ⟨b, hb⟩ := hlease l rfl
  obtain ⟨hep, hroom, -, hrun, hexp⟩ := h.held hb.valid hb.mem hb.id
  obtain ⟨-, -, -, -, -, -, -, -, w', hw', hr', hen, hed⟩ := leaseValid_iff.mp hb.valid
  obtain rfl := h.row_eq hw hw' hr'
  refine ⟨⟨b, hb.mem, hb.id, hroom, hep, hrun, hexp, w', hw, hen, hed⟩, ?_⟩
  intro x hx hid
  obtain ⟨b', hb', hid', -, -, hcomp⟩ := h.published x hx
  rw [h.eq_of_id hb' hb.mem (hid'.trans (hid.trans hb.id.symm)), hrun] at hcomp
  cases hcomp

/-- With a receipt in the table, `finish` for its lease decides by the receipt alone. -/
theorem finish_replay (messages : List MessageRow) {t : WikiTables} (h : Fenced t)
    {r : WikiReceiptRow} (hr : r ∈ t.receipts) (principal : String) (update : WikiCommit)
    (now : Nat) :
    (finishWikiReview messages r.room principal update ⟨r.batchId, r.epoch⟩ now t =
        .ok (r.revision, t) ∧
      principal = r.editorPrincipal ∧ update = r.request ∧
      (t.row r.room).map WikiRow.editorPrincipal = some principal) ∨
    ((∃ e, finishWikiReview messages r.room principal update ⟨r.batchId, r.epoch⟩ now t =
        .error e) ∧
      ¬(principal = r.editorPrincipal ∧ update = r.request ∧
        (t.row r.room).map WikiRow.editorPrincipal = some principal)) := by
  have hfound : t.receipt r.room ⟨r.batchId, r.epoch⟩ = some r := by
    cases hf : t.receipt r.room ⟨r.batchId, r.epoch⟩ with
    | none =>
        have hnone := List.find?_eq_none.mp hf r hr
        simp at hnone
    | some r' =>
        obtain ⟨hm, -, hb, -⟩ := WikiTables.receipt_some hf
        rw [eq_of_key h.receiptOnce hm hr hb]
  by_cases hsame : principal = r.editorPrincipal ∧ update = r.request ∧
      (t.row r.room).map WikiRow.editorPrincipal = some principal
  · left
    obtain ⟨rfl, rfl, hed⟩ := hsame
    obtain ⟨w, hw, hwe⟩ := Option.map_eq_some_iff.mp hed
    refine ⟨?_, rfl, rfl, hed⟩
    simp [finishWikiReview, commitWikiChecked, require, found, hw, hwe, hfound,
      h.requests r hr, bind, Except.bind, pure, Except.pure]
  · right
    refine ⟨?_, hsame⟩
    rcases hres : finishWikiReview messages r.room principal update ⟨r.batchId, r.epoch⟩ now t with
      e | ⟨n, t'⟩
    · exact ⟨e, rfl⟩
    · exfalso
      obtain ⟨-, w, hw, hed, -, ⟨l', r', hl', hr', h₁, h₂, -, -⟩ | ⟨changed, hp, hlease⟩⟩ :=
        commitWikiChecked_ok hres
      · cases hl'
        rw [hfound] at hr'
        cases hr'
        refine hsame ⟨h₁.symm, h₂.symm, ?_⟩
        rw [hw]
        simpa using hed
      · obtain ⟨b, hb⟩ := hlease _ rfl
        rw [hb.unpublished] at hfound
        cases hfound

theorem renew_extends {room principal : String} {l : WikiLease} {now n : Nat} {t t' : WikiTables}
    (h : Fenced t) (hs : renewWikiReview room principal l now t = .ok (n, t')) :
    ∀ b ∈ t.batches, ∃ b' ∈ t'.batches, b'.id = b.id ∧ b'.epoch = b.epoch ∧
      b.leaseExpiresAt ≤ b'.leaseExpiresAt := by
  obtain ⟨hv, lease, b₀, hl, hb₀, rfl, rfl⟩ := renewWikiReview_ok hs
  intro b hb
  refine ⟨_, mem_updateWhere.mpr ⟨b, hb, rfl⟩, ?_⟩
  by_cases hid : b.id = l.batchId
  · -- the lease is within its deadline already, so capping at the deadline loses nothing
    obtain ⟨hb₀m, hb₀id⟩ := WikiTables.batch_some hb₀
    obtain rfl := h.eq_of_id hb hb₀m (hid.trans hb₀id.symm)
    obtain ⟨hep, -, -, hrun, -⟩ := h.held hv hb hid
    obtain ⟨hlm, hlb, hle⟩ := WikiTables.lease_some hl
    obtain ⟨l', hl', hk, hle'⟩ := h.lease b hb ((h.attempts b hb).2.2.2 hrun)
    have hkey : lease.key = l'.key := by
      rw [hk, WikiLeaseRow.key, hlb, hle, hid, hep]
    rw [eq_of_key h.leaseKey hlm hl' hkey]
    simp only [hid, decide_true, if_true]
    exact ⟨trivial, trivial, by omega⟩
  · simp [hid]

theorem wikiStep_receipts {s : WikiState} (h : Fenced s.tables) (i : WikiInput) :
    (wikiStep s i).2.tables.receipts = s.tables.receipts ∨
    ∃ room p u l now n, i = .call false (.finish room p u l now) ∧
      (wikiStep s i).1 = .ok (.revision n) ∧ MayPublish s.tables room p l now ∧
      (∀ x ∈ s.tables.receipts, x.batchId ≠ l.batchId) ∧
      (wikiStep s i).2.tables.receipts =
        s.tables.receipts ++ [⟨room, l.batchId, l.epoch, p, u, n⟩] := by
  rcases wikiStep_cases s i with hs | ⟨m, -, -, hs⟩ | ⟨c, a, t, rfl, hrun, hs⟩
  · rw [hs]
    exact .inl rfl
  · rw [hs]
    exact .inl rfl
  · rw [hs]
    rcases run_epochs h hrun with ⟨-, -, -, hr, -⟩ | ⟨_, _, _, _, _, -, -, hb⟩
    · rcases hr with hr | ⟨room, p, u, l, now, n, rfl, rfl, hr⟩
      · exact .inl hr
      · obtain ⟨n', hc, hn⟩ := answer_ok.mp hrun
        cases hn
        obtain ⟨hmay, hone⟩ := finish_published h hc (by rw [hr]; simp)
        exact .inr ⟨room, p, u, l, now, _, rfl, rfl, hmay, hone, hr⟩
    · exact .inl hb.receipts

/-- The fencing law, over every run.  In order: one active batch per room; one publication
per batch, and only with the right to it; an accepted `finish` is repeated to its author
while that principal is the room's editor, and to nobody else; at most three claims of a
batch; no lease outlives its epoch's start by more than `maxWorkerMs`, and no renewal
shortens one. -/
theorem wiki_fencing {tr : WikiTrace} {s : WikiState} (r : Sys.Run wikiMachine anyInput tr s) :
    (∀ b ∈ s.tables.batches, ∀ b' ∈ s.tables.batches, b.room = b'.room →
      b.status.active = true → b'.status.active = true → b = b') ∧
    ((s.tables.receipts.map WikiReceiptRow.batchId).Nodup ∧
      (∀ b ∈ s.tables.batches,
        b.status = .completed ↔ ∃ x ∈ s.tables.receipts, x.batchId = b.id) ∧
      ∀ i, (wikiStep s i).2.tables.receipts = s.tables.receipts ∨
        ∃ room p u l now n, i = .call false (.finish room p u l now) ∧
          (wikiStep s i).1 = .ok (.revision n) ∧ MayPublish s.tables room p l now ∧
          (∀ x ∈ s.tables.receipts, x.batchId ≠ l.batchId) ∧
          (wikiStep s i).2.tables.receipts =
            s.tables.receipts ++ [⟨room, l.batchId, l.epoch, p, u, n⟩]) ∧
    (∀ room p u l now n,
      (WikiInput.call false (.finish room p u l now), Except.ok (WikiAnswer.revision n)) ∈ tr →
      ∀ failed p' u' now',
        (wikiStep s (.call failed (.finish room p' u' l now'))).2.tables = s.tables ∧
        ((wikiStep s (.call failed (.finish room p' u' l now'))).1 = .ok (.revision n) ↔
          failed = false ∧ p' = p ∧ u' = u ∧
            (s.tables.row room).map WikiRow.editorPrincipal = some p) ∧
        ((wikiStep s (.call failed (.finish room p' u' l now'))).1 = .ok (.revision n) ∨
          ∃ e, (wikiStep s (.call failed (.finish room p' u' l now'))).1 = .error e)) ∧
    (∀ id, claimsOf id tr ≤ 3) ∧
    (∀ room p now b,
      (WikiInput.call false (.claim room p now), Except.ok (WikiAnswer.claimed (some b))) ∈ tr →
      ∀ x ∈ s.tables.batches, x.id = b.lease.batchId → x.epoch = b.lease.epoch →
        x.leaseExpiresAt ≤ now + maxWorkerMs) ∧
    (∀ failed room p l now, ∀ b ∈ s.tables.batches,
      ∃ b' ∈ (wikiStep s (.call failed (.renew room p l now))).2.tables.batches,
        b'.id = b.id ∧ b'.epoch = b.epoch ∧ b.leaseExpiresAt ≤ b'.leaseExpiresAt) := by
  have h := run_fenced r
  have ha := run_answered r
  refine ⟨h.oneActive, ⟨h.receiptOnce, ?_, wikiStep_receipts h⟩, ?_, ?_, ?_, ?_⟩
  · intro b hb
    refine ⟨h.completed b hb, ?_⟩
    rintro ⟨x, hx, hid⟩
    obtain ⟨b', hb', hid', -, -, hc⟩ := h.published x hx
    rw [h.eq_of_id hb hb' (hid.symm.trans hid'.symm)]
    exact hc
  · intro room p u l now n hev failed p' u' now'
    have hrec := ha.accepted room p u l now n hev
    cases failed with
    | true => exact ⟨rfl, by simp [wikiStep, atomically], .inr ⟨_, rfl⟩⟩
    | false =>
        obtain ⟨hok, rfl, rfl, hed⟩ | ⟨⟨e, herr⟩, hne⟩ :=
          finish_replay s.messages h hrec p' u' now'
        · have hrun : (WikiCall.finish room p' u' l now').run s.messages s.tables =
              .ok (.revision n, s.tables) := answer_ok.mpr ⟨n, hok, rfl⟩
          refine ⟨by simp [wikiStep, atomically, hrun], ?_, .inl (by simp [wikiStep, atomically, hrun])⟩
          simpa [wikiStep, atomically, hrun] using hed
        · have hrun : (WikiCall.finish room p' u' l now').run s.messages s.tables = .error e := by
            show answer _ _ = _
            rw [show finishWikiReview s.messages room p' u' l now' s.tables = .error e from herr]
            rfl
          refine ⟨by simp [wikiStep, atomically, hrun], ?_,
            .inr ⟨e, by simp [wikiStep, atomically, hrun]⟩⟩
          constructor
          · intro he
            simp [wikiStep, atomically, hrun] at he
          · rintro ⟨-, rfl, rfl, hed⟩
            exact absurd ⟨rfl, rfl, hed⟩ hne
  · intro id
    by_cases hid : ∃ b ∈ s.tables.batches, b.id = id
    · obtain ⟨b, hb, rfl⟩ := hid
      rw [ha.claims b hb]
      exact (h.attempts b hb).2.1
    · rw [ha.noClaim id fun b hb he => hid ⟨b, hb, he⟩]
      exact Nat.zero_le 3
  · intro room p now b hev x hx hid hep
    have hl := ha.leased room p now b hev
    have h0 : x.epoch ≠ 0 := hep ▸ h.leaseEpoch _ hl
    obtain ⟨l, hlm, hk, hle⟩ := h.lease x hx h0
    rw [hid, hep] at hk
    rw [eq_of_key h.leaseKey hlm hl hk] at hle
    exact hle
  · intro failed room p l now b hb
    rcases wikiStep_cases s (.call failed (.renew room p l now)) with
      hs | ⟨m, hi, -, -⟩ | ⟨c, a, t, hi, hrun, hs⟩
    · rw [hs]
      exact ⟨b, hb, rfl, rfl, Nat.le_refl _⟩
    · cases hi
    · cases hi
      rw [hs]
      obtain ⟨n, hc, -⟩ := answer_ok.mp hrun
      exact renew_extends h hc b hb

/-- A review from configuration to acceptance: one message, one batch, one claim. -/
def sampleReview : List WikiInput :=
  [.call false (.configure "a" "editor" true 1),
   .post { id := 1, room := "a", sender := "ann", senderType := "user", target := none,
           text := "hello", replyTo := none, ts := 1, kind := "say", principal := none,
           opId := none, attachments := none },
   .call false (.schedule "a" 2),
   .call false (.claim "a" "editor" 3),
   .call false (.finish "a" "editor" ⟨0, 1, "review", []⟩ ⟨1, 1⟩ 4)]

theorem wiki_fencing_sample :
    (wikiStep (wikiMachine.exec sampleReview [] {}).2
      (.call false (.finish "a" "editor" ⟨0, 1, "review", []⟩ ⟨1, 1⟩ 9))).1 = .ok (.revision 0) :=
  ((wiki_fencing (run_of_inputs sampleReview)).2.2.1 "a" "editor" ⟨0, 1, "review", []⟩ ⟨1, 1⟩ 4 0
    (by decide) false "editor" ⟨0, 1, "review", []⟩ 9).2.1.mpr (by decide)

/-- The author of an accepted review is refused a replay once the room has another editor. -/
theorem finish_refused_after_reassignment :
    ¬ ∀ tr s, Sys.Run wikiMachine anyInput tr s → ∀ room p u l now n,
      (WikiInput.call false (.finish room p u l now), Except.ok (WikiAnswer.revision n)) ∈ tr →
      ∀ now', (wikiStep s (.call false (.finish room p u l now'))).1 = .ok (.revision n) := by
  intro h
  have hno := h _ _ (run_of_inputs (sampleReview ++ [.call false (.configure "a" "other" true 1)]))
    "a" "editor" ⟨0, 1, "review", []⟩ ⟨1, 1⟩ 4 0 (by decide) 9
  revert hno
  decide

end Loca
