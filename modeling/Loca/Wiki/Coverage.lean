/-
# `Loca.Wiki.Coverage` — every message is reviewed once

The review cursor of a room cuts its messages in two.  A batch is a window that starts at
the cursor and ends at a message; it is frozen when it is queued, and its sources are read
again at every claim.  What makes this sound is that new messages lie above every window:
the ids of a room are assigned in increasing order (`AssignedInOrder`).

`Covered` carries the cursor, the active batch and the accepted windows together.
-/
import Loca.Wiki.Fencing

namespace Loca

open Check Table

/-- The sources of a window, in id order. -/
def eligibleWindow (messages : List MessageRow) (room : String) (after through : Nat) :
    List MessageRow :=
  orderBy MessageRow.id (messages.filter fun m =>
    m.room = room && m.id > after && m.id ≤ through && m.eligible)

def ReviewWindow.covers (v : ReviewWindow) (room : String) (id : Nat) : Bool :=
  v.room = room && v.after < id && id ≤ v.through

/-- The room's `reviewed_through`, 0 before the wiki is configured. -/
def WikiTables.cursor (t : WikiTables) (room : String) : Nat :=
  ((t.row room).map WikiRow.reviewedThrough).getD 0

/-- A message that comes to the room has a higher id than those before it. -/
def AssignedInOrder (room : String) (s : WikiState) (i : WikiInput) : Prop :=
  ∀ m, i = .post m → m.room = room → 0 < m.id ∧ ∀ x ∈ s.messages, x.room = room → x.id < m.id

/-! ## The cursor -/

theorem cursor_of_wiki {t t' : WikiTables} (h : t'.wiki = t.wiki) (room : String) :
    t'.cursor room = t.cursor room := by
  simp only [WikiTables.cursor, WikiTables.row, h]

theorem cursor_of_row {t : WikiTables} {room : String} {w : WikiRow} (h : t.row room = some w) :
    t.cursor room = w.reviewedThrough := by
  simp [WikiTables.cursor, h]

theorem cursor_update {t t' : WikiTables} {p : WikiRow → Bool} {f : WikiRow → WikiRow}
    (hw : t'.wiki = updateWhere p f t.wiki)
    (hf : ∀ w, (f w).room = w.room ∧ (f w).reviewedThrough = w.reviewedThrough) (room : String) :
    t'.cursor room = t.cursor room := by
  unfold WikiTables.cursor WikiTables.row
  rw [hw, find?_updateWhere]
  · cases t.wiki.find? fun w => decide (w.room = room) with
    | none => rfl
    | some w =>
        simp only [Option.map_some, Option.getD_some]
        split
        · exact (hf w).2
        · rfl
  · intro w _
    rw [(hf w).1]

theorem cursor_configure {room editor : String} {enabled : Bool} {interval : Nat}
    {t t' : WikiTables} {u : Unit}
    (hs : configureWiki room editor enabled interval t = .ok (u, t')) (R : String) :
    t'.cursor R = t.cursor R := by
  obtain ⟨-, -, -, rfl⟩ := configureWiki_ok hs
  by_cases hk : hasKey WikiRow.room room t.wiki = true
  · refine cursor_update (p := fun w => w.room = room) (f := fun w =>
      { w with editorPrincipal := editor, enabled, intervalMessages := interval }) ?_ ?_ R
    · simp [insertOrUpdate, hk]
    · exact fun w => ⟨rfl, rfl⟩
  · have hn := hasKey_false.mp (Bool.eq_false_iff.mpr hk)
    simp only [WikiTables.cursor, WikiTables.row, insertOrUpdate, hk, Bool.false_eq_true, if_false,
      List.find?_append, List.find?_cons, List.find?_nil]
    cases hf : t.wiki.find? fun w => decide (w.room = R) with
    | some w => rfl
    | none =>
        simp only [Option.none_or]
        split <;> rfl

theorem cursor_publish {messages : List MessageRow} {room principal : String}
    {update : WikiCommit} {now n : Nat} {lease : Option WikiLease} {human : Bool} {w : WikiRow}
    {changed : List WikiPage} {t t' : WikiTables} (hw : t.row room = some w)
    (hp : Published messages room principal update now lease human w changed t n t') (R : String) :
    t'.cursor R = if R = room then update.reviewedThrough else t.cursor R := by
  unfold WikiTables.cursor WikiTables.row at *
  rw [hp.wiki, find?_updateWhere]
  · by_cases hR : R = room
    · subst hR
      have hr : w.room = R := by simpa using List.find?_some hw
      simp [hw, hr]
    · cases hf : t.wiki.find? fun w => decide (w.room = R) with
      | none => simp [hR]
      | some w₀ =>
          have hr : w₀.room = R := by simpa using List.find?_some hf
          have hne : ¬ w₀.room = room := by rw [hr]; exact hR
          simp [hR, hne]
  · intro w₀ _
    rfl

/-! ## Windows -/

theorem mem_eligibleWindow {messages : List MessageRow} {room : String} {after through : Nat}
    {m : MessageRow} : m ∈ eligibleWindow messages room after through ↔
      m ∈ messages ∧ m.room = room ∧ after < m.id ∧ m.id ≤ through ∧ m.eligible = true := by
  simp [eligibleWindow, mem_orderBy, and_assoc]

/-- A message above the window, or in another room, does not show in it. -/
theorem eligibleWindow_post {messages : List MessageRow} {room : String} {after through : Nat}
    {m : MessageRow} (h : m.room = room → through < m.id) :
    eligibleWindow (messages ++ [m]) room after through =
      eligibleWindow messages room after through := by
  unfold eligibleWindow
  rw [filter_append_of_not]
  by_cases hr : m.room = room
  · have : ¬ m.id ≤ through := Nat.not_le.mpr (h hr)
    simp [this]
  · simp [hr]

/-- What the scheduler freezes: at most `maxBatchMessages` sources, the last of them at
`through`. -/
theorem eligibleWindow_schedule {messages : List MessageRow} {room : String} {cursor : Nat}
    {through : MessageRow} (hk : (messages.map MessageRow.id).Nodup)
    (h : (pendingSources messages room cursor)[
      min (pendingSources messages room cursor).length maxBatchMessages - 1]? = some through) :
    (eligibleWindow messages room cursor through.id).length ≤ 100 ∧
    (eligibleWindow messages room cursor through.id).getLast? = some through := by
  have hnd : ((messages.filter fun m => m.room = room && m.id > cursor && m.eligible).map
      MessageRow.id).Nodup := hk.sublist (List.filter_sublist.map _)
  unfold pendingSources at h
  -- `all` is everything unreviewed; the limit of 1000 does not reach below the 100th
  generalize hall : orderBy MessageRow.id
    (messages.filter fun m => m.room = room && m.id > cursor && m.eligible) = all at h
  have hstrict : all.Pairwise fun a b => a.id < b.id := hall ▸ orderBy_strict hnd
  generalize hk' : min (all.take 1000).length maxBatchMessages - 1 = k at h
  have hget : all[k]? = some through := by
    rw [List.getElem?_take] at h
    split at h
    · exact h
    · cases h
  have hlt : k < all.length := by
    by_contra hge
    rw [List.getElem?_eq_none (by omega)] at hget
    cases hget
  have hwin : eligibleWindow messages room cursor through.id = all.take (k + 1) := by
    rw [← filter_le_getElem hstrict k hget, ← hall, filter_orderBy hnd, List.filter_filter]
    unfold eligibleWindow
    congr 2
    funext m
    cases m.eligible <;> simp [Bool.and_comm, Bool.and_left_comm]
  have hk100 : k + 1 ≤ 100 := by
    rw [← hk', List.length_take, maxBatchMessages]
    omega
  rw [hwin]
  refine ⟨by rw [List.length_take]; omega, ?_⟩
  rw [List.getLast?_take]
  simp [hget]

/-! ## The invariant -/

/-- The window of a batch: at most 100 sources, the last at `through_id`. -/
def WindowOk (messages : List MessageRow) (b : WikiBatchRow) : Prop :=
  (eligibleWindow messages b.room b.afterId b.throughId).length ≤ 100 ∧
  (eligibleWindow messages b.room b.afterId b.throughId).getLast?.map MessageRow.id =
    some b.throughId

structure Covered (room : String) (s : WikiState) : Prop where
  key : (s.messages.map MessageRow.id).Nodup
  positive : ∀ m ∈ s.messages, m.room = room → 0 < m.id
  after : ∀ b ∈ s.tables.batches, b.room = room → b.status.active = true →
    b.afterId = s.tables.cursor room
  window : ∀ b ∈ s.tables.batches, b.room = room → WindowOk s.messages b
  reached : s.tables.cursor room = 0 ∨
    messageExists s.messages room (s.tables.cursor room) = true
  once : ∀ n, (s.reviews.filter fun v => v.covers room n).length =
    if 0 < n ∧ n ≤ s.tables.cursor room then 1 else 0

/-- The end of a window is a message of the room. -/
theorem WindowOk.exists_through {messages : List MessageRow} {b : WikiBatchRow}
    (h : WindowOk messages b) : ∃ m ∈ messages, m.room = b.room ∧ m.id = b.throughId := by
  obtain ⟨m, hm, hid⟩ := Option.map_eq_some_iff.mp h.2
  obtain ⟨hmem, hr, -⟩ := mem_eligibleWindow.mp (List.mem_of_getLast? hm)
  exact ⟨m, hmem, hr, hid⟩

theorem WindowOk.post {messages : List MessageRow} {b : WikiBatchRow} (h : WindowOk messages b)
    {m : MessageRow} (hm : m.room = b.room → ∀ x ∈ messages, x.room = b.room → x.id < m.id) :
    WindowOk (messages ++ [m]) b ∧
    eligibleWindow (messages ++ [m]) b.room b.afterId b.throughId =
      eligibleWindow messages b.room b.afterId b.throughId := by
  obtain ⟨x, hx, hr, hid⟩ := h.exists_through
  have he : eligibleWindow (messages ++ [m]) b.room b.afterId b.throughId =
      eligibleWindow messages b.room b.afterId b.throughId :=
    eligibleWindow_post fun hmr => hid ▸ hm hmr x hx hr
  exact ⟨by rw [WindowOk, he]; exact h, he⟩

theorem Covered.post {room : String} {s : WikiState} (h : Covered room s) {m : MessageRow}
    (hfresh : ∀ x ∈ s.messages, x.id ≠ m.id)
    (hm : m.room = room → 0 < m.id ∧ ∀ x ∈ s.messages, x.room = room → x.id < m.id) :
    Covered room { s with messages := s.messages ++ [m] } := by
  constructor
  · exact nodup_append_new h.key hfresh
  · intro x hx hr
    rcases List.mem_append.mp hx with hx | hx
    · exact h.positive x hx hr
    · rw [List.mem_singleton.mp hx] at hr ⊢
      exact (hm hr).1
  · exact h.after
  · intro b hb hr
    exact ((h.window b hb hr).post fun hmr x hx hxr =>
      (hm (hmr.trans hr)).2 x hx (hxr.trans hr)).1
  · refine h.reached.imp_right fun hex => ?_
    unfold messageExists at hex ⊢
    simp only [List.any_append, hex, Bool.true_or]
  · exact h.once

/-! ## Batches keep their windows -/

/-- The same batch later on: the window is what it was, and a closed batch stays closed. -/
structure SameBatch (b b' : WikiBatchRow) : Prop where
  id : b'.id = b.id
  room : b'.room = b.room
  after : b'.afterId = b.afterId
  through : b'.throughId = b.throughId
  active : b'.status.active = true → b.status.active = true

/-- Every batch afterwards was there before. -/
def BatchesKept (t t' : WikiTables) : Prop :=
  (∀ b' ∈ t'.batches, ∃ b ∈ t.batches, SameBatch b b') ∧
  ∀ b ∈ t.batches, ∃ b' ∈ t'.batches, SameBatch b b'

theorem BatchesKept.refl {t t' : WikiTables} (h : t'.batches = t.batches) : BatchesKept t t' :=
  ⟨fun b hb => ⟨b, h ▸ hb, rfl, rfl, rfl, rfl, id⟩,
    fun b hb => ⟨b, h.symm ▸ hb, rfl, rfl, rfl, rfl, id⟩⟩

theorem batchesKept_update {t t' : WikiTables} {p : WikiBatchRow → Bool}
    {f : WikiBatchRow → WikiBatchRow} (hb : t'.batches = updateWhere p f t.batches)
    (hf : ∀ b ∈ t.batches, p b = true → SameBatch b (f b)) : BatchesKept t t' := by
  have hsame : ∀ b ∈ t.batches, SameBatch b (if p b then f b else b) := by
    intro b hbm
    by_cases hp : p b = true
    · rw [if_pos hp]; exact hf b hbm hp
    · rw [if_neg hp]; exact ⟨rfl, rfl, rfl, rfl, id⟩
  refine ⟨?_, ?_⟩
  · intro b' hb'
    rw [hb] at hb'
    obtain ⟨b, hbm, rfl⟩ := mem_updateWhere.mp hb'
    exact ⟨b, hbm, hsame b hbm⟩
  · intro b hbm
    exact ⟨_, hb ▸ mem_updateWhere.mpr ⟨b, hbm, rfl⟩, hsame b hbm⟩

theorem batchesKept_cancel {t t' : WikiTables} {room : String} {p : WikiBatchRow → Bool}
    (hb : t'.batches = (t.cancel room p).batches) : BatchesKept t t' :=
  batchesKept_update hb fun _ _ _ => ⟨rfl, rfl, rfl, rfl, fun h => nomatch h⟩

theorem batchesKept_claim {messages : List MessageRow} {room principal : String} {now : Nat}
    {t t' : WikiTables} {a : Option WikiBatch} (h : Fenced t)
    (hs : claimWikiReview messages room principal now t = .ok (a, t')) :
    t'.wiki = t.wiki ∧ BatchesKept t t' ∧ ∀ wb, a = some wb → ∃ b ∈ t.batches,
      b.id = wb.lease.batchId ∧ b.room = room ∧ b.afterId = wb.afterId ∧
      b.throughId = wb.throughId ∧ wb.messages =
        (windowMessages messages room b.afterId b.throughId).map fun m => { m.toMessage with room } := by
  have hblock : BatchesKept t (blockExhausted room now t) := by
    refine batchesKept_update rfl ?_
    intro b _ hp
    simp only [Bool.and_eq_true, decide_eq_true_eq] at hp
    exact ⟨rfl, rfl, rfl, rfl, fun _ => by rw [hp.1.1.2]; rfl⟩
  obtain ⟨w, -, -, ⟨rfl, rfl | rfl⟩ | ⟨-, b, hb, hc, -, -, rfl, rfl⟩⟩ := claimWikiReview_ok hs
  · exact ⟨rfl, .refl rfl, fun _ h => nomatch h⟩
  · exact ⟨rfl, hblock, fun _ h => nomatch h⟩
  obtain ⟨-, hroom, -, hact, -⟩ := claimable_attempts h hb hc
  obtain ⟨b₀, hb₀, hsame₀⟩ := hblock.1 b hb
  refine ⟨rfl, ?_, ?_⟩
  · -- the claimed batch was active, so running it opens nothing
    have hrun : BatchesKept (blockExhausted room now t)
        { t with batches := updateWhere (fun x => x.id = b.id) (fun x =>
          { x with status := .running, epoch := b.epoch + 1, attempts := x.attempts + 1,
                   leaseExpiresAt := now + leaseMs }) (blockExhausted room now t).batches } := by
      apply batchesKept_update rfl
      intro x hx hid
      obtain rfl := (h.block room now).eq_of_id hx hb (by simpa using hid)
      exact ⟨rfl, rfl, rfl, rfl, fun _ => hact⟩
    refine ⟨?_, ?_⟩
    · intro b' hb'
      obtain ⟨x, hx, hsx⟩ := hrun.1 b' hb'
      obtain ⟨y, hy, hsy⟩ := hblock.1 x hx
      exact ⟨y, hy, hsx.id.trans hsy.id, hsx.room.trans hsy.room, hsx.after.trans hsy.after,
        hsx.through.trans hsy.through, fun ha => hsy.active (hsx.active ha)⟩
    · intro y hy
      obtain ⟨x, hx, hsy⟩ := hblock.2 y hy
      obtain ⟨b', hb', hsx⟩ := hrun.2 x hx
      exact ⟨b', hb', hsx.id.trans hsy.id, hsx.room.trans hsy.room, hsx.after.trans hsy.after,
        hsx.through.trans hsy.through, fun ha => hsy.active (hsx.active ha)⟩
  · intro wb hwb
    cases hwb
    refine ⟨b₀, hb₀, hsame₀.id.symm, hsame₀.room.symm.trans hroom, hsame₀.after.symm,
      hsame₀.through.symm, ?_⟩
    rw [hsame₀.after, hsame₀.through]

/-! ## Every call -/

/-- What a call does to the cursor, the batches and the accepted windows of one room. -/
structure CoverStep (R : String) (messages : List MessageRow) (t t' : WikiTables)
    (accepted : Option ReviewWindow) : Prop where
  after : (∀ b ∈ t.batches, b.room = R → b.status.active = true → b.afterId = t.cursor R) →
    ∀ b ∈ t'.batches, b.room = R → b.status.active = true → b.afterId = t'.cursor R
  window : (∀ b ∈ t.batches, b.room = R → WindowOk messages b) →
    ∀ b ∈ t'.batches, b.room = R → WindowOk messages b
  kept : ∀ b ∈ t.batches, ∃ b' ∈ t'.batches, SameBatch b b'
  cursor : t.cursor R ≤ t'.cursor R ∧ (t'.cursor R = t.cursor R ∨ t'.cursor R = 0 ∨
    messageExists messages R (t'.cursor R) = true)
  accepted : ∀ n, ((accepted.toList.filter fun v => v.covers R n).length =
    if t.cursor R < n ∧ n ≤ t'.cursor R then 1 else 0)

theorem windowOk_same {messages : List MessageRow} {b b' : WikiBatchRow} (h : SameBatch b b')
    (hw : WindowOk messages b) : WindowOk messages b' := by
  rw [WindowOk, h.room, h.after, h.through]
  exact hw

/-- A call that leaves the cursor where it is and opens no batch. -/
theorem CoverStep.still {R : String} {messages : List MessageRow} {t t' : WikiTables}
    (hc : t'.cursor R = t.cursor R) (hb : BatchesKept t t') : CoverStep R messages t t' none := by
  refine ⟨?_, ?_, hb.2, ⟨Nat.le_of_eq hc.symm, .inl hc⟩, ?_⟩
  · intro h b' hb' hr ha
    obtain ⟨b, hbm, hs⟩ := hb.1 b' hb'
    rw [hs.after, hc]
    exact h b hbm (hs.room.symm.trans hr) (hs.active ha)
  · intro h b' hb' hr
    obtain ⟨b, hbm, hs⟩ := hb.1 b' hb'
    exact windowOk_same hs (h b hbm (hs.room.symm.trans hr))
  · intro n
    have : ¬(t.cursor R < n ∧ n ≤ t'.cursor R) := by omega
    simp [this]

theorem coverStep_schedule {messages : List MessageRow} {room : String} {now : Nat}
    {t t' : WikiTables} {a : Bool} (hk : (messages.map MessageRow.id).Nodup) (hf : Fenced t)
    (hs : scheduleWikiReview messages room now t = .ok (a, t')) (R : String) :
    CoverStep R messages t t' none := by
  obtain ⟨-, rfl⟩ | ⟨-, w, reason, through, hw, hwr, -, hidle, hthr, rfl⟩ := scheduleWikiReview_ok hs
  · exact .still rfl (.refl rfl)
  have hcur : t.cursor room = w.reviewedThrough := by
    cases hrow : t.row room with
    | none =>
        have := List.find?_eq_none.mp hrow w hw
        simp [hwr] at this
    | some w' => rw [cursor_of_row hrow, hf.row_eq hrow hw hwr]
  obtain ⟨hlen, hlast⟩ := eligibleWindow_schedule hk hthr
  refine ⟨?_, ?_, ?_, ⟨Nat.le_refl _, .inl rfl⟩, ?_⟩
  · intro h b hb hr ha
    rcases List.mem_append.mp hb with hb | hb
    · exact h b hb hr ha
    · rw [List.mem_singleton.mp hb] at hr ⊢
      exact hcur.symm.trans (congrArg _ hr)
  · intro h b hb hr
    rcases List.mem_append.mp hb with hb | hb
    · exact h b hb hr
    · rw [List.mem_singleton.mp hb]
      exact ⟨hlen, by simp [hlast]⟩
  · intro b hb
    exact ⟨b, List.mem_append_left _ hb, rfl, rfl, rfl, rfl, id⟩
  · intro n
    have hno : ¬(t.cursor R < n ∧ n ≤ t.cursor R) := by omega
    exact (if_neg hno).symm

/-- What is still active after a cancellation was not meant. -/
theorem mem_cancel_active {t : WikiTables} {room : String} {p : WikiBatchRow → Bool}
    {b : WikiBatchRow} (hb : b ∈ (t.cancel room p).batches) (ha : b.status.active = true) :
    b ∈ t.batches ∧ ¬(b.room = room ∧ p b = true) := by
  obtain ⟨x, hx, rfl⟩ := mem_updateWhere.mp hb
  by_cases hc : (decide (x.room = room) && x.status.active && p x) = true
  · rw [if_pos hc] at ha
    cases ha
  · rw [if_neg hc] at ha ⊢
    refine ⟨hx, ?_⟩
    rintro ⟨hr, hp⟩
    exact hc (by simp [hr, hp, ha])

theorem filter_covers_length {room R : String} {after through n : Nat} :
    (([⟨room, after, through⟩] : List ReviewWindow).filter fun v => v.covers R n).length =
      if room = R ∧ after < n ∧ n ≤ through then 1 else 0 := by
  by_cases h : room = R ∧ after < n ∧ n ≤ through
  · simp [ReviewWindow.covers, h]
  · rw [if_neg h, List.length_eq_zero_iff, List.filter_eq_nil_iff]
    simpa [ReviewWindow.covers, and_assoc] using h

/-- A publication moves the cursor over its window, and no active batch is left behind it. -/
theorem coverStep_publish {messages : List MessageRow} {room principal : String}
    {update : WikiCommit} {now n : Nat} {lease : Option WikiLease} {human : Bool} {w : WikiRow}
    {changed : List WikiPage} {t t' : WikiTables} (hf : Fenced t) (hw : t.row room = some w)
    (hp : Published messages room principal update now lease human w changed t n t')
    (hhuman : human = true → lease = none ∧ update.reviewedThrough = w.reviewedThrough)
    (hlease : ∀ l, lease = some l → ∃ b, LeaseHeld room principal update now l w b t)
    {accepted : Option ReviewWindow}
    (hacc : accepted = if human then none else some ⟨room, w.reviewedThrough, update.reviewedThrough⟩)
    (R : String) : CoverStep R messages t t' accepted := by
  have hcur := cursor_publish hw hp R
  have hcurw := cursor_of_row hw
  have hbk : BatchesKept t t' := by
    rcases hp.batches with ⟨l, -, -, hb⟩ | ⟨-, -, ⟨-, -, hb⟩ | ⟨-, -, hb⟩ | ⟨-, hb⟩⟩
    · exact batchesKept_update hb fun _ _ _ => ⟨rfl, rfl, rfl, rfl, fun h => nomatch h⟩
    · exact .refl hb
    · exact batchesKept_cancel hb
    · exact batchesKept_cancel hb
  refine ⟨?_, ?_, hbk.2, ?_, ?_⟩
  · intro h b' hb' hr ha
    by_cases hR : R = room
    · subst hR
      rw [hcur, if_pos rfl]
      rcases hp.batches with ⟨l, hl, -, hb⟩ | ⟨-, -, hb⟩
      · -- the published batch was the active one; it is completed now
        exfalso
        obtain ⟨b₀, hb₀⟩ := hlease l hl
        obtain ⟨-, hroom₀, -, hrun₀, -⟩ := hf.held hb₀.valid hb₀.mem hb₀.id
        rw [hb] at hb'
        obtain ⟨b, hbm, rfl⟩ := mem_updateWhere.mp hb'
        by_cases hid : b.id = l.batchId
        · simp [hid, BatchStatus.active] at ha
        · simp only [hid, decide_false, Bool.false_eq_true, if_false] at ha hr
          refine hid ((congrArg WikiBatchRow.id ?_).trans hb₀.id)
          exact hf.oneActive b hbm b₀ hb₀.mem (hr.trans hroom₀.symm) ha (by rw [hrun₀]; rfl)
      · rcases hb with ⟨hh, -, hb⟩ | ⟨-, -, hb⟩ | ⟨-, hb⟩
        · rw [(hhuman hh).2, ← hcurw]
          exact h b' (hb ▸ hb') hr ha
        · exact absurd ⟨hr, rfl⟩ (mem_cancel_active (hb ▸ hb') ha).2
        · obtain ⟨hbm, hnot⟩ := mem_cancel_active (hb ▸ hb') ha
          have hafter := h b' hbm hr ha
          have hge : ¬ b'.afterId < update.reviewedThrough := fun hlt => hnot ⟨hr, by simpa using hlt⟩
          have hle := hp.cursor
          omega
    · rw [hcur, if_neg hR]
      obtain ⟨b, hbm, hs⟩ := hbk.1 b' hb'
      rw [hs.after]
      exact h b hbm (hs.room.symm.trans hr) (hs.active ha)
  · intro h b' hb' hr
    obtain ⟨b, hbm, hs⟩ := hbk.1 b' hb'
    exact windowOk_same hs (h b hbm (hs.room.symm.trans hr))
  · by_cases hR : R = room
    · subst hR
      rw [hcur, if_pos rfl, hcurw]
      exact ⟨hp.cursor, .inr hp.through⟩
    · rw [hcur, if_neg hR]
      exact ⟨Nat.le_refl _, .inl rfl⟩
  · intro k
    rw [hcur, hacc]
    cases human with
    | true =>
        have := (hhuman rfl).2
        by_cases hR : R = room
        · subst hR
          have hn : ¬(t.cursor R < k ∧ k ≤ update.reviewedThrough) := by omega
          simp [hn]
        · simp [hR]
    | false =>
        simp only [Bool.false_eq_true, if_false, Option.toList_some, filter_covers_length]
        by_cases hR : R = room
        · subst hR
          simp [hcurw]
        · have hR' : ¬ room = R := fun h => hR h.symm
          have hn : ¬(t.cursor R < k ∧ k ≤ t.cursor R) := by omega
          simp only [hR', hR, false_and, if_false, hn]

theorem coverStep_commit {messages : List MessageRow} {room principal : String}
    {update : WikiCommit} {now n : Nat} {lease : Option WikiLease} {human : Bool}
    {t t' : WikiTables} (hf : Fenced t)
    (hs : commitWikiChecked messages room principal update now lease human t = .ok (n, t'))
    {accepted : Option ReviewWindow}
    (hreplay : ∀ l r, lease = some l → t.receipt room l = some r → accepted = none)
    (hnew : ∀ w, t.row room = some w →
      (∀ l, lease = some l → ∃ b, LeaseHeld room principal update now l w b t) →
      accepted = if human then none else some ⟨room, w.reviewedThrough, update.reviewedThrough⟩)
    (R : String) : CoverStep R messages t t' accepted := by
  obtain ⟨-, w, hw, -, hhuman, ⟨l, r, hl, hr, -, -, -, rfl⟩ | ⟨changed, hp, hlease⟩⟩ :=
    commitWikiChecked_ok hs
  · rw [hreplay l r hl hr]
    exact .still rfl (.refl rfl)
  · exact coverStep_publish hf hw hp hhuman hlease (hnew w hw hlease) R

theorem run_coverStep {messages : List MessageRow} {c : WikiCall} {a : WikiAnswer}
    {t t' : WikiTables} (hk : (messages.map MessageRow.id).Nodup) (hf : Fenced t)
    (hs : c.run messages t = .ok (a, t')) (R : String) :
    CoverStep R messages t t' (c.reviewed t) := by
  cases c with
  | configure room editor enabled interval =>
      obtain ⟨u, hc, -⟩ := answer_ok.mp hs
      refine .still (cursor_configure hc R) ?_
      obtain ⟨-, -, -, rfl⟩ := configureWiki_ok hc
      exact batchesKept_cancel rfl
  | schedule room now =>
      obtain ⟨u, hc, -⟩ := answer_ok.mp hs
      exact coverStep_schedule hk hf hc R
  | claim room principal now =>
      obtain ⟨u, hc, -⟩ := answer_ok.mp hs
      obtain ⟨hw, hb, -⟩ := batchesKept_claim hf hc
      exact .still (cursor_of_wiki hw R) hb
  | renew room principal l now =>
      obtain ⟨u, hc, -⟩ := answer_ok.mp hs
      obtain ⟨-, lease, b, -, -, -, rfl⟩ := renewWikiReview_ok hc
      exact .still rfl (batchesKept_update rfl fun _ _ _ => ⟨rfl, rfl, rfl, rfl, id⟩)
  | finish room principal update l now =>
      obtain ⟨u, hc, -⟩ := answer_ok.mp hs
      refine coverStep_commit hf hc ?_ ?_ R
      · intro l' r hl hr
        cases hl
        simp [WikiCall.reviewed, hr]
      · intro w hw hlease
        obtain ⟨b, hb⟩ := hlease l rfl
        have hbatch : t.batch l.batchId = some b := by
          cases hfind : t.batch l.batchId with
          | none =>
              have := List.find?_eq_none.mp hfind b hb.mem
              simp [hb.id] at this
          | some b' =>
              obtain ⟨hm, hid⟩ := WikiTables.batch_some hfind
              rw [hf.eq_of_id hm hb.mem (hid.trans hb.id.symm)]
        simp [WikiCall.reviewed, hb.unpublished, hbatch, hb.after, hb.through]
  | commit room principal update now =>
      obtain ⟨u, hc, -⟩ := answer_ok.mp hs
      refine coverStep_commit hf hc (fun l r hl => nomatch hl) ?_ R
      intro w hw _
      simp [WikiCall.reviewed, hw]
  | edit room actor slug page cursor now =>
      obtain ⟨u, hc, -⟩ := answer_ok.mp hs
      refine coverStep_commit hf hc (fun l r hl => nomatch hl) ?_ R
      intro w _ _
      rfl
  | remove room principal slug removal now =>
      obtain ⟨u, hc, -⟩ := answer_ok.mp hs
      obtain ⟨-, -, w, page, hist, -, -, -, -, -, -, -, -, rfl⟩ := removeWikiPage_ok hc
      refine .still ?_ (batchesKept_cancel rfl)
      refine cursor_update (t := t) (p := fun w => w.room = room)
        (f := fun w => { w with revision := u, editedAt := some now }) rfl ?_ R
      exact fun _ => ⟨rfl, rfl⟩
  | cancel room =>
      obtain ⟨u, hc, -⟩ := answer_ok.mp hs
      simp only [cancelWikiReview, pure_ok, Prod.mk.injEq] at hc
      obtain ⟨-, rfl⟩ := hc
      exact .still rfl (batchesKept_cancel rfl)

theorem Covered.call {room : String} {s : WikiState} {c : WikiCall} {a : WikiAnswer}
    {t : WikiTables} (h : Covered room s) (hf : Fenced s.tables)
    (hs : c.run s.messages s.tables = .ok (a, t)) (removed : List WikiPageRow) :
    Covered room { s with
      tables := t, reviews := (c.reviewed s.tables).toList ++ s.reviews, removed } := by
  have hstep := run_coverStep h.key hf hs room
  constructor
  · exact h.key
  · exact h.positive
  · exact hstep.after h.after
  · exact hstep.window h.window
  · rcases hstep.cursor.2 with he | he | he
    · rw [he]; exact h.reached
    · exact .inl he
    · exact .inr he
  · intro n
    rw [List.filter_append, List.length_append, hstep.accepted n, h.once n]
    have hle := hstep.cursor.1
    show _ = if 0 < n ∧ n ≤ t.cursor room then 1 else 0
    split <;> split <;> split <;> omega

/-! ## Whole runs -/

theorem run_covered {room : String} {tr : WikiTrace} {s : WikiState}
    (r : Sys.Run wikiMachine (AssignedInOrder room) tr s) : Covered room s := by
  refine Sys.Run.induction (P := fun _ s => Covered room s) ?_ ?_ r
  · rintro s ⟨hk, hpos, ht, hrev, -⟩
    refine ⟨hk, fun m hm _ => hpos m hm, ?_, ?_, ?_, ?_⟩
    · rw [ht]; simp
    · rw [ht]; simp
    · rw [ht]; exact .inl rfl
    · intro n
      rw [hrev, ht]
      have : ¬(0 < n ∧ n ≤ WikiTables.cursor {} room) := by
        show ¬(0 < n ∧ n ≤ 0)
        omega
      simp [this]
  · intro tr s i hr h hok
    show Covered room (wikiStep s i).2
    rcases wikiStep_cases s i with hs | ⟨m, rfl, hfresh, hs⟩ | ⟨c, a, t, -, hrun, hs⟩
    · rw [hs]; exact h
    · rw [hs]; exact h.post hfresh (hok m rfl)
    · rw [hs]; exact h.call (run_fenced hr) hrun _

/-- The batch that was handed out is still there, and what it listed is what its window
holds now. -/
def Listed (room : String) (wb : WikiBatch) (s : WikiState) : Prop :=
  ∃ b ∈ s.tables.batches, b.id = wb.lease.batchId ∧ b.room = room ∧ b.afterId = wb.afterId ∧
    b.throughId = wb.throughId ∧
    wb.messages = (eligibleWindow s.messages room wb.afterId wb.throughId).map fun m =>
      { m.toMessage with room }

theorem run_listed {room : String} {tr : WikiTrace} {s : WikiState}
    (r : Sys.Run wikiMachine (AssignedInOrder room) tr s) : ∀ p now wb,
      (WikiInput.call false (.claim room p now), Except.ok (WikiAnswer.claimed (some wb))) ∈ tr →
      Listed room wb s := by
  refine Sys.Run.induction (P := fun tr s => ∀ p now wb,
    (WikiInput.call false (.claim room p now), Except.ok (WikiAnswer.claimed (some wb))) ∈ tr →
    Listed room wb s) ?_ ?_ r
  · intro s _ p now wb hm
    cases hm
  · intro tr s i hr h hok p now wb hm
    have hcov := run_covered hr
    have hf := run_fenced hr
    show Listed room wb (wikiStep s i).2
    rcases List.mem_cons.mp hm with he | hm
    · -- the claim just answered
      obtain ⟨hi, ho⟩ := Prod.mk.inj he
      subst hi
      obtain ⟨t, hrun, hs⟩ := wikiStep_ok (a := .claimed (some wb)) ho.symm
      obtain ⟨x, hc, hx⟩ := answer_ok.mp hrun
      cases hx
      obtain ⟨-, hkept, hclaim⟩ := batchesKept_claim hf hc
      obtain ⟨b, hb, hid, hroom, ha, hthr, hmsgs⟩ := hclaim wb rfl
      obtain ⟨b', hb', hsame⟩ := hkept.2 b hb
      have hwin := hcov.window b hb hroom
      rw [hs]
      refine ⟨b', hb', hsame.id.trans hid, hsame.room.trans hroom, hsame.after.trans ha,
        hsame.through.trans hthr, ?_⟩
      rw [hmsgs, ← ha, ← hthr]
      rw [WindowOk, hroom] at hwin
      congr 1
      exact List.take_of_length_le hwin.1
    · obtain ⟨b, hb, hid, hroom, ha, hthr, hmsgs⟩ := h p now wb hm
      rcases wikiStep_cases s i with hs | ⟨m, rfl, hfresh, hs⟩ | ⟨c, a, t, -, hrun, hs⟩
      · rw [hs]
        exact ⟨b, hb, hid, hroom, ha, hthr, hmsgs⟩
      · rw [hs]
        refine ⟨b, hb, hid, hroom, ha, hthr, ?_⟩
        have hpost := ((hcov.window b hb hroom).post (m := m) fun hmr x hx hxr =>
          (hok m rfl (hmr.trans hroom)).2 x hx (hxr.trans hroom)).2
        rw [hroom, ha, hthr] at hpost
        rw [hmsgs, hpost]
      · rw [hs]
        obtain ⟨b', hb', hsame⟩ := (run_coverStep hcov.key hf hrun room).kept b hb
        exact ⟨b', hb', hsame.id.trans hid, hsame.room.trans hroom, hsame.after.trans ha,
          hsame.through.trans hthr, hmsgs⟩

/-- The coverage law.  In order: an active batch starts at the cursor; a claim lists exactly
the eligible messages of its window, in id order, between 1 and 100 of them and the last at
`through_id`; every claim of a batch lists the same; and an eligible message at or below the
cursor lies in exactly one accepted window, one above it in none. -/
theorem wiki_coverage {room : String} {tr : WikiTrace} {s : WikiState}
    (r : Sys.Run wikiMachine (AssignedInOrder room) tr s) :
    (∀ b ∈ s.tables.batches, b.room = room → b.status.active = true →
      b.afterId = s.tables.cursor room) ∧
    (∀ p now wb,
      (WikiInput.call false (.claim room p now), Except.ok (WikiAnswer.claimed (some wb))) ∈ tr →
      wb.messages = (eligibleWindow s.messages room wb.afterId wb.throughId).map
        (fun m => { m.toMessage with room }) ∧
      1 ≤ wb.messages.length ∧ wb.messages.length ≤ 100 ∧
      wb.messages.getLast?.map Message.id = some wb.throughId) ∧
    (∀ p now wb p' now' wb',
      (WikiInput.call false (.claim room p now), Except.ok (WikiAnswer.claimed (some wb))) ∈ tr →
      (WikiInput.call false (.claim room p' now'), Except.ok (WikiAnswer.claimed (some wb'))) ∈ tr →
      wb.lease.batchId = wb'.lease.batchId → wb.messages = wb'.messages) ∧
    (∀ m ∈ s.messages, m.room = room → m.eligible = true →
      (s.reviews.filter fun v => v.covers room m.id).length =
        if m.id ≤ s.tables.cursor room then 1 else 0) := by
  have hcov := run_covered r
  have hlist := run_listed r
  have hf := run_fenced r
  refine ⟨hcov.after, ?_, ?_, ?_⟩
  · intro p now wb hm
    obtain ⟨b, hb, -, hroom, ha, hthr, hmsgs⟩ := hlist p now wb hm
    obtain ⟨hlen, hlast⟩ := hcov.window b hb hroom
    rw [hroom, ha, hthr] at hlen hlast
    refine ⟨hmsgs, ?_, ?_, ?_⟩
    · rw [hmsgs, List.length_map]
      refine List.length_pos_iff.mpr ?_
      intro hnil
      rw [hnil] at hlast
      cases hlast
    · rw [hmsgs, List.length_map]
      exact hlen
    · rw [hmsgs, List.getLast?_map, Option.map_map]
      exact hlast
  · intro p now wb p' now' wb' hm hm' hid
    obtain ⟨b, hb, hbid, -, ha, hthr, hmsgs⟩ := hlist p now wb hm
    obtain ⟨b', hb', hbid', -, ha', hthr', hmsgs'⟩ := hlist p' now' wb' hm'
    obtain rfl := hf.eq_of_id hb hb' (hbid.trans (hid.trans hbid'.symm))
    rw [hmsgs, hmsgs', ← ha, ← hthr, ha', hthr']
  · intro m hm hroom _
    rw [hcov.once m.id]
    have := hcov.positive m hm hroom
    simp [this]

theorem sampleReview_admitted : wikiMachine.Admits (AssignedInOrder "a") sampleReview {} := by
  refine ⟨?_, ?_, ?_, ?_, ?_, trivial⟩
  · intro m h; cases h
  · intro m h _
    cases h
    exact ⟨by decide, by decide⟩
  · intro m h; cases h
  · intro m h; cases h
  · intro m h; cases h

theorem wiki_coverage_sample :
    ((wikiMachine.exec sampleReview [] {}).2.reviews.filter fun v => v.covers "a" 1).length = 1 :=
  ((wiki_coverage (Sys.Run.exec sampleReview sampleReview_admitted
    (.nil ⟨List.nodup_nil, by simp, rfl, rfl, rfl⟩))).2.2.2
      ⟨1, "a", "ann", "user", none, "hello", none, 1, "say", none, none, none⟩
      (by decide) rfl (by decide)).trans (by decide)

end Loca
