/-
# `Loca.Queue.Rooms` — one room's acknowledgement and the other rooms

One inbox serves every room the agent is in.  Of chat the newest record is offered, because it
"represents current room state", and the acknowledgement moves the one cursor up to its end: the
older chat of every room is passed over, not only that of the room that answered.

`rooms_stay_apart` has the exact condition, on the inbox at each pass.  `rooms_collide` is the
smallest inbox that breaks it: a direct call from one room, and a newer one from another.
-/
import Loca.Queue.Repeated

namespace Loca.Queue

open Adapter Check

variable {py : Python} {s : Consumer}

/-! ## What is still open -/

/-- A record that a pass still looks at, of a delivery nobody acknowledged. -/
structure Open (py : Python) (s : Consumer) (r : Record) : Prop where
  waits : r ∈ waiting py s.lines s.cursor
  unacked : r.deliveryId py ∉ s.recorded

theorem Open.mem {r : Record} (h : Open py s r) : r ∈ s.records py := (List.mem_filter.mp h.waits).1

theorem mem_waiting {lines : List (List UInt8)} {c : Cursor} {r : Record} : r ∈ waiting py lines c ↔
    r ∈ recordsAt py 0 lines ∧ c.offset ≤ r.offset ∧ r.settled py c = false := by
  unfold waiting
  rw [List.mem_filter, Bool.and_eq_true, decide_eq_true_eq, Bool.not_eq_true']

/-- The record the rules pick: the most urgent, of chat the newest, of anything else the oldest. -/
structure Foremost (rs : List Record) (x : Record) : Prop where
  mem : x ∈ rs
  best : ∀ r ∈ rs, x.rank ≤ r.rank
  newest : isCompactable x.rank = true → ∀ r ∈ rs, r.rank = x.rank → r.offset ≤ x.offset
  oldest : isCompactable x.rank = false → ∀ r ∈ rs, r.rank = x.rank → x.offset ≤ r.offset

/-- Complete valid records are appended whose delivery ids are their room's own, and at each pass
whatever stands before the record the rules pick is of its room, or behind a protected record. -/
def Considerate (py : Python) (s : Consumer) : QueueInput → Prop
  | .append raw => ValidLine py raw ∧ ∀ r ∈ recordsAt py s.lines.flatten.length [raw], ∀ r' ∈ s.records py,
      r'.room py ≠ r.room py → r'.deliveryId py ≠ r.deliveryId py
  | .next => ∀ x, Foremost (waiting py s.lines s.cursor) x → ∀ r, Open py s r → r.room py ≠ x.room py →
      r.offset < x.offset → ∃ p ∈ waiting py s.lines s.cursor, isProtected p.rank = true ∧ p.offset ≤ r.offset
  | .ack => True

/-! ## The invariant -/

/-- Rooms that keep apart: by their delivery ids, and by what the acknowledgement that may still
come would move. -/
structure Civil (py : Python) (s : Consumer) : Prop where
  guarded : Guarded py s
  apart : ∀ r ∈ s.records py, ∀ r' ∈ s.records py, r'.room py ≠ r.room py → r'.deliveryId py ≠ r.deliveryId py
  mem : ∀ o, s.offered = some o → o.record ∈ s.records py
  spared : ∀ o, s.offered = some o → ∀ r, Open py s r → r.room py ≠ o.record.room py → o.safeOffset ≤ r.offset

/-- A pass moves the cursor over nothing that is open. -/
theorem Open.moved {n : Nat} (hle : s.cursor.offset ≤ n) (hn : ∀ r ∈ waiting py s.lines s.cursor, n ≤ r.offset)
    (offered : Option Offer) {r : Record} :
    Open py { s with cursor := { s.cursor with offset := n }, offered := offered } r ↔ Open py s r := by
  constructor
  · rintro ⟨hw, hid⟩
    obtain ⟨hmem, hoff, hset⟩ := mem_waiting.mp hw
    exact ⟨mem_waiting.mpr ⟨hmem, hle.trans hoff, hset⟩, hid⟩
  · rintro ⟨hw, hid⟩
    obtain ⟨hmem, -, hset⟩ := mem_waiting.mp hw
    exact ⟨mem_waiting.mpr ⟨hmem, hn r hw, hset⟩, hid⟩

/-- What is settled stays so, unless its delivery was acknowledged. -/
theorem settled_ack (h : Guarded py s) (o : Offer) {r : Record} (hset : r.settled py s.cursor = true)
    (hid : r.deliveryId py ∉ s.recorded) : r.settled py (o.ack py s.cursor) = true := by
  rcases settled_iff.mp hset with hleg | ⟨id, hmem, hname⟩ | ⟨hplain, hbelow⟩
  · exact settled_iff.mpr (.inl hleg)
  · refine absurd (h.remembered id hmem) ?_
    unfold Record.deliveryId at hid
    rw [hname] at hid
    exact hid
  · exact settled_iff.mpr (.inr (.inr ⟨hplain, isBelowWatermark_ack o hbelow⟩))

/-- An acknowledgement opens nothing. -/
theorem Open.of_ack (h : Guarded py s) {o : Offer} {r : Record} (hr : Open py { s with
      cursor := o.ack py s.cursor, recorded := o.record.deliveryId py :: s.recorded } r) : Open py s r := by
  obtain ⟨hmem, hoff, hset⟩ := mem_waiting.mp hr.waits
  have hid := hr.unacked
  rw [List.mem_cons, not_or] at hid
  refine ⟨mem_waiting.mpr ⟨hmem, (le_max_left _ _).trans hoff, ?_⟩, hid.2⟩
  by_contra hne
  rw [settled_ack h o (by simpa using hne) hid.2] at hset
  cases hset

/-- The acknowledgement spares what stands behind its safe offset, is of another delivery, and is
not below its watermark. -/
theorem Open.ack {o : Offer} {r : Record} (hr : Open py s r) (hoff : o.safeOffset ≤ r.offset)
    (hid : r.deliveryId py ≠ o.record.deliveryId py)
    (hroom : r.room py ≠ o.record.room py ∨ ∀ m ∈ o.record.lastId, ∀ n ∈ r.lastId, m < n) :
    Open py { s with cursor := o.ack py s.cursor, recorded := o.record.deliveryId py :: s.recorded } r := by
  obtain ⟨hmem, hcur, hset⟩ := mem_waiting.mp hr.waits
  have hnot : r.deliveryId py ∉ o.record.deliveryId py :: s.recorded := by
    rw [List.mem_cons, not_or]
    exact ⟨hid, hr.unacked⟩
  refine ⟨mem_waiting.mpr ⟨hmem, max_le hcur hoff, ?_⟩, hnot⟩
  by_contra hne
  have hold : r.settled py s.cursor = true := by
    rcases settled_iff.mp (by simpa using hne) with hleg | ⟨id, hrem, hname⟩ | ⟨hplain, hbelow⟩
    · exact settled_iff.mpr (.inl hleg)
    · rw [Offer.ack_remembered] at hrem
      rcases mem_remember hrem with hrem | rfl
      · exact settled_iff.mpr (.inr (.inl ⟨id, hrem, hname⟩))
      · refine absurd ?_ hid
        unfold Record.deliveryId at hname ⊢
        rw [hname]
        rfl
    · refine settled_iff.mpr (.inr (.inr ⟨hplain, ?_⟩))
      unfold isBelowWatermark at hbelow ⊢
      rw [Bool.and_eq_true, Option.any_eq_true] at hbelow ⊢
      obtain ⟨hne', n, hn, hle⟩ := hbelow
      refine ⟨hne', n, hn, decide_eq_true ?_⟩
      have hle := of_decide_eq_true hle
      rw [ack_watermark] at hle
      split at hle
      · next m hm =>
        split at hle
        · next hsame =>
          rcases hroom with hother | hless
          · exact absurd hsame.2 hother
          · have := hless m hm n hn
            omega
        · exact hle
      · exact hle
  rw [hset] at hold
  cases hold

theorem step_ack {o : Offer} (ho : s.offered = some o) : (s.step py .ack).2 =
    { s with cursor := o.ack py s.cursor, recorded := o.record.deliveryId py :: s.recorded } := by
  obtain ⟨lines, cursor, offered, recorded⟩ := s
  obtain rfl : offered = some o := ho
  rfl

namespace Civil

theorem append (h : Civil py s) {raw : List UInt8} (hraw : Considerate py s (.append raw)) :
    Civil py { s with lines := s.lines ++ [raw] } := by
  have hnew : ∀ r ∈ recordsAt py s.lines.flatten.length [raw], s.lines.flatten.length ≤ r.offset := by
    intro r hr
    obtain ⟨p, hp, hread⟩ := mem_recordsAt hr
    have := (Lines.place_within hp).2.1
    obtain ⟨-, -, ho, -⟩ := readRecord_some hread
    omega
  refine ⟨h.guarded.append hraw.1, fun r hr r' hr' hne => ?_, fun o ho => ?_, fun o ho r hr hne => ?_⟩
  · rw [records_append] at hr hr'
    rcases List.mem_append.mp hr with hr | hr <;> rcases List.mem_append.mp hr' with hr' | hr'
    · exact h.apart r hr r' hr' hne
    · exact fun he => hraw.2 r' hr' r hr (Ne.symm hne) he.symm
    · exact hraw.2 r hr r' hr' hne
    · -- one line, one record
      rw [recordsAt_cons, recordsAt, Lines.place, List.filterMap_nil, List.append_nil] at hr hr'
      obtain rfl : r = r' := Option.some.inj ((Option.mem_toList.mp hr).symm.trans (Option.mem_toList.mp hr'))
      exact absurd rfl hne
  · rw [records_append]
    exact List.mem_append_left _ (h.mem o ho)
  · have hmem := hr.mem
    rw [records_append] at hmem
    rcases List.mem_append.mp hmem with hmem | hmem
    · obtain ⟨-, hoff, hset⟩ := mem_waiting.mp hr.waits
      exact h.spared o ho r ⟨mem_waiting.mpr ⟨hmem, hoff, hset⟩, hr.unacked⟩ hne
    · exact (h.guarded.offer o ho).le.trans (hnew r hmem)

theorem next (h : Civil py s) (hok : Considerate py s .next) : Civil py (s.step py .next).2 := by
  have hg := h.guarded.next
  obtain ⟨⟨n, hcur, hle, -, hahead⟩, hoffer, -⟩ := h.guarded.passed
  have hmoved : ∀ c, c = { s.cursor with offset := n } → Guarded py { s with cursor := c } →
      Civil py { s with cursor := c } := by
    rintro c rfl hg
    exact ⟨hg, h.apart, h.mem, fun o ho r hr hne =>
      h.spared o ho r ((Open.moved hle hahead s.offered).mp hr) hne⟩
  revert hg
  simp only [Consumer.step]
  split
  · next e c hx =>
    rw [hx] at hcur
    exact hmoved c hcur
  · next c hx =>
    rw [hx] at hcur
    exact hmoved c hcur
  · next o c hx =>
    intro hg
    rw [hx] at hcur hoffer
    obtain ⟨base, ho⟩ := hoffer (some o) rfl
    obtain ⟨hc, hmem, -, -⟩ := h.guarded.chosen ho.symm
    obtain rfl : c = { s.cursor with offset := n } := hcur
    refine ⟨hg, h.apart, fun o' ho' => ?_, fun o' ho' r hr hne => ?_⟩
    · cases ho'
      exact hmem
    · cases ho'
      have hopen := (Open.moved hle hahead (some o)).mp hr
      rcases records_apart hopen.mem hmem with rfl | hbefore | hbehind
      · exact absurd rfl hne
      · have hlt : r.offset < o.record.offset := (recordsAt_within h.guarded.lines hopen.mem).2.1.trans_le hbefore
        obtain ⟨p, hp, hprot, hpr⟩ := hok o.record ⟨hc.mem, hc.best, hc.newest, hc.oldest⟩ r hopen hne hlt
        exact (hc.spared p hp hprot (hpr.trans_lt hlt)).trans hpr
      · rcases hc.safe with ⟨x, -, -, hlt, he⟩ | ⟨he, -⟩
        · have := (recordsAt_within h.guarded.lines hmem).2.1
          omega
        · omega

theorem ack (h : Civil py s) : Civil py (s.step py .ack).2 := by
  have hg := h.guarded.ack
  revert hg
  simp only [Consumer.step]
  split
  · exact fun _ => h
  · next o ho =>
    exact fun hg => ⟨hg, h.apart, h.mem, fun o' ho' r hr hne => h.spared o' ho' r (hr.of_ack h.guarded) hne⟩

theorem step (h : Civil py s) {i : QueueInput} (hi : Considerate py s i) : Civil py (s.step py i).2 := by
  cases i with
  | append raw => exact h.append hi
  | next => exact h.next hi
  | ack => exact h.ack

/-- What is open in another room stays open when the offer is acknowledged. -/
theorem kept (h : Civil py s) {o : Offer} (ho : s.offered = some o) {r : Record} (hr : Open py s r)
    (hne : r.room py ≠ o.record.room py) : Open py (s.step py .ack).2 r := by
  rw [step_ack ho]
  exact hr.ack (h.spared o ho r hr hne) (h.apart _ (h.mem o ho) r hr.mem hne) (.inl hne)

end Civil

/-- What waits was not acknowledged. -/
theorem Done.open (h : Done py s) {r : Record} (hr : r ∈ waiting py s.lines s.cursor) : Open py s r := by
  refine ⟨hr, fun hrec => ?_⟩
  obtain ⟨hmem, hoff, hset⟩ := mem_waiting.mp hr
  rcases h.known r hmem hrec with hbehind | hknown
  · omega
  · rw [hset] at hknown
    cases hknown

end Loca.Queue
