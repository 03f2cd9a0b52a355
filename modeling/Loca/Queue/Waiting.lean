/-
# `Loca.Queue.Waiting` — what one pass over the inbox does

An inbox of complete lines is a list of records, each with the bytes it stands on.  A record
waits when it starts at or behind the cursor and the code does not count it as acknowledged.
`nextRecord_spec` says that a pass offers what `chooseRecord` chooses among the records that
wait, and moves the cursor up to none of them; `chooseRecord_spec` says what is chosen, and that
its safe offset spares every protected record.
-/
import Loca.Queue.Reader

namespace Loca.Queue

open Adapter Check

variable {py : Python}

/-! ## Records -/

def readRecord (py : Python) (p : Nat × List UInt8) : Option Record :=
  match parseRecord py p.2 p.1 with
  | .error _ => none
  | .ok fields => match recordPriority py fields with
    | .error _ => none
    | .ok rank => some ⟨fields, p.1, p.1 + p.2.length, rank⟩

/-- The records of lines that start at an offset. -/
def recordsAt (py : Python) (start : Nat) (lines : List (List UInt8)) : List Record :=
  (Lines.place start lines).filterMap (readRecord py)

/-- Does the code count the record as acknowledged? -/
def Record.settled (py : Python) (c : Cursor) (r : Record) : Bool :=
  isLegacy r.fields || (isRemembered r.fields c).toOption.any id ||
    (!isProtected r.rank && isBelowWatermark py r.fields c)

/-- The records that a pass still looks at. -/
def waiting (py : Python) (lines : List (List UInt8)) (c : Cursor) : List Record :=
  (recordsAt py 0 lines).filter fun r => c.offset ≤ r.offset && !r.settled py c

/-- The offset is where a line starts, or where the last one ends. -/
def Boundary (lines : List (List UInt8)) (n : Nat) : Prop :=
  ∃ pre post, lines = pre ++ post ∧ n = pre.flatten.length

theorem Boundary.append {lines : List (List UInt8)} {n : Nat} (h : Boundary lines n) (more : List (List UInt8)) :
    Boundary (lines ++ more) n := by
  obtain ⟨pre, post, rfl, hn⟩ := h
  exact ⟨pre, post ++ more, by rw [List.append_assoc], hn⟩

theorem Boundary.le {lines : List (List UInt8)} {n : Nat} (h : Boundary lines n) : n ≤ lines.flatten.length := by
  obtain ⟨pre, post, rfl, rfl⟩ := h
  simp

theorem recordsAt_append (start : Nat) (a b : List (List UInt8)) :
    recordsAt py start (a ++ b) = recordsAt py start a ++ recordsAt py (start + a.flatten.length) b := by
  rw [recordsAt, Lines.place_append, List.filterMap_append]
  rfl

theorem readRecord_some {p : Nat × List UInt8} {r : Record} (h : readRecord py p = some r) :
    parseRecord py p.2 p.1 = .ok r.fields ∧ recordPriority py r.fields = .ok r.rank ∧ r.offset = p.1 ∧
      r.nextOffset = p.1 + p.2.length := by
  unfold readRecord at h
  split at h
  · cases h
  · next fields hf =>
    split at h
    · cases h
    · next rank hr =>
      cases h
      exact ⟨hf, hr, rfl, rfl⟩

/-- Where a record stands. -/
theorem mem_recordsAt {start : Nat} {lines : List (List UInt8)} {r : Record} (h : r ∈ recordsAt py start lines) :
    ∃ p ∈ Lines.place start lines, readRecord py p = some r := List.mem_filterMap.mp h

theorem recordsAt_within {start : Nat} {lines : List (List UInt8)} (hl : ∀ line ∈ lines, Lines.IsLine newline line)
    {r : Record} (h : r ∈ recordsAt py start lines) :
    start ≤ r.offset ∧ r.offset < r.nextOffset ∧ r.nextOffset ≤ start + lines.flatten.length := by
  obtain ⟨p, hp, hr⟩ := mem_recordsAt h
  obtain ⟨-, -, ho, hn⟩ := readRecord_some hr
  obtain ⟨hmem, hs, he⟩ := Lines.place_within hp
  have hpos := (hl _ hmem).length_pos
  omega

theorem recordsAt_boundary {lines : List (List UInt8)} {r : Record} (h : r ∈ recordsAt py 0 lines) :
    Boundary lines r.offset ∧ Boundary lines r.nextOffset := by
  obtain ⟨p, hp, hr⟩ := mem_recordsAt h
  obtain ⟨-, -, ho, hn⟩ := readRecord_some hr
  obtain ⟨pre, post, hl, hp⟩ := Lines.mem_place.mp hp
  refine ⟨⟨pre, p.2 :: post, hl, by omega⟩, ⟨pre ++ [p.2], post, by simp [hl], ?_⟩⟩
  simp only [List.flatten_append, List.flatten_cons, List.flatten_nil, List.append_nil, List.length_append]
  omega

/-- The records stand one behind the other. -/
theorem recordsAt_ordered (start : Nat) (lines : List (List UInt8)) :
    (recordsAt py start lines).Pairwise fun r r' => r.nextOffset ≤ r'.offset := by
  refine List.Pairwise.filterMap _ (fun p q hpq r hr r' hr' => ?_) (Lines.place_ordered start lines)
  obtain ⟨-, -, -, hn⟩ := readRecord_some hr
  obtain ⟨-, -, ho, -⟩ := readRecord_some hr'
  omega

/-! ## The scan -/

theorem isAlreadyAcked_ok {fields : List (String × Json)} {c : Cursor} {b : Bool}
    (h : isAlreadyAcked py fields c = .ok b) {rank : Nat} (hr : recordPriority py fields = .ok rank)
    (start next : Nat) : Record.settled py c ⟨fields, start, next, rank⟩ = b := by
  unfold isAlreadyAcked at h
  unfold Record.settled
  split at h
  · next hleg =>
    cases h
    simp [hleg]
  · next hleg =>
    simp only [bind_ok] at h
    obtain ⟨remembered, hrem, h⟩ := h
    rw [hrem]
    cases remembered with
    | true =>
        cases h
        simp [Except.toOption]
    | false =>
        simp only [Bool.false_eq_true, if_false, bind_ok, pure_ok] at h
        obtain ⟨rank', hr', rfl⟩ := h
        obtain rfl : rank = rank' := Except.ok.inj (hr.symm.trans hr')
        simp [hleg, Except.toOption]

theorem isAlreadyAcked_rank {fields : List (String × Json)} {c : Cursor}
    (h : isAlreadyAcked py fields c = .ok false) : ∃ rank, recordPriority py fields = .ok rank := by
  unfold isAlreadyAcked at h
  split at h
  · cases h
  · simp only [bind_ok] at h
    obtain ⟨remembered, -, h⟩ := h
    cases remembered with
    | true => cases h
    | false =>
        simp only [Bool.false_eq_true, if_false, bind_ok, pure_ok] at h
        obtain ⟨rank, hr, -⟩ := h
        exact ⟨rank, hr⟩

/-- The record of one line in front of others. -/
theorem recordsAt_cons (start : Nat) (raw : List UInt8) (lines : List (List UInt8)) :
    recordsAt py start (raw :: lines) =
      (readRecord py (start, raw)).toList ++ recordsAt py (start + raw.length) lines := by
  rw [recordsAt, Lines.place, List.filterMap_cons]
  cases readRecord py (start, raw) <;> rfl

theorem readRecord_eq {start rank : Nat} {raw : List UInt8} {fields : List (String × Json)}
    (hp : parseRecord py raw start = .ok fields) (hr : recordPriority py fields = .ok rank) :
    readRecord py (start, raw) = some ⟨fields, start, start + raw.length, rank⟩ := by
  simp only [readRecord, hp, hr]

/-- The line is acknowledged: whatever it reads as is settled. -/
theorem settled_of_acked {start : Nat} {raw : List UInt8} {fields : List (String × Json)} {c : Cursor}
    (hp : parseRecord py raw start = .ok fields) (ha : isAlreadyAcked py fields c = .ok true) {r : Record}
    (hr : readRecord py (start, raw) = some r) : r.settled py c = true := by
  obtain ⟨hf, hrank, -, -⟩ := readRecord_some hr
  obtain rfl : r.fields = fields := Except.ok.inj (hf.symm.trans hp)
  exact isAlreadyAcked_ok ha hrank r.offset r.nextOffset

/-- Once something was found the cursor stays, and the rest of what waits is added. -/
theorem scan_found {lines : List (List UInt8)} {start : Nat} {c : Cursor} {found : List Record} (hf : found ≠ []) :
    (scan py lines start c found).2 = c ∧ ∀ rs, (scan py lines start c found).1 = .ok rs →
      rs = found ++ (recordsAt py start lines).filter fun r => !r.settled py c := by
  induction lines generalizing start found with
  | nil =>
      refine ⟨rfl, fun rs h => ?_⟩
      cases h
      simp [recordsAt, Lines.place]
  | cons raw lines ih =>
      simp only [scan]
      split
      · exact ⟨rfl, fun rs h => by cases h⟩
      · next fields hp =>
        split
        · exact ⟨rfl, fun rs h => by cases h⟩
        · next ha =>
          rw [if_neg (by simpa using hf), recordsAt_cons, List.filter_append]
          obtain ⟨hc, hrs⟩ := @ih (start + raw.length) found hf
          refine ⟨hc, fun rs h => ?_⟩
          have hnone : (readRecord py (start, raw)).toList.filter (fun r => !r.settled py c) = [] := by
            refine List.filter_eq_nil_iff.mpr fun r hr => ?_
            simp [settled_of_acked hp ha (Option.mem_toList.mp hr)]
          rw [hnone, List.nil_append]
          exact hrs rs h
        · next ha =>
          obtain ⟨rank, hr⟩ := isAlreadyAcked_rank ha
          rw [hr, recordsAt_cons, readRecord_eq hp hr]
          obtain ⟨hc, hrs⟩ := @ih (start + raw.length)
            (found ++ [⟨fields, start, start + raw.length, rank⟩]) (by simp)
          refine ⟨hc, fun rs h => ?_⟩
          rw [hrs rs h, Option.toList_some, List.singleton_append, List.filter_cons,
            if_pos (by rw [isAlreadyAcked_ok ha hr]; rfl), List.append_assoc, List.singleton_append]

/-- From the start: the cursor is moved over lines that are settled. -/
theorem scan_start {lines : List (List UInt8)} {c : Cursor} :
    ∃ pre post, lines = pre ++ post ∧
      (scan py lines c.offset c []).2 = { c with offset := c.offset + pre.flatten.length } ∧
      (∀ r ∈ recordsAt py c.offset pre, r.settled py c = true) ∧
      ∀ rs, (scan py lines c.offset c []).1 = .ok rs →
        rs = (recordsAt py c.offset lines).filter fun r => !r.settled py c := by
  induction lines generalizing c with
  | nil =>
      refine ⟨[], [], rfl, rfl, fun r hr => (by cases hr), fun rs h => ?_⟩
      cases h
      rfl
  | cons raw lines ih =>
      have hstay : ∃ pre post, raw :: lines = pre ++ post ∧ c = { c with offset := c.offset + pre.flatten.length } ∧
          ∀ r ∈ recordsAt py c.offset pre, r.settled py c = true :=
        ⟨[], raw :: lines, rfl, rfl, fun r hr => by cases hr⟩
      obtain ⟨pre₀, post₀, hl₀, hc₀, hs₀⟩ := hstay
      simp only [scan]
      split
      · exact ⟨pre₀, post₀, hl₀, hc₀, hs₀, fun rs h => by cases h⟩
      · next fields hp =>
        split
        · exact ⟨pre₀, post₀, hl₀, hc₀, hs₀, fun rs h => by cases h⟩
        · next ha =>
          obtain ⟨pre, post, rfl, hc, hs, hrs⟩ := @ih { c with offset := c.offset + raw.length }
          rw [if_pos (by rfl)]
          refine ⟨raw :: pre, post, rfl, ?_, ?_, fun rs h => ?_⟩
          · rw [hc, List.flatten_cons, List.length_append, Nat.add_assoc]
          · intro r hr
            rw [recordsAt_cons] at hr
            rcases List.mem_append.mp hr with hr | hr
            · exact settled_of_acked hp ha (Option.mem_toList.mp hr)
            · exact hs r hr
          · rw [hrs rs h, recordsAt_cons, List.filter_append]
            have hnone : (readRecord py (c.offset, raw)).toList.filter (fun r => !r.settled py c) = [] := by
              refine List.filter_eq_nil_iff.mpr fun r hr => ?_
              simp [settled_of_acked hp ha (Option.mem_toList.mp hr)]
            rw [hnone, List.nil_append]
            rfl
        · next ha =>
          obtain ⟨rank, hr⟩ := isAlreadyAcked_rank ha
          rw [hr, recordsAt_cons, readRecord_eq hp hr]
          obtain ⟨hc, hrs⟩ := @scan_found py lines (c.offset + raw.length) c
            ([] ++ [⟨fields, c.offset, c.offset + raw.length, rank⟩]) (by simp)
          refine ⟨pre₀, post₀, hl₀, hc.trans hc₀, hs₀, fun rs h => ?_⟩
          rw [hrs rs h, Option.toList_some, List.singleton_append, List.filter_cons,
            if_pos (by rw [isAlreadyAcked_ok ha hr]; rfl), List.nil_append, List.singleton_append]

/-! ## Valid lines -/

/-- A complete line that reads as a record, wherever it stands, and that the code can look up.
The mark of retired metadata is the queue's own, no envelope carries it. -/
structure ValidLine (py : Python) (raw : List UInt8) : Prop where
  line : Lines.IsLine newline raw
  reads : ∃ fields rank, parseRecord py raw 0 = .ok fields ∧ recordPriority py fields = .ok rank ∧
    ∀ c, ∃ b, isAlreadyAcked py fields c = .ok b
  unmarked : ∀ fields, py.loads raw = some (.obj fields) → Json.field "_legacy_context_only" fields = none

/-- Only the text of an error speaks of the offset. -/
theorem parseRecord_offset {raw : List UInt8} {fields : List (String × Json)}
    (h : parseRecord py raw 0 = .ok fields) (n : Nat) : parseRecord py raw n = .ok fields := by
  unfold parseRecord at h ⊢
  split at h
  · cases h
  · next f hl =>
    simp only [bind_ok, require_ok, pure_ok, exists_const] at h ⊢
    exact h
  · cases h

/-- The event of a record is hidden, kept or cleaned. -/
theorem parseRecord_fields {raw : List UInt8} {n : Nat} {fields : List (String × Json)}
    (h : parseRecord py raw n = .ok fields) : ∃ f, py.loads raw = some (.obj f) ∧
      (fields = Json.setField "event" (.obj [("t", .str "legacy_context")])
          (Json.setField "priority" (.str "informational")
            (Json.setField "_legacy_context_only" (.bool true) f)) ∨
        fields = f ∨ ∃ clean, fields = Json.setField "event" (.obj clean) f) := by
  unfold parseRecord at h
  split at h
  · cases h
  · next f hl =>
    simp only [bind_ok, require_ok, pure_ok, exists_const] at h
    obtain ⟨-, rfl⟩ := h
    refine ⟨f, hl, ?_⟩
    split
    · split
      · exact .inl rfl
      · exact .inr (.inl rfl)
      · exact .inr (.inr ⟨_, rfl⟩)
    · exact .inr (.inl rfl)
  · cases h

/-- Retired metadata has no rank worth protecting. -/
theorem ValidLine.unmarked_protected {raw : List UInt8} (hv : ValidLine py raw) {n rank : Nat}
    {fields : List (String × Json)} (hp : parseRecord py raw n = .ok fields)
    (hr : recordPriority py fields = .ok rank) (h : isProtected rank = true) : isLegacy fields = false := by
  obtain ⟨f, hl, hfields⟩ := parseRecord_fields hp
  have hmark := hv.unmarked f hl
  rcases hfields with rfl | rfl | ⟨clean, rfl⟩
  · -- the mark comes with the lowest rank
    exfalso
    unfold recordPriority at hr
    simp only [Json.field_setField] at hr
    cases hr
    cases h
  · unfold isLegacy
    rw [hmark]
    rfl
  · unfold isLegacy
    rw [Json.field_setField, if_neg (by decide), hmark]
    rfl

theorem scan_valid {lines : List (List UInt8)} (hv : ∀ line ∈ lines, ValidLine py line) (start : Nat) (c : Cursor)
    (found : List Record) : ∃ rs, (scan py lines start c found).1 = .ok rs := by
  induction lines generalizing start c found with
  | nil => exact ⟨found, rfl⟩
  | cons raw lines ih =>
      have hrest := fun line hline => hv line (List.mem_cons_of_mem raw hline)
      obtain ⟨fields, rank, hp, hr, ha⟩ := (hv raw List.mem_cons_self).reads
      obtain ⟨b, hb⟩ := ha c
      simp only [scan, parseRecord_offset hp, hb, hr]
      cases b <;> exact ih hrest _ _ _

/-! ## One pass -/

/-- What waits is what is not settled behind the boundary. -/
theorem waiting_eq {pre post : List (List UInt8)} (hl : ∀ line ∈ pre ++ post, Lines.IsLine newline line) {c : Cursor}
    (hc : c.offset = pre.flatten.length) :
    waiting py (pre ++ post) c = (recordsAt py c.offset post).filter fun r => !r.settled py c := by
  have hpre : (recordsAt py 0 pre).filter (fun r => c.offset ≤ r.offset && !r.settled py c) = [] := by
    refine List.filter_eq_nil_iff.mpr fun r hr => ?_
    have := recordsAt_within (fun line hline => hl line (List.mem_append_left _ hline)) hr
    have hlt : ¬ c.offset ≤ r.offset := by omega
    simp [hlt]
  rw [waiting, recordsAt_append, List.filter_append, hpre, List.nil_append, Nat.zero_add, ← hc]
  refine List.filter_congr fun r hr => ?_
  have := recordsAt_within (fun line hline => hl line (List.mem_append_right _ hline)) hr
  simp [this.1]

/-- What a pass over complete lines does to the cursor, and what it offers. -/
structure Passed (py : Python) (lines : List (List UInt8)) (c : Cursor)
    (x : Except Fault (Option Offer) × Cursor) : Prop where
  cursor : ∃ n, x.2 = { c with offset := n } ∧ c.offset ≤ n ∧ Boundary lines n ∧
    ∀ r ∈ waiting py lines c, n ≤ r.offset
  offer : ∀ a, x.1 = .ok a → ∃ base, a = chooseRecord (waiting py lines c) base
  valid : (∀ line ∈ lines, ValidLine py line) → ∃ a, x.1 = .ok a

theorem nextRecord_spec {lines : List (List UInt8)} (hl : ∀ line ∈ lines, Lines.IsLine newline line) {c : Cursor}
    (hc : Boundary lines c.offset) : Passed py lines c (nextRecord py lines.flatten c) := by
  have hle := hc.le
  obtain ⟨pre, post, rfl, hn⟩ := hc
  have hpost : ∀ line ∈ post, Lines.IsLine newline line := fun line hline => hl line (List.mem_append_right _ hline)
  have hdrop : (pre ++ post).flatten.drop c.offset = post.flatten := by
    rw [List.flatten_append, hn, List.drop_left]
  obtain ⟨hlines, hrest⟩ := Lines.complete_lines hpost
  have hkept : (if (pre ++ post).flatten.length < c.offset then { c with offset := 0 } else c) = c :=
    if_neg (by omega)
  unfold nextRecord
  rw [hkept]
  dsimp only
  split
  · rw [hdrop, readLines, hlines, hrest, if_pos rfl, List.append_nil]
    have hw := @waiting_eq py pre post hl c hn
    obtain ⟨done, left, hsplit, hcur, hdone, hrs⟩ := @scan_start py post c
    have hcursor : ∃ n, (scan py post c.offset c []).2 = { c with offset := n } ∧ c.offset ≤ n ∧
        Boundary (pre ++ post) n ∧ ∀ r ∈ waiting py (pre ++ post) c, n ≤ r.offset := by
      refine ⟨_, hcur, Nat.le_add_right _ _, ⟨pre ++ done, left, by simp [hsplit], by simp [hn]⟩, fun r hr => ?_⟩
      rw [hw, hsplit, recordsAt_append] at hr
      obtain ⟨hr, hns⟩ := List.mem_filter.mp hr
      rcases List.mem_append.mp hr with hr | hr
      · rw [hdone r hr] at hns
        cases hns
      · exact (recordsAt_within (fun line hline => hpost line (hsplit ▸ List.mem_append_right _ hline)) hr).1
    split
    · next e c' hscan =>
      rw [hscan] at hcursor
      refine ⟨hcursor, fun a h => (by cases h), fun hv => ?_⟩
      obtain ⟨rs, hok⟩ := scan_valid (fun line hline => hv line (List.mem_append_right pre hline)) c.offset c []
      rw [hscan] at hok
      cases hok
    · next rs c' hscan =>
      rw [hscan] at hcursor hrs
      refine ⟨hcursor, fun a h => ?_, fun _ => ⟨_, rfl⟩⟩
      cases h
      exact ⟨c'.offset, by rw [hw, ← hrs rs rfl]⟩
  · next hend =>
    -- the cursor stands at the end: nothing waits
    have hnil : waiting py (pre ++ post) c = [] := by
      refine List.filter_eq_nil_iff.mpr fun r hr => ?_
      have := recordsAt_within hl hr
      have hlt : ¬ c.offset ≤ r.offset := by omega
      simp [hlt]
    refine ⟨⟨c.offset, rfl, le_refl _, ⟨pre, post, rfl, hn⟩, fun r hr => ?_⟩, fun a h => ?_, fun _ => ⟨_, rfl⟩⟩
    · rw [hnil] at hr
      cases hr
    · cases h
      exact ⟨0, by rw [hnil]; rfl⟩

/-! ## What is chosen -/

/-- Of records that stand one behind the other: the most urgent one, with a safe offset behind no
protected one but itself. -/
structure Chosen (rs : List Record) (o : Offer) : Prop where
  mem : o.record ∈ rs
  best : ∀ r ∈ rs, o.record.rank ≤ r.rank
  /-- The safe offset is where a protected record starts, or where the chosen one ends. -/
  safe : (∃ r ∈ rs, isProtected r.rank = true ∧ r.offset < o.record.offset ∧ o.safeOffset = r.offset) ∨
    (o.safeOffset = o.record.nextOffset ∧
      ∀ r ∈ rs, isProtected r.rank = true → o.record.offset ≤ r.offset)
  spared : ∀ r ∈ rs, isProtected r.rank = true → r.offset < o.record.offset → o.safeOffset ≤ r.offset
  newest : isCompactable o.record.rank = true → ∀ r ∈ rs, r.rank = o.record.rank → r.offset ≤ o.record.offset
  oldest : isCompactable o.record.rank = false → ∀ r ∈ rs, r.rank = o.record.rank → o.record.offset ≤ r.offset

theorem chooseRecord_none {rs : List Record} {base : Nat} : chooseRecord rs base = none ↔ rs = [] := by
  constructor
  · intro h
    by_contra hne
    obtain ⟨best, hbest⟩ : ∃ best, (rs.map Record.rank).min? = some best := by
      cases hm : (rs.map Record.rank).min? with
      | none => exact absurd (by simpa using List.min?_eq_none_iff.mp hm) hne
      | some best => exact ⟨best, rfl⟩
    obtain ⟨r, hr, rfl⟩ := List.mem_map.mp (List.min?_mem hbest)
    have hcand : rs.filter (fun x => x.rank = r.rank) ≠ [] :=
      List.ne_nil_of_mem (List.mem_filter.mpr ⟨hr, by simp⟩)
    simp only [chooseRecord, hbest, Option.bind_some, Option.map_eq_none_iff] at h
    split at h
    · exact hcand (List.getLast?_eq_none_iff.mp h)
    · exact hcand (List.head?_eq_none_iff.mp h)
  · rintro rfl
    rfl

theorem chooseRecord_spec {rs : List Record} (hord : rs.Pairwise fun r r' => r.nextOffset ≤ r'.offset)
    (hpos : ∀ r ∈ rs, r.offset < r.nextOffset) {base : Nat} {o : Offer} (h : chooseRecord rs base = some o) :
    Chosen rs o := by
  simp only [chooseRecord, Option.bind_eq_some_iff, Option.map_eq_some_iff] at h
  obtain ⟨best, hbest, r, hr, rfl⟩ := h
  have hlt : rs.Pairwise fun r r' => r.offset < r'.offset :=
    hord.imp_of_mem fun {a b} ha _ hab => (hpos a ha).trans_le hab
  have hcand : r ∈ rs.filter fun x => x.rank = best := by
    split at hr
    · exact List.mem_of_getLast? hr
    · exact List.mem_of_head? hr
  obtain ⟨hmem, hrank⟩ := List.mem_filter.mp hcand
  obtain rfl : r.rank = best := by simpa using hrank
  have hmin := (List.min?_eq_some_iff.mp hbest).2
  have hltc : (rs.filter fun x => x.rank = r.rank).Pairwise fun r r' => r.offset < r'.offset := hlt.filter _
  generalize hprot : (((rs.filter fun x => x.offset < r.offset).filter fun x => isProtected x.rank).map
    Record.offset).min? = least
  have hprior : ∀ x, x ∈ (rs.filter fun x => x.offset < r.offset).filter (fun x => isProtected x.rank) ↔
      x ∈ rs ∧ x.offset < r.offset ∧ isProtected x.rank = true := by
    intro x
    simp only [List.mem_filter, decide_eq_true_eq, and_assoc]
  refine ⟨hmem, fun x hx => hmin _ (List.mem_map_of_mem hx), ?_, ?_, ?_, ?_⟩
  · cases least with
    | none =>
        refine .inr ⟨rfl, fun x hx hp => ?_⟩
        show r.offset ≤ x.offset
        by_contra hlt'
        have hnil := List.min?_eq_none_iff.mp hprot
        rw [List.map_eq_nil_iff] at hnil
        have := (hprior x).mpr ⟨hx, by omega, hp⟩
        rw [hnil] at this
        cases this
    | some n =>
        obtain ⟨x, hx, rfl⟩ := List.mem_map.mp (List.min?_mem hprot)
        obtain ⟨hx, hxlt, hp⟩ := (hprior x).mp hx
        exact .inl ⟨x, hx, hp, hxlt, rfl⟩
  · intro x hx hp hxlt
    cases least with
    | none =>
        have hnil := List.min?_eq_none_iff.mp hprot
        rw [List.map_eq_nil_iff] at hnil
        have := (hprior x).mpr ⟨hx, hxlt, hp⟩
        rw [hnil] at this
        cases this
    | some n => exact (List.min?_eq_some_iff.mp hprot).2 _ (List.mem_map_of_mem ((hprior x).mpr ⟨hx, hxlt, hp⟩))
  · intro hcomp x hx hxr
    rw [if_pos hcomp] at hr
    obtain ⟨front, hfront⟩ := List.getLast?_eq_some_iff.mp hr
    rw [hfront] at hltc
    have hxc : x ∈ front ++ [r] := hfront ▸ List.mem_filter.mpr ⟨hx, by simpa using hxr⟩
    rcases List.mem_append.mp hxc with hxf | hxl
    · exact ((List.pairwise_append.mp hltc).2.2 x hxf r (by simp)).le
    · rw [List.mem_singleton.mp hxl]
  · intro hcomp x hx hxr
    rw [if_neg (by simpa using hcomp)] at hr
    obtain ⟨back, hback⟩ := List.head?_eq_some_iff.mp hr
    rw [hback] at hltc
    have hxc : x ∈ r :: back := hback ▸ List.mem_filter.mpr ⟨hx, by simpa using hxr⟩
    rcases List.mem_cons.mp hxc with rfl | hxb
    · exact le_refl _
    · exact (List.rel_of_pairwise_cons hltc hxb).le

end Loca.Queue
