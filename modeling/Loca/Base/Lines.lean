/-
# `Base.Lines` — a growing stream, cut into complete lines

A line ends with a separator; what comes after the last separator is the incomplete rest.
Both are computed from the left, with the part of a line already seen as the accumulator, so
that what a reader sees of a stream that has grown is what it saw before and then the lines of
the new bytes (`complete_append`).  Complete lines put end to end read back as themselves
(`complete_flatten`).
-/
import Mathlib.Data.List.Basic

namespace Lines

variable {α : Type} [DecidableEq α] (sep : α)

/-- The complete lines of a stream, each with its separator, after `part` of a line. -/
def linesFrom (part : List α) : List α → List (List α)
  | [] => []
  | b :: bytes => if b = sep then (part ++ [b]) :: linesFrom [] bytes else linesFrom (part ++ [b]) bytes

/-- What is left after the last separator. -/
def restFrom (part : List α) : List α → List α
  | [] => part
  | b :: bytes => if b = sep then restFrom [] bytes else restFrom (part ++ [b]) bytes

def complete (bytes : List α) : List (List α) := linesFrom sep [] bytes

def rest (bytes : List α) : List α := restFrom sep [] bytes

variable {sep}

theorem linesFrom_append (part a b : List α) :
    linesFrom sep part (a ++ b) = linesFrom sep part a ++ linesFrom sep (restFrom sep part a) b := by
  induction a generalizing part with
  | nil => rfl
  | cons x a ih =>
      simp only [List.cons_append, linesFrom, restFrom]
      split
      · rw [ih, List.cons_append]
      · exact ih _

theorem restFrom_append (part a b : List α) :
    restFrom sep part (a ++ b) = restFrom sep (restFrom sep part a) b := by
  induction a generalizing part with
  | nil => rfl
  | cons x a ih =>
      simp only [List.cons_append, restFrom]
      split
      · exact ih _
      · exact ih _

/-- Nothing is lost. -/
theorem linesFrom_flatten_rest (part bytes : List α) :
    (linesFrom sep part bytes).flatten ++ restFrom sep part bytes = part ++ bytes := by
  induction bytes generalizing part with
  | nil => simp [linesFrom, restFrom]
  | cons b bytes ih =>
      simp only [linesFrom, restFrom]
      split
      · rw [List.flatten_cons, List.append_assoc, ih]
        simp
      · rw [ih]
        simp

/-- A part without separator is put before the first line. -/
theorem linesFrom_part {part : List α} (h : sep ∉ part) (bytes : List α) :
    linesFrom sep [] (part ++ bytes) = linesFrom sep part bytes ∧
      restFrom sep [] (part ++ bytes) = restFrom sep part bytes := by
  suffices hpre : ∀ pre, linesFrom sep pre (part ++ bytes) = linesFrom sep (pre ++ part) bytes ∧
      restFrom sep pre (part ++ bytes) = restFrom sep (pre ++ part) bytes from hpre []
  induction part with
  | nil =>
      intro pre
      simp
  | cons x part ih =>
      intro pre
      have hx : x ≠ sep := fun hx => h (hx ▸ List.mem_cons_self)
      have hrest := ih (fun hm => h (List.mem_cons_of_mem _ hm)) (pre ++ [x])
      simp only [List.cons_append, linesFrom, restFrom, if_neg hx]
      simpa using hrest

theorem linesFrom_flatten {part : List α} (h : sep ∉ part) (bytes : List α) :
    linesFrom sep [] (linesFrom sep part bytes).flatten = linesFrom sep part bytes ∧
      restFrom sep [] (linesFrom sep part bytes).flatten = [] := by
  induction bytes generalizing part with
  | nil => exact ⟨rfl, rfl⟩
  | cons b bytes ih =>
      simp only [linesFrom]
      split
      · next hb =>
        obtain ⟨hl, hr⟩ := @ih [] (by simp)
        obtain ⟨hl', hr'⟩ := linesFrom_part h ([b] ++ (linesFrom sep [] bytes).flatten)
        rw [List.flatten_cons, List.append_assoc, hl', hr']
        simp [linesFrom, restFrom, if_pos hb, hl, hr]
      · next hb =>
        refine ih ?_
        simp [h, Ne.symm hb]

/-- A stream that ends with a line, grown: its lines, then the new ones. -/
theorem complete_append {a : List α} (h : rest sep a = []) (b : List α) :
    complete sep (a ++ b) = complete sep a ++ complete sep b := by
  unfold complete
  rw [linesFrom_append, show restFrom sep [] a = [] from h]

theorem rest_append {a : List α} (h : rest sep a = []) (b : List α) :
    rest sep (a ++ b) = rest sep b := by
  unfold rest
  rw [restFrom_append, show restFrom sep [] a = [] from h]

theorem complete_flatten (bytes : List α) :
    complete sep (complete sep bytes).flatten = complete sep bytes :=
  (linesFrom_flatten (by simp) bytes).1

theorem rest_flatten (bytes : List α) : rest sep (complete sep bytes).flatten = [] :=
  (linesFrom_flatten (by simp) bytes).2

/-- The complete lines come first. -/
theorem complete_flatten_prefix (bytes : List α) : (complete sep bytes).flatten <+: bytes :=
  ⟨rest sep bytes, linesFrom_flatten_rest [] bytes⟩

theorem flatten_complete {bytes : List α} (h : rest sep bytes = []) :
    (complete sep bytes).flatten = bytes := by
  have hall : (complete sep bytes).flatten ++ rest sep bytes = bytes := linesFrom_flatten_rest [] bytes
  rwa [h, List.append_nil] at hall

theorem getLast?_of_restFrom {part bytes : List α} (h : restFrom sep part bytes = []) :
    part ++ bytes = [] ∨ (part ++ bytes).getLast? = some sep := by
  induction bytes generalizing part with
  | nil => exact .inl (by simpa [restFrom] using h)
  | cons b bytes ih =>
      right
      simp only [restFrom] at h
      split at h
      · next hb =>
        rcases ih h with hnil | hlast
        · have hnil' : bytes = [] := by simpa using hnil
          subst hnil'
          simp [hb]
        · rw [List.nil_append] at hlast
          rw [List.getLast?_append, List.getLast?_cons, hlast]
          simp
      · rcases ih h with hnil | hlast
        · simp at hnil
        · simpa using hlast

/-- A stream without a rest is empty or ends with a separator. -/
theorem getLast?_of_rest {bytes : List α} (h : rest sep bytes = []) :
    bytes = [] ∨ bytes.getLast? = some sep := by
  simpa using @getLast?_of_restFrom α _ sep [] bytes h

theorem rest_of_getLast? {bytes : List α} (h : bytes = [] ∨ bytes.getLast? = some sep) :
    rest sep bytes = [] := by
  rcases h with rfl | h
  · rfl
  · obtain ⟨body, rfl⟩ := List.getLast?_eq_some_iff.mp h
    unfold rest
    rw [restFrom_append]
    simp [restFrom]

/-- Bytes without a separator only prolong the rest. -/
theorem complete_append_clean {a b : List α} (ha : rest sep a = []) (hb : sep ∉ b) :
    complete sep (a ++ b) = complete sep a ∧ rest sep (a ++ b) = b := by
  obtain ⟨hl, hr⟩ := linesFrom_part hb []
  rw [complete_append ha, rest_append ha]
  rw [List.append_nil] at hl hr
  exact ⟨by rw [show complete sep b = [] from hl, List.append_nil], hr⟩

omit [DecidableEq α] in
/-- Past the last separator no prefix ends with one. -/
theorem prefix_of_getLast? {a b p : List α} (hb : sep ∉ b) (hp : p <+: a ++ b)
    (h : p = [] ∨ p.getLast? = some sep) : p <+: a := by
  rcases Nat.le_total p.length a.length with hle | hle
  · exact List.prefix_of_prefix_length_le hp (List.prefix_append a b) hle
  · obtain ⟨q, rfl⟩ := List.prefix_of_prefix_length_le (List.prefix_append a b) hp hle
    have hq : q <+: b := (List.prefix_append_right_inj a).mp hp
    cases hlast : q.getLast? with
    | none =>
        obtain rfl : q = [] := List.getLast?_eq_none_iff.mp hlast
        exact (List.append_nil a).symm ▸ List.prefix_refl a
    | some x =>
        have hx : x = sep := by
          rcases h with h | h
          · rw [(List.append_eq_nil_iff.mp h).2] at hlast
            cases hlast
          · simpa [List.getLast?_append, hlast] using h
        exact absurd (hq.subset (List.mem_of_getLast? (hx ▸ hlast))) hb

/-! ## Whole lines, and where they stand -/

/-- A line: nothing but its last element separates. -/
def IsLine (sep : α) (line : List α) : Prop := ∃ body, sep ∉ body ∧ line = body ++ [sep]

omit [DecidableEq α] in
theorem IsLine.length_pos {line : List α} (h : IsLine sep line) : 0 < line.length := by
  obtain ⟨body, -, rfl⟩ := h
  simp

/-- Lines put end to end read back as themselves, and nothing is left. -/
theorem complete_lines {lines : List (List α)} (h : ∀ line ∈ lines, IsLine sep line) :
    complete sep lines.flatten = lines ∧ rest sep lines.flatten = [] := by
  induction lines with
  | nil => exact ⟨rfl, rfl⟩
  | cons line lines ih =>
      obtain ⟨body, hbody, rfl⟩ := h line List.mem_cons_self
      obtain ⟨hl, hr⟩ := ih fun line hline => h line (List.mem_cons_of_mem _ hline)
      obtain ⟨hl', hr'⟩ := linesFrom_part hbody ([sep] ++ lines.flatten)
      rw [List.flatten_cons, List.append_assoc]
      unfold complete rest at *
      rw [hl', hr']
      simp [linesFrom, restFrom, hl, hr]

/-- Each line with the position it starts at. -/
def place (start : Nat) : List (List α) → List (Nat × List α)
  | [] => []
  | line :: lines => (start, line) :: place (start + line.length) lines

omit [DecidableEq α] in
theorem place_append (start : Nat) (a b : List (List α)) :
    place start (a ++ b) = place start a ++ place (start + a.flatten.length) b := by
  induction a generalizing start with
  | nil => rfl
  | cons line a ih =>
      simp only [List.cons_append, place, ih, List.flatten_cons, List.length_append, Nat.add_assoc]

omit [DecidableEq α] in
/-- A line stands where the lines before it end. -/
theorem mem_place {start : Nat} {lines : List (List α)} {p : Nat × List α} :
    p ∈ place start lines ↔ ∃ pre post, lines = pre ++ p.2 :: post ∧ p.1 = start + pre.flatten.length := by
  induction lines generalizing start with
  | nil => simp [place]
  | cons line lines ih =>
      rw [place, List.mem_cons, ih]
      constructor
      · rintro (rfl | ⟨pre, post, rfl, hp⟩)
        · exact ⟨[], lines, rfl, by simp⟩
        · exact ⟨line :: pre, post, rfl, by simp [hp, Nat.add_assoc]⟩
      · rintro ⟨pre, post, hl, hp⟩
        cases pre with
        | nil =>
            obtain ⟨rfl, rfl⟩ := List.cons.inj hl
            exact .inl (Prod.ext (by simpa using hp) rfl)
        | cons line' pre =>
            obtain ⟨rfl, rfl⟩ := List.cons.inj hl
            exact .inr ⟨pre, post, rfl, by simp [hp, Nat.add_assoc]⟩

omit [DecidableEq α] in
/-- A placed line lies within the lines. -/
theorem place_within {start : Nat} {lines : List (List α)} {p : Nat × List α} (h : p ∈ place start lines) :
    p.2 ∈ lines ∧ start ≤ p.1 ∧ p.1 + p.2.length ≤ start + lines.flatten.length := by
  obtain ⟨pre, post, rfl, hp⟩ := mem_place.mp h
  refine ⟨by simp, by omega, ?_⟩
  simp only [List.flatten_append, List.flatten_cons, List.length_append]
  omega

omit [DecidableEq α] in
/-- Of two placed lines one ends before the other starts. -/
theorem place_ordered (start : Nat) (lines : List (List α)) :
    (place start lines).Pairwise fun p q => p.1 + p.2.length ≤ q.1 := by
  induction lines generalizing start with
  | nil => exact List.Pairwise.nil
  | cons line lines ih => exact List.Pairwise.cons (fun q hq => (place_within hq).2.1) (ih _)

end Lines
