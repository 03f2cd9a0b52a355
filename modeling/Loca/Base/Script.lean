/-
# `Base.Script` — an edit script between two texts, piece by piece

A text is a list of pieces, here lists themselves: lines, each with its break.  A script says
how one text becomes another, stretch by stretch (`Transforms`): each stretch starts where the
last one ended, on both sides, and a stretch that is said to be equal is.

`patch` is what a holder of the old text does with the unequal stretches alone: it keeps what
stands between them.  `patch_sections` is the point: it then holds the new text.
-/
import Mathlib.Data.List.Basic

namespace Script

variable {α : Type}

/-! ## Scripts -/

inductive Tag
  | equal
  | replace
  | delete
  | insert
  deriving DecidableEq, Repr

/-- One stretch: `a[i1:i2]` becomes `b[j1:j2]`. -/
structure Opcode where
  tag : Tag
  i1 : Nat
  i2 : Nat
  j1 : Nat
  j2 : Nat
  deriving DecidableEq, Repr

/-- `a[i:k]`. -/
def slice (a : List α) (i k : Nat) : List α := (a.drop i).take (k - i)

/-- From `i` and `j` on, the stretches lead through both texts. -/
inductive Transforms (a b : List α) : Nat → Nat → List Opcode → Prop
  | nil : Transforms a b a.length b.length []
  | cons {o : Opcode} {os : List Opcode} (lefts : o.i1 ≤ o.i2) (rights : o.j1 ≤ o.j2)
      (same : o.tag = .equal → slice a o.i1 o.i2 = slice b o.j1 o.j2)
      (rest : Transforms a b o.i2 o.j2 os) : Transforms a b o.i1 o.j1 (o :: os)

/-! ## The unequal stretches -/

/-- The pieces `start … stop` go, and this text stands in their place. -/
structure Section (α : Type) where
  start : Nat
  stop : Nat
  inserted : List α
  deriving DecidableEq, Repr

def Opcode.section (b : List (List α)) (o : Opcode) : Section α :=
  ⟨o.i1, o.i2, (slice b o.j1 o.j2).flatten⟩

def sections (b : List (List α)) (os : List Opcode) : List (Section α) :=
  (os.filter fun o => o.tag ≠ .equal).map (Opcode.section b)

/-- Replace the sections, from the piece `pos` on. -/
def patch : Nat → List (List α) → List (Section α) → List α
  | _, rest, [] => rest.flatten
  | pos, rest, s :: ss =>
      (rest.take (s.start - pos)).flatten ++ s.inserted ++ patch s.stop (rest.drop (s.stop - pos)) ss

/-! ## Patching is transforming -/

theorem drop_eq_slice (a : List α) {i k : Nat} (h : i ≤ k) : a.drop i = slice a i k ++ a.drop k := by
  unfold slice
  have hdrop : a.drop k = (a.drop i).drop (k - i) := by
    rw [List.drop_drop, Nat.add_sub_cancel' h]
  rw [hdrop, List.take_append_drop]

/-- What stands before the next section stays. -/
theorem patch_skip {a : List (List α)} {i k : Nat} (h : i ≤ k) {ss : List (Section α)}
    (hs : ∀ s ∈ ss, k ≤ s.start ∧ s.start ≤ s.stop) :
    patch i (a.drop i) ss = (slice a i k).flatten ++ patch k (a.drop k) ss := by
  cases ss with
  | nil =>
      unfold patch
      rw [drop_eq_slice a h, List.flatten_append]
  | cons s ss =>
      obtain ⟨hk, hstop⟩ := hs s List.mem_cons_self
      have htake : (a.drop i).take (s.start - i) = slice a i k ++ (a.drop k).take (s.start - k) := by
        show slice a i s.start = slice a i k ++ slice a k s.start
        have hall := drop_eq_slice a (Nat.le_trans h hk)
        rw [drop_eq_slice a h, drop_eq_slice a hk, ← List.append_assoc] at hall
        exact (List.append_cancel_right hall).symm
      have hdrop : ∀ {n}, n ≤ s.stop → (a.drop n).drop (s.stop - n) = a.drop s.stop := by
        intro n hn
        rw [List.drop_drop, Nat.add_sub_cancel' hn]
      unfold patch
      rw [htake, hdrop (Nat.le_trans h (Nat.le_trans hk hstop)),
        hdrop (Nat.le_trans hk hstop), List.flatten_append]
      simp only [List.append_assoc]

theorem Transforms.bounds {a b : List α} {i j : Nat} {os : List Opcode} (h : Transforms a b i j os) :
    ∀ o ∈ os, i ≤ o.i1 ∧ o.i1 ≤ o.i2 := by
  induction h with
  | nil => exact fun o ho => (by cases ho)
  | @cons o os lefts _ _ _ ih =>
      intro x hx
      rcases List.mem_cons.mp hx with rfl | hx
      · exact ⟨Nat.le_refl _, lefts⟩
      · exact ⟨Nat.le_trans lefts (ih x hx).1, (ih x hx).2⟩

/-- The old text with its unequal stretches replaced is the new text. -/
theorem patch_sections {a b : List (List α)} {i j : Nat} {os : List Opcode}
    (h : Transforms a b i j os) : patch i (a.drop i) (sections b os) = (b.drop j).flatten := by
  induction h with
  | nil => simp [sections, patch]
  | @cons o os lefts rights same rest ih =>
      have hnew : (b.drop o.j1).flatten = (slice b o.j1 o.j2).flatten ++ (b.drop o.j2).flatten := by
        rw [drop_eq_slice b rights, List.flatten_append]
      rw [hnew, ← ih]
      by_cases ht : o.tag = .equal
      · have hskip : sections b (o :: os) = sections b os := by
          simp [sections, ht]
        rw [hskip, ← same ht]
        refine patch_skip lefts fun s hs => ?_
        obtain ⟨x, hx, rfl⟩ := List.mem_map.mp hs
        exact rest.bounds x (List.mem_filter.mp hx).1
      · have hone : sections b (o :: os) = o.section b :: sections b os := by
          simp [sections, ht]
        rw [hone, patch]
        simp [Opcode.section, List.drop_drop, Nat.add_sub_cancel' lefts]

/-- A script between two whole texts. -/
theorem patch_whole {a b : List (List α)} {os : List Opcode} (h : Transforms a b 0 0 os) :
    patch 0 a (sections b os) = b.flatten := patch_sections h

end Script
