/-
# `Base.Joined` — texts put end to end with a separator

A document that is kept as the join of its parts, and measured in bytes.  `String.intercalate`
runs from the left; the lemmas here look at it from the right, where a document grows:
`intercalate_concat` is one more part, and `byteLen_intercalate` adds the bytes up
(`joinedBytes`).  The sum is the same from either end and grows with every part, so a reader
with a budget who takes parts until one does not fit has as many as fit (`fitting_le`).
-/
import Mathlib.Algebra.Order.BigOperators.Group.List
import Mathlib.Algebra.Order.Group.Nat
import Mathlib.Algebra.Ring.Nat
import Mathlib.Data.List.Induction
import Loca.Base.Text

namespace Joined

open Text

theorem byteLen_append (a b : String) : byteLen (a ++ b) = byteLen a + byteLen b := String.utf8ByteSize_append

theorem byteLen_eq_zero {s : String} : byteLen s = 0 ↔ s = "" := String.utf8ByteSize_eq_zero_iff

/-! ## One more part -/

theorem intercalate_concat (sep : String) (l : List String) (x : String) :
    String.intercalate sep (l ++ [x]) = if l = [] then x else String.intercalate sep l ++ sep ++ x := by
  split
  · next h =>
    subst h
    exact String.intercalate_singleton
  · next h => rw [String.intercalate_append_of_ne_nil h (List.cons_ne_nil x []), String.intercalate_singleton]

/-- The bytes of the parts, with a separator of `k` bytes between two. -/
def joinedBytes (k : Nat) (l : List String) : Nat := (l.map byteLen).sum + k * (l.length - 1)

variable {k : Nat} {l l' : List String}

theorem joinedBytes_concat (k : Nat) (l : List String) (x : String) :
    joinedBytes k (l ++ [x]) = joinedBytes k l + (if l = [] then 0 else k) + byteLen x := by
  unfold joinedBytes
  cases l with
  | nil => simp
  | cons a l =>
      have hlen : (a :: l ++ [x]).length - 1 = ((a :: l).length - 1) + 1 := by simp
      rw [hlen, Nat.mul_add, Nat.mul_one, List.map_append, List.sum_append, if_neg (List.cons_ne_nil a l)]
      simp only [List.map_cons, List.map_nil, List.sum_cons, List.sum_nil, Nat.add_zero]
      omega

theorem joinedBytes_reverse (k : Nat) (l : List String) : joinedBytes k l.reverse = joinedBytes k l := by
  unfold joinedBytes
  rw [List.map_reverse, List.sum_reverse, List.length_reverse]

/-- A part of the parts is not longer. -/
theorem joinedBytes_le (h : l.Sublist l') : joinedBytes k l ≤ joinedBytes k l' :=
  Nat.add_le_add ((h.map byteLen).sum_le_sum fun _ _ => Nat.zero_le _)
    (Nat.mul_le_mul (le_refl k) (Nat.sub_le_sub_right h.length_le 1))

theorem byteLen_intercalate (sep : String) (l : List String) :
    byteLen (String.intercalate sep l) = joinedBytes (byteLen sep) l := by
  induction l using List.reverseRecOn with
  | nil => rfl
  | append_singleton l x ih =>
      rw [intercalate_concat, joinedBytes_concat]
      split
      · next h =>
        subst h
        exact (Nat.zero_add (byteLen x)).symm
      · rw [byteLen_append, byteLen_append, ih]

/-- A document without empty parts is empty when it has no part. -/
theorem intercalate_eq_empty (sep : String) (h : ∀ x ∈ l, x ≠ "") : String.intercalate sep l = "" ↔ l = [] := by
  constructor
  · intro he
    cases l with
    | nil => rfl
    | cons a l =>
        have hbytes := (byteLen_intercalate sep (a :: l)).symm.trans (byteLen_eq_zero.mpr he)
        have ha : byteLen a = 0 := by
          unfold joinedBytes at hbytes
          rw [List.map_cons, List.sum_cons] at hbytes
          omega
        exact absurd (byteLen_eq_zero.mp ha) (h a List.mem_cons_self)
  · rintro rfl
    rfl

/-! ## What fits a budget -/

/-- Where the next part is too much, more parts are too much as well. -/
theorem fitting_le {budget m n : Nat} (h : budget < joinedBytes k (l.take (m + 1)))
    (hn : joinedBytes k (l.take n) ≤ budget) : n ≤ m := by
  by_contra hmn
  have hsub : (l.take (m + 1)).Sublist (l.take n) := List.take_sublist_take_left (by omega)
  exact absurd ((joinedBytes_le hsub).trans hn) (Nat.not_le.mpr h)

end Joined
