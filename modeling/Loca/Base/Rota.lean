/-
# `Base.Rota` — taking turns

An order of names, gone through again and again from a starting turn.  A log says who acted, in
the order in which they did.  Whoever holds the turn and acts takes it; `taken` is the part of
the log that took turns, and the turn then stands as many places further.

Some may act without holding the turn.  `Obeys` says that nobody else did: then those who may
not are in the log exactly where they took a turn (`Obeys.filter_eq`), and the takers are the
next names of the order, one after the other (`name_taken`).
-/
import Mathlib.Data.List.Induction

namespace Rota

variable {α ε : Type}

/-- The turn after some turns were taken. -/
def turn (order : List α) (start taken : Nat) : Nat := (start + taken) % order.length

theorem turn_lt {order : List α} (h : order ≠ []) (start taken : Nat) : turn order start taken < order.length :=
  Nat.mod_lt _ (List.length_pos_iff.mpr h)

/-- One more turn is one place further. -/
theorem turn_succ (order : List α) (start taken : Nat) :
    turn order start (taken + 1) = (turn order start taken + 1) % order.length := by
  unfold turn
  rw [← Nat.add_assoc, Nat.mod_add_mod]

variable [DecidableEq α]

/-- Who holds the turn and acts, takes it. -/
def take (order : List α) (name : ε → α) (start : Nat) (taken : List ε) (e : ε) : List ε :=
  if order[turn order start taken.length]? = some (name e) then taken ++ [e] else taken

def taken (order : List α) (name : ε → α) (start : Nat) (log : List ε) : List ε :=
  log.foldl (take order name start) []

variable {order : List α} {name : ε → α} {start : Nat} {free : ε → Bool}

theorem taken_snoc (log : List ε) (e : ε) :
    taken order name start (log ++ [e]) =
      if order[turn order start (taken order name start log).length]? = some (name e)
      then taken order name start log ++ [e] else taken order name start log := by
  unfold taken
  rw [List.foldl_append]
  rfl

/-- The takers are the names of the order, from the starting turn on. -/
theorem name_taken (log : List ε) {i : Nat} {e : ε} (h : (taken order name start log)[i]? = some e) :
    order[turn order start i]? = some (name e) := by
  induction log using List.reverseRecOn with
  | nil => simp [taken] at h
  | append_singleton log last ih =>
      rw [taken_snoc] at h
      split at h
      · next hturn =>
        rw [List.getElem?_append] at h
        split at h
        · exact ih h
        · -- the new taker is at the end
          have hi : i - (taken order name start log).length = 0 := by
            by_contra hne
            rw [List.getElem?_eq_none (by simp only [List.length_singleton]; omega)] at h
            cases h
          rw [hi] at h
          obtain rfl : last = e := by simpa using h
          obtain rfl : i = (taken order name start log).length := by omega
          exact hturn
      · exact ih h

/-- Nobody acts out of turn who may not. -/
inductive Obeys (order : List α) (name : ε → α) (start : Nat) (free : ε → Bool) : List ε → Prop
  | nil : Obeys order name start free []
  | snoc {log : List ε} {e : ε} : Obeys order name start free log →
      (free e = false → order[turn order start (taken order name start log).length]? = some (name e)) →
      Obeys order name start free (log ++ [e])

/-- Those who may not act out of turn are in the log exactly where they took one. -/
theorem Obeys.filter_eq {log : List ε} (h : Obeys order name start free log) :
    log.filter (fun e => !free e) = (taken order name start log).filter fun e => !free e := by
  induction h with
  | nil => rfl
  | @snoc log e _ hturn ih =>
      rw [taken_snoc, List.filter_append, ih]
      split
      · rw [List.filter_append]
      · next hnot =>
        have hfree : free e = true := by
          by_contra hf
          exact hnot (hturn (Bool.eq_false_iff.mpr hf))
        rw [List.filter_cons_of_neg (by simp [hfree]), List.filter_nil, List.append_nil]

/-- Without names nobody takes a turn. -/
theorem taken_nil (start : Nat) (log : List ε) : taken ([] : List α) name start log = [] := by
  refine List.eq_nil_iff_forall_not_mem.mpr fun e he => ?_
  obtain ⟨i, hi, rfl⟩ := List.mem_iff_getElem.mp he
  have hname := name_taken log (List.getElem?_eq_getElem hi)
  cases hname

end Rota
