/-
# `Loca.Listener.Durable` — the repair of a torn tail

`open_durable_jsonl` of `listen.py`: before the listener appends to its inbox, whatever stands
after the last newline is cut off.  The search for that newline goes backwards through the file,
in blocks of 4096 bytes, and `keepFrom` is its loop: `position` is where the block that is read
next ends.

`torn_tail_repaired` says what the file is afterwards and how it goes on; the invariant of the
loop is that no newline stands at or after `position`.
-/
import Loca.Adapter.Inbox

namespace Loca

open Adapter (newline)

/-- `chunk.rfind(b"\n")`: where the last newline stands. -/
def rfindNewline : List UInt8 → Option Nat
  | [] => none
  | b :: chunk =>
    match rfindNewline chunk with
    | some i => some (i + 1)
    | none => if b = newline then some 0 else none

/-- The loop over the blocks; the offset that is kept. -/
def keepFrom (block : { n : Nat // 0 < n }) (file : List UInt8) (position : Nat) : Nat :=
  if 0 < position then
    let start := position - block.val
    let chunk := (file.drop start).take (position - start)
    match rfindNewline chunk with
    | some i => start + i + 1
    | none => keepFrom block file start
  else 0
termination_by position
decreasing_by exact Nat.sub_lt ‹0 < position› block.property

def repairBlock : { n : Nat // 0 < n } := ⟨4096, Nat.succ_pos _⟩

/-- `open_durable_jsonl`: what the file holds once it is open; a new file is empty. -/
def openDurableJsonl (file : Option (List UInt8)) : List UInt8 :=
  let content := file.getD []
  if content = [] then []
  else if content.getLast? = some newline then content
  else content.take (keepFrom repairBlock content content.length)

/-! ## The search -/

theorem rfindNewline_none {chunk : List UInt8} (h : rfindNewline chunk = none) : newline ∉ chunk := by
  induction chunk with
  | nil => exact List.not_mem_nil
  | cons b chunk ih =>
      unfold rfindNewline at h
      split at h
      · cases h
      · next hnone =>
        rw [ite_eq_right_iff] at h
        intro hmem
        rcases List.mem_cons.mp hmem with hb | hmem
        · cases h hb.symm
        · exact ih hnone hmem

theorem rfindNewline_some {chunk : List UInt8} {i : Nat} (h : rfindNewline chunk = some i) :
    ∃ pre post, chunk = pre ++ newline :: post ∧ pre.length = i ∧ newline ∉ post := by
  induction chunk generalizing i with
  | nil => cases h
  | cons b chunk ih =>
      unfold rfindNewline at h
      split at h
      · next j hj =>
        obtain ⟨pre, post, rfl, rfl, hpost⟩ := ih hj
        exact ⟨b :: pre, post, rfl, Option.some.inj h, hpost⟩
      · next hnone =>
        rw [Option.ite_none_right_eq_some] at h
        obtain ⟨rfl, hi⟩ := h
        exact ⟨[], chunk, rfl, Option.some.inj hi, rfindNewline_none hnone⟩

/-- What is kept of a file: whole lines, and no newline after them. -/
structure Whole (file kept : List UInt8) : Prop where
  rest : Lines.rest newline kept = []
  torn : ∃ tail, file = kept ++ tail ∧ newline ∉ tail

/-- One block: the part before it, the block, and what has been seen. -/
theorem block_split (file : List UInt8) {position start : Nat} (hs : start ≤ position) :
    file = file.take start ++ (file.drop start).take (position - start) ++ file.drop position := by
  have hmid : (file.drop start).take (position - start) ++ file.drop position = file.drop start := by
    have hpos : file.drop position = (file.drop start).drop (position - start) := by
      rw [List.drop_drop]
      congr 1
      omega
    rw [hpos, List.take_append_drop]
  rw [List.append_assoc, hmid, List.take_append_drop]

/-- The loop, from a position after which no newline stands. -/
theorem keepFrom_whole (block : { n : Nat // 0 < n }) {file : List UInt8} {position : Nat}
    (hle : position ≤ file.length) (h : newline ∉ file.drop position) :
    Whole file (file.take (keepFrom block file position)) := by
  induction position using Nat.strongRecOn with
  | _ position ih =>
    rw [keepFrom]
    by_cases hp : 0 < position
    · rw [if_pos hp]
      dsimp only
      have hstart : position - block.val < position := Nat.sub_lt hp block.property
      generalize position - block.val = start at hstart ⊢
      have hfile := block_split file hstart.le
      generalize hchunk : (file.drop start).take (position - start) = chunk at hfile ⊢
      cases hfind : rfindNewline chunk with
      | none =>
          refine ih start hstart (by omega) ?_
          have hdrop : file.drop start = chunk ++ file.drop position := by
            conv_lhs => rw [hfile, List.append_assoc]
            exact List.drop_left' (by rw [List.length_take]; omega)
          rw [hdrop]
          intro hmem
          rcases List.mem_append.mp hmem with hmem | hmem
          · exact rfindNewline_none hfind hmem
          · exact h hmem
      | some i =>
          obtain ⟨pre, post, hpre, rfl, hpost⟩ := rfindNewline_some hfind
          -- the file up to the newline that was found
          have hsplit : file = (file.take start ++ pre ++ [newline]) ++ (post ++ file.drop position) := by
            conv_lhs => rw [hfile, hpre]
            simp
          have hlen : (file.take start ++ pre ++ [newline]).length = start + pre.length + 1 := by
            simp only [List.length_append, List.length_take, List.length_singleton]
            omega
          have htake : file.take (start + pre.length + 1) = file.take start ++ pre ++ [newline] := by
            conv_lhs => rw [hsplit]
            exact List.take_left' hlen
          refine ⟨?_, post ++ file.drop position, ?_, ?_⟩
          · show Lines.rest newline (file.take (start + pre.length + 1)) = []
            rw [htake]
            exact Lines.rest_of_getLast? (.inr (by simp))
          · show file = file.take (start + pre.length + 1) ++ _
            rw [htake]
            exact hsplit
          · intro hmem
            rcases List.mem_append.mp hmem with hmem | hmem
            · exact hpost hmem
            · exact h hmem
    · obtain rfl : position = 0 := by omega
      rw [if_neg hp]
      exact ⟨rfl, file, rfl, h⟩

/-- Whichever branch is taken, whole lines are kept. -/
theorem openDurableJsonl_whole (file : Option (List UInt8)) :
    Whole (file.getD []) (openDurableJsonl file) := by
  unfold openDurableJsonl
  generalize file.getD [] = content
  dsimp only
  split
  · next hnil => exact ⟨rfl, [], hnil, List.not_mem_nil⟩
  · split
    · next hlast => exact ⟨Lines.rest_of_getLast? (.inr hlast), [], (List.append_nil _).symm, List.not_mem_nil⟩
    · exact keepFrom_whole repairBlock le_rfl (by simp)

/-- What is kept is the longest prefix of whole lines, and records that are appended later are the
lines after the kept ones. -/
theorem torn_tail_repaired (file : Option (List UInt8)) :
    openDurableJsonl file <+: file.getD [] ∧
    (openDurableJsonl file = [] ∨ (openDurableJsonl file).getLast? = some newline) ∧
    (∀ p, p <+: file.getD [] → p = [] ∨ p.getLast? = some newline → p <+: openDurableJsonl file) ∧
    Lines.complete newline (openDurableJsonl file) = Lines.complete newline (file.getD []) ∧
    ∀ records : List (List UInt8), (∀ r ∈ records, Lines.IsLine newline r) →
      Lines.complete newline (openDurableJsonl file ++ records.flatten) =
          Lines.complete newline (openDurableJsonl file) ++ records ∧
        Lines.rest newline (openDurableJsonl file ++ records.flatten) = [] := by
  obtain ⟨hrest, tail, hfile, htail⟩ := openDurableJsonl_whole file
  rw [hfile]
  refine ⟨List.prefix_append _ _, Lines.getLast?_of_rest hrest, fun p hp hlast => ?_, ?_, fun records hr => ?_⟩
  · exact Lines.prefix_of_getLast? htail hp hlast
  · exact (Lines.complete_append_clean hrest htail).1.symm
  · obtain ⟨hlines, hnone⟩ := Lines.complete_lines hr
    rw [Lines.complete_append hrest, Lines.rest_append hrest, hlines, hnone]
    exact ⟨rfl, rfl⟩

end Loca
