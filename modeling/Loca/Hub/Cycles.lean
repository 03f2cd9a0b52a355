/-
# `Loca.Hub.Cycles` — who waits in a circle

`wait_cycles` walks from every waiter in the order of their names, and keeps a cycle when no earlier
waiter has led to one with the same members.  What it returns is each cycle of the wait graph once,
from its least member on (`mem_waitCycles`, `waitCycles_once`), and the sweep leaves out of its
overdue reminders exactly those who are on one.

The members are compared as one string, joined by NUL; a name with NUL in it could make two cycles
look like one.
-/
import Mathlib.Data.String.Basic
import Loca.Base.Cycles
import Loca.Hub.Scheduler

namespace Loca

open Cycles Table

/-! ## The wait graph -/

/-- Whom a waiter waits for. -/
def Room.waitsFor (r : Room) (name : String) : Option String := (r.waits.get name).map WaitState.waitingFor

theorem waitCycleFrom_eq (r : Room) (start : String) (fuel : Nat) (path : List String) (cur : String) :
    waitCycleFrom r.waits start fuel path cur = close r.waitsFor start fuel path cur := by
  induction fuel generalizing path cur with
  | zero => rfl
  | succ fuel ih =>
      unfold waitCycleFrom close
      simp only [List.contains_iff_mem]
      split
      · rfl
      · unfold Room.waitsFor
        cases r.waits.get cur with
        | none => rfl
        | some wait =>
            dsimp only [Option.map]
            split
            · rfl
            · exact ih _ _

/-- Whoever has an edge is a waiter. -/
theorem mem_keys_of_waitsFor {r : Room} {name : String} (h : (r.waitsFor name).isSome = true) :
    name ∈ r.waits.keys := by
  unfold Room.waitsFor at h
  rw [Option.isSome_map] at h
  obtain ⟨wait, hwait⟩ := Option.isSome_iff_exists.mp h
  exact Assoc.mem_keys.mpr ⟨wait, hwait⟩

/-- The walk of a waiter finds the cycle that starts with it, if there is one. -/
theorem waitCycle_eq_iff {r : Room} {name : String} {l : List String} (hne : l ≠ []) :
    waitCycle r.waits name = l ↔ IsCycle r.waitsFor l ∧ ∃ rest, l = name :: rest := by
  unfold waitCycle
  rw [waitCycleFrom_eq]
  exact close_eq_iff (fun _ => mem_keys_of_waitsFor) hne

/-- The loop of `wait_cycle_after` comes to an end, and ends there. -/
theorem waitCycle_walk (r : Room) (name : String) : Walk r.waitsFor name [] name (waitCycle r.waits name) := by
  unfold waitCycle
  rw [waitCycleFrom_eq]
  refine close_walk (fun _ => mem_keys_of_waitsFor) _ (.here _ _) ?_ (Nat.succ_pos _)
  rw [List.length_nil, Nat.zero_add]

theorem mem_keys_of_cycle {r : Room} {l : List String} (h : IsCycle r.waitsFor l) {name : String} (hn : name ∈ l) :
    name ∈ r.waits.keys :=
  mem_keys_of_waitsFor (h.mem_edge hn)

/-! ## The members as one string -/

/-- The name of a cycle that does not depend on where it is entered. -/
def cycleIdentity (cycle : List String) : String := "\x00".intercalate (orderBy id cycle)

def NulFree (r : Room) : Prop := ∀ name ∈ r.waits.keys, '\x00' ∉ name.toList

/-- Distinct names in order. -/
theorem names_strict {l : List String} (h : l.Nodup) : (orderBy id l).Pairwise fun a b => a < b := by
  have hid : (l.map id).Nodup := by rwa [List.map_id]
  exact orderBy_strict hid

theorem orderBy_eq_of_perm {l l' : List String} (hl : l.Nodup) (h : l.Perm l') : orderBy id l = orderBy id l' := by
  have hasymm : ∀ a b : String, a ∈ orderBy id l → b ∈ orderBy id l' → a < b → b < a → a = b :=
    fun a b _ _ hab hba => absurd hab (lt_asymm hba)
  exact List.Perm.eq_of_pairwise hasymm (names_strict hl) (names_strict (h.nodup_iff.mp hl))
    ((orderBy_perm _).trans (h.trans (orderBy_perm _).symm))

/-- Cycles of NUL-free names with one identity have the same members. -/
theorem cycleIdentity_perm {l l' : List String} (hl : ∀ name ∈ l, '\x00' ∉ name.toList)
    (hl' : ∀ name ∈ l', '\x00' ∉ name.toList) (hne : l ≠ []) (hne' : l' ≠ [])
    (h : cycleIdentity l = cycleIdentity l') : l.Perm l' := by
  have hsplit : ∀ {l : List String}, (∀ name ∈ l, '\x00' ∉ name.toList) → l ≠ [] →
      (cycleIdentity l).toList.splitOn '\x00' = (orderBy id l).map String.toList := by
    intro l hl hne
    unfold cycleIdentity
    rw [String.toList_intercalate]
    refine List.splitOn_intercalate '\x00' (fun cs hcs => ?_) fun hnil => hne ?_
    · obtain ⟨name, hname, rfl⟩ := List.mem_map.mp hcs
      exact hl name (mem_orderBy.mp hname)
    · have hempty : orderBy id l = [] := List.map_eq_nil_iff.mp hnil
      exact List.Perm.nil_eq (hempty ▸ orderBy_perm l) |>.symm
  have hsame : (orderBy id l).map String.toList = (orderBy id l').map String.toList := by
    rw [← hsplit hl hne, ← hsplit hl' hne', h]
  have hsorted : orderBy id l = orderBy id l' :=
    List.map_injective_iff.mpr (fun a b hab => String.toList_inj.mp hab) hsame
  exact (orderBy_perm l).symm.trans (hsorted ▸ orderBy_perm l')

/-! ## Every cycle once -/

/-- The first is less than the others. -/
def Leads : List String → Prop
  | [] => False
  | first :: rest => ∀ name ∈ rest, first < name

instance : DecidablePred Leads
  | [] => inferInstanceAs (Decidable False)
  | first :: rest => inferInstanceAs (Decidable (∀ name ∈ rest, first < name))

section Once

variable {r : Room}

/-- A cycle can be entered at its least member. -/
theorem exists_leads {l : List String} (h : IsCycle r.waitsFor l) :
    ∃ first rest, IsCycle r.waitsFor (first :: rest) ∧ l ~r (first :: rest) ∧ Leads (first :: rest) := by
  have hstrict : (orderBy id l).Pairwise fun a b => a < b := names_strict h.nodup
  cases hsorted : orderBy id l with
  | nil => exact absurd (hsorted ▸ orderBy_perm l).symm.eq_nil h.ne_nil
  | cons first others =>
      rw [hsorted, List.pairwise_cons] at hstrict
      have hfirst : first ∈ l := mem_orderBy.mp (hsorted ▸ List.mem_cons_self)
      obtain ⟨rest, hcycle, hr⟩ := h.entered hfirst
      refine ⟨first, rest, hcycle, hr, fun name hname => ?_⟩
      have hmem : name ∈ first :: others := hsorted ▸ mem_orderBy.mpr (hr.mem_iff.mpr (List.mem_cons_of_mem _ hname))
      rcases List.mem_cons.mp hmem with rfl | hmem
      · exact absurd hname (List.nodup_cons.mp hcycle.nodup).1
      · exact hstrict.1 name hmem

/-- One turn of the loop of `wait_cycles`. -/
def cycleTurn (r : Room) (acc : List String × List (List String)) (name : String) : List String × List (List String) :=
  let cycle := waitCycle r.waits name
  if cycle = [] ∨ cycleIdentity cycle ∈ acc.1 then acc
  else (cycleIdentity cycle :: acc.1, acc.2 ++ [cycle])

/-- The cycles found from these waiters, each from its least member. -/
def ledCycles (r : Room) (names : List String) : List (List String) :=
  (names.map (waitCycle r.waits)).filter fun cycle => decide (Leads cycle)

theorem mem_ledCycles {names l : List String} {cycles : List (List String)} (hc : cycles = ledCycles r names) :
    l ∈ cycles ↔ Leads l ∧ IsCycle r.waitsFor l ∧ ∃ name ∈ names, ∃ rest, l = name :: rest := by
  subst hc
  unfold ledCycles
  rw [List.mem_filter, List.mem_map, decide_eq_true_eq]
  constructor
  · rintro ⟨⟨name, hname, hl⟩, hleads⟩
    have hne : l ≠ [] := by
      rintro rfl
      exact hleads
    obtain ⟨hcycle, rest, hrest⟩ := (waitCycle_eq_iff hne).mp hl
    exact ⟨hleads, hcycle, name, hname, rest, hrest⟩
  · rintro ⟨hleads, hcycle, name, hname, rest, hrest⟩
    exact ⟨⟨name, hname, (waitCycle_eq_iff hcycle.ne_nil).mpr ⟨hcycle, rest, hrest⟩⟩, hleads⟩

/-- A waiter is passed over when its cycle has a lesser member: that one has come before. -/
theorem cycleTurn_led (hnul : NulFree r) {done todo : List String} {name : String} {acc : List String × List (List String)}
    (hsorted : (done ++ name :: todo).Pairwise fun a b => a < b)
    (hall : ∀ x ∈ r.waits.keys, x ∈ done ++ name :: todo) (hcycles : acc.2 = ledCycles r done)
    (hseen : ∀ id, id ∈ acc.1 ↔ ∃ c ∈ acc.2, cycleIdentity c = id) :
    (cycleTurn r acc name).2 = ledCycles r (done ++ [name]) ∧
      ∀ id, id ∈ (cycleTurn r acc name).1 ↔ ∃ c ∈ (cycleTurn r acc name).2, cycleIdentity c = id := by
  have hsplit : ledCycles r (done ++ [name]) = ledCycles r done ++ ledCycles r [name] := by
    unfold ledCycles
    rw [List.map_append, List.filter_append]
  have hfree : ∀ {l : List String}, IsCycle r.waitsFor l → ∀ x ∈ l, '\x00' ∉ x.toList :=
    fun h x hx => hnul x (mem_keys_of_cycle h hx)
  unfold cycleTurn
  dsimp only
  by_cases hnone : waitCycle r.waits name = []
  · rw [if_pos (.inl hnone), hsplit, hcycles]
    refine ⟨?_, by rw [← hcycles]; exact hseen⟩
    unfold ledCycles
    rw [List.map_singleton, hnone, List.filter_cons_of_neg (by decide), List.filter_nil, List.append_nil]
  · obtain ⟨hcycle, rest, hrest⟩ := (waitCycle_eq_iff hnone).mp rfl
    have hled : cycleIdentity (waitCycle r.waits name) ∈ acc.1 ↔ ¬ Leads (waitCycle r.waits name) := by
      rw [hseen]
      constructor
      · -- an earlier cycle with the same members starts at one of them, which is less
        rintro ⟨c, hc, hid⟩ hleads
        obtain ⟨-, hc, k, hk, rest', hrest'⟩ := (mem_ledCycles hcycles).mp hc
        have hperm := cycleIdentity_perm (hfree hc) (hfree hcycle) hc.ne_nil hnone hid
        have hmem : k ∈ waitCycle r.waits name := hperm.subset (hrest' ▸ List.mem_cons_self)
        have hlt : k < name := (List.pairwise_append.mp hsorted).2.2 k hk name List.mem_cons_self
        rw [hrest] at hmem hleads
        rcases List.mem_cons.mp hmem with rfl | hmem
        · exact absurd hlt (lt_irrefl _)
        · exact absurd hlt (lt_asymm (hleads k hmem))
      · -- entered at its least member, the cycle was found from there
        intro hnot
        obtain ⟨first, others, hc, hr, hleads⟩ := exists_leads hcycle
        have hfirst : first ∈ done := by
          have hmem : first ∈ waitCycle r.waits name := hr.mem_iff.mpr List.mem_cons_self
          have hlt : first < name := by
            have hname : name ∈ first :: others := hr.mem_iff.mp (hrest ▸ List.mem_cons_self)
            rcases List.mem_cons.mp hname with rfl | hname
            · refine absurd ?_ hnot
              rw [hrest] at hcycle ⊢
              rw [IsCycle.start_unique hcycle hc rfl rfl]
              exact hleads
            · exact hleads name hname
          rcases List.mem_append.mp (hall first (mem_keys_of_cycle hcycle hmem)) with hdone | hlater
          · exact hdone
          · rcases List.mem_cons.mp hlater with rfl | hlater
            · exact absurd hlt (lt_irrefl _)
            · have htail := (List.pairwise_cons.mp (List.pairwise_append.mp hsorted).2.1).1 first hlater
              exact absurd hlt (lt_asymm htail)
        refine ⟨first :: others, (mem_ledCycles hcycles).mpr ⟨hleads, hc, first, hfirst, others, rfl⟩, ?_⟩
        unfold cycleIdentity
        rw [orderBy_eq_of_perm hcycle.nodup hr.perm]
    by_cases hleads : Leads (waitCycle r.waits name)
    · have hnew : ¬ (waitCycle r.waits name = [] ∨ cycleIdentity (waitCycle r.waits name) ∈ acc.1) :=
        fun hor => hor.elim hnone fun hmem => hled.mp hmem hleads
      rw [if_neg hnew, hsplit, hcycles]
      refine ⟨?_, fun id => ?_⟩
      · unfold ledCycles
        rw [List.map_singleton]
        simp [hleads]
      · rw [List.mem_cons, hseen, hcycles]
        constructor
        · rintro (rfl | ⟨c, hc, rfl⟩)
          · exact ⟨_, List.mem_append_right _ (List.mem_singleton.mpr rfl), rfl⟩
          · exact ⟨c, List.mem_append_left _ hc, rfl⟩
        · rintro ⟨c, hc, rfl⟩
          rcases List.mem_append.mp hc with hc | hc
          · exact .inr ⟨c, hc, rfl⟩
          · rw [List.mem_singleton.mp hc]
            exact .inl rfl
    · rw [if_pos (.inr (hled.mpr hleads)), hsplit, hcycles]
      refine ⟨?_, by rw [← hcycles]; exact hseen⟩
      unfold ledCycles
      rw [List.map_singleton]
      simp [hleads]

theorem cycleTurns_led (hnul : NulFree r) (todo : List String) {done : List String}
    {acc : List String × List (List String)} (hsorted : (done ++ todo).Pairwise fun a b => a < b)
    (hall : ∀ x ∈ r.waits.keys, x ∈ done ++ todo) (hcycles : acc.2 = ledCycles r done)
    (hseen : ∀ id, id ∈ acc.1 ↔ ∃ c ∈ acc.2, cycleIdentity c = id) :
    (todo.foldl (cycleTurn r) acc).2 = ledCycles r (done ++ todo) := by
  induction todo generalizing done acc with
  | nil => rw [List.append_nil]; exact hcycles
  | cons name todo ih =>
      obtain ⟨hcycles', hseen'⟩ := cycleTurn_led hnul hsorted hall hcycles hseen
      have hassoc : done ++ name :: todo = (done ++ [name]) ++ todo := by rw [List.append_assoc]; rfl
      rw [hassoc] at hsorted hall ⊢
      exact ih hsorted hall hcycles' hseen'

theorem keys_strict (r : Room) : (orderBy id r.waits.keys).Pairwise fun a b => a < b :=
  names_strict r.waits.keys_nodup

/-- The loop keeps the cycles that start with their least member. -/
theorem waitCycles_led (hnul : NulFree r) : waitCycles r = ledCycles r (orderBy id r.waits.keys) :=
  @cycleTurns_led r hnul (orderBy id r.waits.keys) [] _ (keys_strict r) (fun _ hx => mem_orderBy.mpr hx) rfl
    fun id => by simp

/-- What is returned: each cycle from its least member on, and nothing else. -/
theorem mem_waitCycles (hnul : NulFree r) {l : List String} :
    l ∈ waitCycles r ↔ IsCycle r.waitsFor l ∧ Leads l := by
  rw [mem_ledCycles (waitCycles_led hnul)]
  constructor
  · exact fun h => ⟨h.2.1, h.1⟩
  · rintro ⟨hcycle, hleads⟩
    cases l with
    | nil => exact hleads.elim
    | cons first rest =>
        exact ⟨hleads, hcycle, first, mem_orderBy.mpr (mem_keys_of_cycle hcycle List.mem_cons_self), rest, rfl⟩

theorem nodup_waitCycles (hnul : NulFree r) : (waitCycles r).Nodup := by
  rw [waitCycles_led hnul]
  unfold ledCycles
  -- cycles that are found from different waiters start with different names
  have hstarts : ((orderBy id r.waits.keys).map (waitCycle r.waits)).Pairwise fun c c' => Leads c → Leads c' → c ≠ c' := by
    rw [List.pairwise_map]
    refine (keys_strict r).imp fun {k k'} hlt hc hc' he => ?_
    have hne : waitCycle r.waits k ≠ [] := by
      intro hnil
      rw [hnil] at hc
      exact hc
    have hne' : waitCycle r.waits k' ≠ [] := he ▸ hne
    obtain ⟨-, rest, hrest⟩ := (waitCycle_eq_iff hne).mp rfl
    obtain ⟨-, rest', hrest'⟩ := (waitCycle_eq_iff hne').mp rfl
    rw [hrest, hrest'] at he
    exact absurd (List.head_eq_of_cons_eq he) hlt.ne
  refine List.pairwise_filter.mpr (hstarts.imp fun {c c'} h hc hc' => ?_)
  exact h (of_decide_eq_true hc) (of_decide_eq_true hc')

/-- Wherever a cycle is entered, it is returned once. -/
theorem waitCycles_once (hnul : NulFree r) {l : List String} (h : IsCycle r.waitsFor l) :
    ∃ c ∈ waitCycles r, l ~r c ∧ ∀ c' ∈ waitCycles r, l ~r c' → c' = c := by
  obtain ⟨first, rest, hcycle, hr, hleads⟩ := exists_leads h
  refine ⟨first :: rest, (mem_waitCycles hnul).mpr ⟨hcycle, hleads⟩, hr, fun c' hc' hr' => ?_⟩
  obtain ⟨hcycle', hleads'⟩ := (mem_waitCycles hnul).mp hc'
  have hboth : (first :: rest) ~r c' := hr.symm.trans hr'
  cases c' with
  | nil => exact hleads'.elim
  | cons first' rest' =>
      -- both start with the least of the same members
      have hsame : first = first' := by
        rcases List.mem_cons.mp (hboth.mem_iff.mp List.mem_cons_self) with he | hmem
        · exact he
        · rcases List.mem_cons.mp (hboth.mem_iff.mpr (List.mem_cons_self (a := first'))) with he | hmem'
          · exact he.symm
          · exact absurd (hleads _ hmem') (lt_asymm (hleads' _ hmem))
      subst hsame
      exact hcycle'.start_unique hcycle rfl rfl

end Once

/-! ## The sweep -/

/-- Whom the sweep looks at for an overdue wait. -/
def Room.overdueCandidates (r : Room) : List String :=
  (orderBy id r.waits.keys).filter fun name => !(waitCycles r).flatten.contains name

theorem mem_overdueCandidates {r : Room} (hnul : NulFree r) {name : String} :
    name ∈ r.overdueCandidates ↔ name ∈ r.waits.keys ∧ ¬ OnCycle r.waitsFor name := by
  unfold Room.overdueCandidates
  rw [List.mem_filter, mem_orderBy]
  refine and_congr_right fun _ => ?_
  simp only [Bool.not_eq_true', List.contains_eq_mem, decide_eq_false_iff_not, List.mem_flatten]
  refine not_congr ⟨?_, ?_⟩
  · rintro ⟨c, hc, hmem⟩
    exact ⟨c, ((mem_waitCycles hnul).mp hc).1, hmem⟩
  · rintro ⟨l, hl, hmem⟩
    obtain ⟨c, hc, hr, -⟩ := waitCycles_once hnul hl
    exact ⟨c, hc, hr.mem_iff.mp hmem⟩

/-- What the sweep looks at in a room that somebody cares for: the cycles, then the candidates, then
the operator's reminders. -/
theorem chooseReminder_eq (cfg : Config) (env : Env) (room : String) (r : Room) (w : World)
    (howner : (w.careOwner cfg env room).isSome = true) :
    chooseReminder cfg env room r w =
      (((waitCycles r).findSome? (tryCycle cfg env room (w.careOwner cfg env room) r w)).or
        ((r.overdueCandidates.findSome? (tryWait cfg env room (w.careOwner cfg env room) r w)).or
          ((r.reminders env.now).findSome? (tryReminder cfg env room (w.careOwner cfg env room) r w)))) := by
  unfold chooseReminder Room.overdueCandidates
  dsimp only
  rw [if_pos howner, if_pos howner]
  cases (waitCycles r).findSome? (tryCycle cfg env room (w.careOwner cfg env room) r w) with
  | some chosen => rfl
  | none =>
      dsimp only [Option.or]
      split
      · next hc => rw [hc]
      · next hc => rw [hc]

/-- For every map of waits between names without NUL: each waiter's walk ends; the cycles returned are
each cycle of the wait graph once, its members in waiting order from the least on, and nothing else;
and the sweep tries an overdue reminder for exactly those waiters who are on no cycle. -/
theorem wait_cycles_exact {r : Room} (hnul : NulFree r) :
    (∀ name, Walk r.waitsFor name [] name (waitCycle r.waits name)) ∧
    (∀ l, l ∈ waitCycles r ↔ IsCycle r.waitsFor l ∧ Leads l) ∧ (waitCycles r).Nodup ∧
    (∀ l, IsCycle r.waitsFor l → ∃ c ∈ waitCycles r, l ~r c ∧ ∀ c' ∈ waitCycles r, l ~r c' → c' = c) ∧
    (∀ cfg env room (w : World), (w.careOwner cfg env room).isSome = true →
      chooseReminder cfg env room r w =
        (((waitCycles r).findSome? (tryCycle cfg env room (w.careOwner cfg env room) r w)).or
          ((r.overdueCandidates.findSome? (tryWait cfg env room (w.careOwner cfg env room) r w)).or
            ((r.reminders env.now).findSome? (tryReminder cfg env room (w.careOwner cfg env room) r w))))) ∧
    ∀ name, name ∈ r.overdueCandidates ↔ name ∈ r.waits.keys ∧ ¬ OnCycle r.waitsFor name :=
  ⟨waitCycle_walk r, fun _ => mem_waitCycles hnul, nodup_waitCycles hnul, fun _ h => waitCycles_once hnul h,
    fun cfg env room w howner => chooseReminder_eq cfg env room r w howner, fun _ => mem_overdueCandidates hnul⟩

/-- `bob`, `cem` and `ann` wait in a circle, `dan` waits for it, and `eve` for nobody in it. -/
def circleRoom : Room :=
  let edge (waiter waitingFor : String) (m : Assoc String WaitState) : Assoc String WaitState :=
    m.put waiter ⟨"den", waiter, waitingFor, "review", 3, none, 0⟩
  { Room.fresh .free RoomSettings.default 1 with
    waits := edge "eve" "gus" (edge "dan" "bob" (edge "cem" "ann" (edge "bob" "cem" (edge "ann" "bob" ∅)))) }

theorem wait_cycles_exact_sample :
    (waitCycles circleRoom = [["ann", "bob", "cem"]] ∧ circleRoom.overdueCandidates = ["dan", "eve"]) ∧
    (∀ name, Walk circleRoom.waitsFor name [] name (waitCycle circleRoom.waits name)) ∧
    (∀ l, l ∈ waitCycles circleRoom ↔ IsCycle circleRoom.waitsFor l ∧ Leads l) ∧ (waitCycles circleRoom).Nodup ∧
    (∀ l, IsCycle circleRoom.waitsFor l → ∃ c ∈ waitCycles circleRoom, l ~r c ∧
      ∀ c' ∈ waitCycles circleRoom, l ~r c' → c' = c) ∧
    (∀ cfg env room (w : World), (w.careOwner cfg env room).isSome = true →
      chooseReminder cfg env room circleRoom w =
        (((waitCycles circleRoom).findSome? (tryCycle cfg env room (w.careOwner cfg env room) circleRoom w)).or
          ((circleRoom.overdueCandidates.findSome?
              (tryWait cfg env room (w.careOwner cfg env room) circleRoom w)).or
            ((circleRoom.reminders env.now).findSome?
              (tryReminder cfg env room (w.careOwner cfg env room) circleRoom w))))) ∧
    ∀ name, name ∈ circleRoom.overdueCandidates ↔ name ∈ circleRoom.waits.keys ∧ ¬ OnCycle circleRoom.waitsFor name :=
  ⟨by decide +kernel, wait_cycles_exact (by unfold NulFree; decide +kernel)⟩

end Loca
