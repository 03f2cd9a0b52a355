/-
# `Base.Cycles` — the cycles of a graph with one edge out of each node

`next` sends a node along its edge, if it has one.  A cycle is the list of its nodes in the order
of the edges, entered anywhere; `IsCycle` says it with one equation, so that a cycle entered
elsewhere is a rotation of the list.

`close next start` walks from a node until it comes back to it (the nodes on the way are a cycle),
meets any other node twice, or is at a node without an edge.  `Walk` is the same loop without a
bound on its steps: with at least as many steps as there are nodes with an edge, `close` is where
the loop ends.
-/
import Mathlib.Data.List.Perm.Subperm
import Mathlib.Data.List.Rotate

namespace Cycles

variable {α : Type*}

/-- The nodes of a cycle, each before the one its edge leads to and the last before the first. -/
structure IsCycle (next : α → Option α) (l : List α) : Prop where
  ne_nil : l ≠ []
  nodup : l.Nodup
  edges : l.map next = (l.rotate 1).map some

/-- The node is on a cycle. -/
def OnCycle (next : α → Option α) (a : α) : Prop := ∃ l, IsCycle next l ∧ a ∈ l

namespace IsCycle

variable {next : α → Option α} {l l' : List α} {a : α}

/-- A cycle may be entered anywhere. -/
theorem rotated (h : IsCycle next l) (hr : l ~r l') : IsCycle next l' := by
  obtain ⟨n, rfl⟩ := hr
  refine ⟨fun hnil => h.ne_nil (List.rotate_eq_nil_iff.mp hnil), List.nodup_rotate.mpr h.nodup, ?_⟩
  rw [List.map_rotate, h.edges, ← List.map_rotate, List.rotate_rotate, List.rotate_rotate, Nat.add_comm]

/-- It may be entered at each of its nodes. -/
theorem entered (h : IsCycle next l) (ha : a ∈ l) : ∃ rest, IsCycle next (a :: rest) ∧ l ~r (a :: rest) := by
  obtain ⟨front, rest, rfl⟩ := List.append_of_mem ha
  have hr : (front ++ a :: rest) ~r (a :: rest ++ front) := List.isRotated_append
  exact ⟨rest ++ front, h.rotated hr, hr⟩

theorem mem_edge (h : IsCycle next l) (ha : a ∈ l) : (next a).isSome = true := by
  have hmem : next a ∈ (l.rotate 1).map some := h.edges ▸ List.mem_map_of_mem ha
  obtain ⟨b, -, hb⟩ := List.mem_map.mp hmem
  rw [← hb]
  rfl

/-- The edges of a cycle, read from its first node. -/
theorem edges_cons {rest : List α} (h : IsCycle next (a :: rest)) :
    next a :: rest.map next = rest.map some ++ [some a] := by
  have hedges := h.edges
  rwa [List.rotate_cons_succ, List.rotate_zero, List.map_append, List.map_cons] at hedges

end IsCycle

/-! ## Walking -/

variable [DecidableEq α]

/-- Walk on from `cur` for at most so many steps; `path` is the way so far. -/
def close (next : α → Option α) (start : α) : Nat → List α → α → List α
  | 0, _, _ => []
  | fuel + 1, path, cur =>
    if cur ∈ path then []
    else match next cur with
      | none => []
      | some b => if b = start then path ++ [cur] else close next start fuel (path ++ [cur]) b

/-- The same walk, for as long as it takes. -/
inductive Walk (next : α → Option α) (start : α) : List α → α → List α → Prop
  | seen {path : List α} {cur : α} : cur ∈ path → Walk next start path cur []
  | lost {path : List α} {cur : α} : cur ∉ path → next cur = none → Walk next start path cur []
  | closed {path : List α} {cur : α} : cur ∉ path → next cur = some start → Walk next start path cur (path ++ [cur])
  | step {path l : List α} {cur b : α} : cur ∉ path → next cur = some b → b ≠ start →
      Walk next start (path ++ [cur]) b l → Walk next start path cur l

/-- The way from `start` to `cur`: nobody is met twice, and each edge leads to the next. -/
structure Trail (next : α → Option α) (start : α) (path : List α) (cur : α) : Prop where
  nodup : path.Nodup
  edges : ∃ rest, path ++ [cur] = start :: rest ∧ path.map next = rest.map some

section Walking

variable {next : α → Option α} {start cur b : α} {path : List α}

omit [DecidableEq α] in
theorem Trail.here (next : α → Option α) (start : α) : Trail next start [] start :=
  ⟨List.nodup_nil, [], rfl, rfl⟩

omit [DecidableEq α] in
theorem Trail.step (h : Trail next start path cur) (hnew : cur ∉ path) (hb : next cur = some b) :
    Trail next start (path ++ [cur]) b := by
  obtain ⟨rest, hpath, hedges⟩ := h.edges
  refine ⟨List.nodup_append.mpr ⟨h.nodup, List.nodup_singleton _, fun x hx y hy hxy => ?_⟩, rest ++ [b], ?_, ?_⟩
  · rw [List.mem_singleton.mp hy] at hxy
    exact hnew (hxy ▸ hx)
  · rw [hpath, List.cons_append]
  · rw [List.map_append, List.map_append, hedges, List.map_singleton, List.map_singleton, hb]

omit [DecidableEq α] in
/-- Back at the start, the way is a cycle. -/
theorem Trail.isCycle (h : Trail next start path cur) (hnew : cur ∉ path) (hb : next cur = some start) :
    IsCycle next (path ++ [cur]) := by
  obtain ⟨rest, hpath, hedges⟩ := h.edges
  refine ⟨by simp, (h.step hnew hb).nodup, ?_⟩
  rw [List.map_append, List.map_singleton, hedges, hb, hpath, List.rotate_cons_succ, List.rotate_zero, List.map_append,
    List.map_singleton]

/-- A walk that comes back has found a cycle, entered at its start. -/
theorem close_sound (fuel : Nat) (h : Trail next start path cur) {l : List α}
    (hl : close next start fuel path cur = l) (hne : l ≠ []) : IsCycle next l ∧ ∃ rest, l = start :: rest := by
  induction fuel generalizing path cur with
  | zero => exact absurd hl.symm hne
  | succ fuel ih =>
      unfold close at hl
      split at hl
      · exact absurd hl.symm hne
      · next hnew =>
        split at hl
        · exact absurd hl.symm hne
        · next b hb =>
          split at hl
          · next hback =>
            subst hback
            obtain ⟨rest, hpath, -⟩ := h.edges
            exact ⟨hl ▸ h.isCycle hnew hb, rest, hl ▸ hpath⟩
          · exact ih (h.step hnew hb) hl

/-- On a cycle the walk goes all the way round. -/
theorem close_complete {rest more : List α} (fuel : Nat) (h : IsCycle next (path ++ cur :: more))
    (hstart : path ++ cur :: more = start :: rest) (hfuel : more.length < fuel) :
    close next start fuel path cur = path ++ cur :: more := by
  induction fuel generalizing path cur more with
  | zero => exact absurd hfuel (Nat.not_lt_zero _)
  | succ fuel ih =>
      have hnew : cur ∉ path := fun hmem => (List.disjoint_of_nodup_append h.nodup) hmem List.mem_cons_self
      have hedges : (path ++ cur :: more).map next = rest.map some ++ [some start] := by
        rw [hstart]
        exact (hstart ▸ h).edges_cons
      unfold close
      rw [if_neg hnew]
      cases more with
      | nil =>
          rw [List.map_append, List.map_singleton] at hedges
          have hlast : next cur = some start := (List.append_inj' hedges rfl).2 |> List.head_eq_of_cons_eq
          rw [hlast]
          exact if_pos rfl
      | cons b more =>
          -- the edge of `cur` leads to the node behind it
          have hb : next cur = some b := by
            cases path with
            | nil =>
                cases hstart
                exact List.head_eq_of_cons_eq hedges
            | cons p path =>
                cases hstart
                have hsplit : (start :: path).map next ++ next cur :: (b :: more).map next =
                    (path.map some ++ [some cur]) ++ some b :: (more.map some ++ [some start]) := by
                  calc
                    _ = (start :: path ++ cur :: b :: more).map next := List.map_append.symm
                    _ = (path ++ cur :: b :: more).map some ++ [some start] := hedges
                    _ = _ := by simp
                have htail := (List.append_inj hsplit (by simp)).2
                exact List.head_eq_of_cons_eq htail
          have hne : b ≠ start := by
            rintro rfl
            have hnodup := h.nodup
            rw [hstart] at hnodup
            have hmem : b ∈ rest := by
              cases path with
              | nil => cases hstart; exact List.mem_cons_self
              | cons p path => cases hstart; simp
            exact (List.nodup_cons.mp hnodup).1 hmem
          rw [hb]
          dsimp only
          have hnext : IsCycle next ((path ++ [cur]) ++ b :: more) := by simpa using h
          rw [if_neg hne, ih hnext (by simpa using hstart) (Nat.lt_of_succ_lt_succ hfuel)]
          simp

/-- The loop ends where the walk says, if it has a step for each node with an edge. -/
theorem close_walk {nodes : List α} (hnodes : ∀ a, (next a).isSome = true → a ∈ nodes) (fuel : Nat)
    (h : Trail next start path cur) (hfuel : nodes.length + 1 ≤ path.length + fuel) (hne : 0 < fuel) :
    Walk next start path cur (close next start fuel path cur) := by
  induction fuel generalizing path cur with
  | zero => exact absurd hne (lt_irrefl 0)
  | succ fuel ih =>
      unfold close
      split
      · next hseen => exact .seen hseen
      · next hnew =>
        split
        · next hnone => exact .lost hnew hnone
        · next b hb =>
          split
          · next hback => exact .closed hnew (hback ▸ hb)
          · next hother =>
            have hstep := h.step hnew hb
            refine .step hnew hb hother (ih hstep ?_ ?_)
            · rw [List.length_append, List.length_singleton]
              omega
            · -- whoever is on the way has an edge, and nobody is there twice
              have hsub : path ++ [cur] ⊆ nodes := by
                intro a ha
                obtain ⟨rest, -, hedges⟩ := hstep.edges
                have hmem : next a ∈ rest.map some := hedges ▸ List.mem_map_of_mem ha
                obtain ⟨c, -, hc⟩ := List.mem_map.mp hmem
                exact hnodes a (by rw [← hc]; rfl)
              have hlen := (hstep.nodup.subperm hsub).length_le
              rw [List.length_append, List.length_singleton] at hlen
              omega

/-- A walk with a step for each node finds the cycle that starts here, if there is one. -/
theorem close_eq_iff {nodes : List α} (hnodes : ∀ a, (next a).isSome = true → a ∈ nodes) {l : List α} (hne : l ≠ []) :
    close next start (nodes.length + 1) [] start = l ↔ IsCycle next l ∧ ∃ rest, l = start :: rest := by
  constructor
  · exact fun hl => close_sound _ (.here next start) hl hne
  · rintro ⟨hcycle, rest, rfl⟩
    refine @close_complete α _ next start start [] _ _ _ hcycle rfl ?_
    have hlen := (hcycle.nodup.subperm fun a ha => hnodes a (hcycle.mem_edge ha)).length_le
    rw [List.length_cons] at hlen
    exact Nat.lt_succ_of_lt hlen

/-- Two cycles that start at the same node are the same. -/
theorem IsCycle.start_unique {l l' rest rest' : List α} (h : IsCycle next l) (h' : IsCycle next l')
    (hl : l = start :: rest) (hl' : l' = start :: rest') : l = l' := by
  subst hl hl'
  have hfirst := @close_complete α _ next start start [] _ _ (rest.length + rest'.length + 1) h rfl (by omega)
  have hsecond := @close_complete α _ next start start [] _ _ (rest.length + rest'.length + 1) h' rfl (by omega)
  exact hfirst.symm.trans hsecond

/-- Two cycles with a common node are one. -/
theorem IsCycle.isRotated {l l' : List α} {a : α} (h : IsCycle next l) (h' : IsCycle next l') (ha : a ∈ l)
    (ha' : a ∈ l') : l ~r l' := by
  obtain ⟨rest, hcycle, hr⟩ := h.entered ha
  obtain ⟨rest', hcycle', hr'⟩ := h'.entered ha'
  rw [hcycle.start_unique hcycle' rfl rfl] at hr
  exact hr.trans hr'.symm

end Walking

end Cycles
