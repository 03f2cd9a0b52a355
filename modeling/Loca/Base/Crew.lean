/-
# `Base.Crew` — calls in flight over a shared state

A call that is cut at its locks is a task: it takes one step at a time on a state it shares with
the other tasks, and any of them may step in between.  A `Program` says what a step of a task does
and which tasks have to wait for others.

`Holds I F R` is the shape of an invariant of such a system: `I` of the shared state and the tasks
in flight, `F` of each task (what it knows, and what the others must not spoil), `R` of any two
tasks (what excludes what).  `Holds.next` is the rule for one step, `Holds.spawn` that for a new
task.
-/
import Mathlib.Data.List.Basic

namespace Sys

structure Crew (σ τ : Type) where
  shared : σ
  tasks : List τ

/-- One step of a task in a moment, and whether it has to wait for the others. -/
structure Program (σ τ μ : Type) where
  run : μ → σ → τ → σ × Option τ
  waits : τ → List τ → Bool

namespace Crew

variable {σ τ μ : Type}

/-- The task at `k` takes one step, unless it has to wait. -/
def advance (P : Program σ τ μ) (m : μ) (k : Nat) (c : Crew σ τ) : Crew σ τ :=
  match c.tasks[k]? with
  | none => c
  | some t =>
    if P.waits t c.tasks then c
    else match P.run m c.shared t with
      | (s, none) => ⟨s, c.tasks.eraseIdx k⟩
      | (s, some t') => ⟨s, c.tasks.set k t'⟩

/-- A task's step, among the tasks beside it. -/
theorem advance_cases (P : Program σ τ μ) (m : μ) (k : Nat) (c : Crew σ τ) :
    c.advance P m k = c ∨ ∃ l₁ t l₂, c.tasks[k]? = some t ∧ c.tasks = l₁ ++ t :: l₂ ∧
      P.waits t c.tasks = false ∧
      c.advance P m k =
        ⟨(P.run m c.shared t).1, l₁ ++ (P.run m c.shared t).2.toList ++ l₂⟩ := by
  unfold advance
  cases hk : c.tasks[k]? with
  | none => exact .inl rfl
  | some t =>
      dsimp only
      split
      · exact .inl rfl
      · next hfree =>
          obtain ⟨hlt, hget⟩ := List.getElem?_eq_some_iff.mp hk
          have hsplit : c.tasks = c.tasks.take k ++ t :: c.tasks.drop (k + 1) := by
            rw [← hget, ← List.drop_eq_getElem_cons hlt, List.take_append_drop]
          refine .inr ⟨_, t, _, rfl, hsplit, by simpa using hfree, ?_⟩
          split
          · next s' hr =>
              rw [hr]
              simp [List.eraseIdx_eq_take_drop_succ]
          · next s' t' hr =>
              rw [hr]
              simp [List.set_eq_take_append_cons_drop, hlt]

/-- An invariant in three parts. -/
structure Holds (I : σ → List τ → Prop) (F : σ → τ → Prop) (R : τ → τ → Prop) (c : Crew σ τ) : Prop where
  shared : I c.shared c.tasks
  facts : ∀ t ∈ c.tasks, F c.shared t
  apart : c.tasks.Pairwise R

variable {I : σ → List τ → Prop} {F : σ → τ → Prop} {R : τ → τ → Prop} {c : Crew σ τ}

/-- Any two tasks beside each other. -/
theorem Holds.beside (hsymm : ∀ t u, R t u → R u t) (hc : Holds I F R c) {l₁ l₂ : List τ} {t : τ}
    (htasks : c.tasks = l₁ ++ t :: l₂) : ∀ u ∈ l₁ ++ l₂, R t u := by
  have hp := hc.apart
  rw [htasks, List.pairwise_append] at hp
  obtain ⟨-, h₂, h₃⟩ := hp
  intro u hu
  rcases List.mem_append.mp hu with hu | hu
  · exact hsymm _ _ (h₃ u hu t List.mem_cons_self)
  · exact (List.pairwise_cons.mp h₂).1 u hu

/-- One task takes its step: what it did is right, it spoils nothing for the others, and it goes on
knowing what it needs. -/
theorem Holds.next (hsymm : ∀ t u, R t u → R u t) (hc : Holds I F R c) {l₁ l₂ : List τ} {t : τ} {s' : σ}
    {next : Option τ} (htasks : c.tasks = l₁ ++ t :: l₂) (hI : I s' (l₁ ++ next.toList ++ l₂))
    (hothers : ∀ u ∈ l₁ ++ l₂, R t u → F c.shared u → F s' u)
    (hnext : ∀ t', next = some t' → F s' t' ∧ ∀ u ∈ l₁ ++ l₂, R t u → R t' u) :
    Holds I F R ⟨s', l₁ ++ next.toList ++ l₂⟩ := by
  have hbeside := hc.beside hsymm htasks
  have hsub : ∀ u ∈ l₁ ++ l₂, u ∈ c.tasks := by
    intro u hu
    rw [htasks]
    simp only [List.mem_append, List.mem_cons] at hu ⊢
    tauto
  have hkeep : ∀ u ∈ l₁ ++ l₂, F s' u := fun u hu => hothers u hu (hbeside u hu) (hc.facts u (hsub u hu))
  have hpair : (l₁ ++ l₂).Pairwise R := by
    have hp := hc.apart
    rw [htasks] at hp
    exact hp.sublist ((List.sublist_cons_self t l₂).append_left l₁)
  refine ⟨hI, ?_, ?_⟩
  · intro u hu
    simp only [List.mem_append, Option.mem_toList] at hu
    rcases hu with (hu | hu) | hu
    · exact hkeep u (List.mem_append_left _ hu)
    · exact (hnext u hu).1
    · exact hkeep u (List.mem_append_right _ hu)
  · cases next with
    | none => simpa using hpair
    | some t' =>
        have hR : ∀ u ∈ l₁ ++ l₂, R t' u := fun u hu => (hnext t' rfl).2 u hu (hbeside u hu)
        obtain ⟨h₁, h₂, h₃⟩ := List.pairwise_append.mp hpair
        simp only [Option.toList_some, List.append_assoc, List.cons_append, List.nil_append]
        refine List.pairwise_append.mpr ⟨h₁, ?_, ?_⟩
        · exact List.pairwise_cons.mpr ⟨fun u hu => hR u (List.mem_append_right _ hu), h₂⟩
        · intro u hu v hv
          rcases List.mem_cons.mp hv with rfl | hv
          · exact hsymm _ _ (hR u (List.mem_append_left _ hu))
          · exact h₃ u hu v hv

/-- A new task comes last. -/
theorem Holds.spawn (hc : Holds I F R c) {t : τ} (hI : I c.shared (c.tasks ++ [t])) (hF : F c.shared t)
    (hR : ∀ u ∈ c.tasks, R u t) : Holds I F R ⟨c.shared, c.tasks ++ [t]⟩ := by
  refine ⟨hI, ?_, ?_⟩
  · intro u hu
    rcases List.mem_append.mp hu with hu | hu
    · exact hc.facts u hu
    · rw [List.mem_singleton.mp hu]
      exact hF
  · refine List.pairwise_append.mpr ⟨hc.apart, List.pairwise_singleton _ _, ?_⟩
    intro u hu v hv
    rw [List.mem_singleton.mp hv]
    exact hR u hu

/-- The shared state changes by itself. -/
theorem Holds.outside (hc : Holds I F R c) {s' : σ} (hI : I s' c.tasks) (hF : ∀ t, F c.shared t → F s' t) :
    Holds I F R ⟨s', c.tasks⟩ :=
  ⟨hI, fun t ht => hF t (hc.facts t ht), hc.apart⟩

end Crew

end Sys
