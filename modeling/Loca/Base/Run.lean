/-
# `Base.Run` — runs of a machine, with the answers it gave

A machine takes one input at a time and gives one answer for it.  `Run M ok tr s`: from
an initial state the machine has reached `s`, and `tr` is the list of the inputs taken
and the answers given, latest first.  `ok` restricts which input may be taken in which
state; `Run M (fun _ _ => True)` is every run.

Both kinds of law a run can obey come from the same induction: a fact about every state
reached (`Run.invariant`), and a fact that ties the answers given so far to the state
(`Run.induction`, which sees the trace).
-/
import Mathlib.Logic.Basic

universe u v w

namespace Sys

/-- A deterministic machine: initial states, and one step. -/
structure Machine (σ : Type u) (ι : Type v) (ο : Type w) where
  init : σ → Prop
  step : σ → ι → ο × σ

variable {σ : Type u} {ι : Type v} {ο : Type w}

inductive Run (M : Machine σ ι ο) (ok : σ → ι → Prop) : List (ι × ο) → σ → Prop
  | nil {s : σ} : M.init s → Run M ok [] s
  | snoc {tr : List (ι × ο)} {s : σ} (i : ι) : Run M ok tr s → ok s i →
      Run M ok ((i, (M.step s i).1) :: tr) (M.step s i).2

/-- Take the inputs one after the other: the trace, latest first, and the state reached. -/
def Machine.exec (M : Machine σ ι ο) : List ι → List (ι × ο) → σ → List (ι × ο) × σ
  | [], tr, s => (tr, s)
  | i :: is, tr, s => M.exec is ((i, (M.step s i).1) :: tr) (M.step s i).2

/-- Each input of the list may be taken in the state it meets. -/
def Machine.Admits (M : Machine σ ι ο) (ok : σ → ι → Prop) : List ι → σ → Prop
  | [], _ => True
  | i :: is, s => ok s i ∧ M.Admits ok is (M.step s i).2

theorem Machine.admits_of_all {M : Machine σ ι ο} {ok : σ → ι → Prop} (h : ∀ s i, ok s i) :
    ∀ (is : List ι) (s : σ), M.Admits ok is s
  | [], _ => trivial
  | i :: is, s => ⟨h s i, admits_of_all h is _⟩

instance Machine.decidableAdmits (M : Machine σ ι ο) (ok : σ → ι → Prop) [∀ s i, Decidable (ok s i)] :
    ∀ (is : List ι) (s : σ), Decidable (M.Admits ok is s)
  | [], _ => inferInstanceAs (Decidable True)
  | i :: is, s => @instDecidableAnd (ok s i) _ _ (decidableAdmits M ok is (M.step s i).2)

/-- What survives every step survives a list of them, from wherever it starts. -/
theorem Machine.Admits.invariant {M : Machine σ ι ο} {ok : σ → ι → Prop} {I : σ → Prop}
    (hs : ∀ s i, I s → ok s i → I (M.step s i).2) {is : List ι} {s : σ} (h : M.Admits ok is s)
    (tr : List (ι × ο)) (h₀ : I s) : I (M.exec is tr s).2 := by
  induction is generalizing s tr with
  | nil => exact h₀
  | cons i is ih => exact ih h.2 _ (hs s i h₀ h.1)

/-- The trace that was there stays. -/
theorem Machine.mem_exec {M : Machine σ ι ο} {e : ι × ο} (is : List ι) {tr : List (ι × ο)} {s : σ}
    (h : e ∈ tr) : e ∈ (M.exec is tr s).1 := by
  induction is generalizing s tr with
  | nil => exact h
  | cons i is ih => exact ih (List.mem_cons_of_mem _ h)

/-- The state that the inputs lead to. -/
def Machine.after (M : Machine σ ι ο) (is : List ι) (s : σ) : σ := is.foldl (fun s i => (M.step s i).2) s

theorem Machine.after_concat (M : Machine σ ι ο) (is : List ι) (i : ι) (s : σ) :
    M.after (is ++ [i]) s = (M.step (M.after is s) i).2 := by
  unfold Machine.after
  rw [List.foldl_append, List.foldl_cons, List.foldl_nil]

/-- The same, of the state that the inputs lead to. -/
theorem Machine.Admits.after {M : Machine σ ι ο} {ok : σ → ι → Prop} {I : σ → Prop} {is : List ι} {s : σ}
    (h : M.Admits ok is s) (hs : ∀ s i, I s → ok s i → I (M.step s i).2) (h₀ : I s) : I (M.after is s) := by
  induction is generalizing s with
  | nil => exact h₀
  | cons i is ih => exact ih h.2 (hs s i h₀ h.1)

namespace Run

variable {M : Machine σ ι ο} {ok : σ → ι → Prop}

/-- A list of admitted inputs extends a run. -/
theorem exec (is : List ι) {tr : List (ι × ο)} {s : σ} (h : M.Admits ok is s)
    (r : Run M ok tr s) : Run M ok (M.exec is tr s).1 (M.exec is tr s).2 := by
  induction is generalizing tr s with
  | nil => exact r
  | cons i is ih => exact ih h.2 (r.snoc i h.1)

/-- What holds at the start and survives every step holds along the run; the fact may
speak of the trace. -/
theorem induction {P : List (ι × ο) → σ → Prop}
    (h₀ : ∀ s, M.init s → P [] s)
    (hs : ∀ tr s i, Run M ok tr s → P tr s → ok s i →
      P ((i, (M.step s i).1) :: tr) (M.step s i).2)
    {tr : List (ι × ο)} {s : σ} (r : Run M ok tr s) : P tr s := by
  induction r with
  | nil h => exact h₀ _ h
  | snoc i r hi ih => exact hs _ _ i r ih hi

/-- A state invariant. -/
theorem invariant {I : σ → Prop}
    (h₀ : ∀ s, M.init s → I s)
    (hs : ∀ s i, I s → ok s i → I (M.step s i).2)
    {tr : List (ι × ο)} {s : σ} (r : Run M ok tr s) : I s :=
  induction (P := fun _ s => I s) h₀ (fun _ s i _ h hi => hs s i h hi) r

/-- Dropping the restriction on the inputs. -/
theorem weaken {ok' : σ → ι → Prop} (h : ∀ s i, ok s i → ok' s i)
    {tr : List (ι × ο)} {s : σ} (r : Run M ok tr s) : Run M ok' tr s := by
  induction r with
  | nil h₀ => exact .nil h₀
  | snoc i _ hi ih => exact .snoc i ih (h _ _ hi)

/-- A run that obeys two restrictions obeys both: the trace decides the states. -/
theorem both {ok' : σ → ι → Prop} (hinit : ∀ s s', M.init s → M.init s' → s = s') {tr : List (ι × ο)}
    {s s' : σ} (r : Run M ok tr s) (r' : Run M ok' tr s') :
    s = s' ∧ Run M (fun s i => ok s i ∧ ok' s i) tr s := by
  induction r generalizing s' with
  | nil h =>
      cases r' with
      | nil h' => exact ⟨hinit _ _ h h', .nil h⟩
  | @snoc tr₀ s₀ i r₀ hi ih =>
      generalize htr : (i, (M.step s₀ i).1) :: tr₀ = tr₁ at r'
      cases r' with
      | nil h' => cases htr
      | snoc j r₁ hj =>
          obtain ⟨hij, rfl⟩ := List.cons.inj htr
          obtain rfl := (Prod.mk.inj hij).1
          obtain ⟨rfl, hr⟩ := ih r₁
          exact ⟨rfl, hr.snoc i ⟨hi, hj⟩⟩

end Run

/-- A loop relates its start to its end when every turn does. -/
theorem foldl_rel {α β : Type} {R : β → β → Prop} {f : β → α → β} (refl : ∀ b, R b b)
    (trans : ∀ a b c, R a b → R b c → R a c) (step : ∀ b a, R b (f b a)) (l : List α) (b : β) :
    R b (l.foldl f b) := by
  induction l generalizing b with
  | nil => exact refl b
  | cons a l ih => exact trans _ _ _ (step b a) (ih _)

end Sys
