/-
# `Base.Check` — checks in order, then one atomic effect

A store call is a list of checks, each with its own error, and an effect that is kept
only if every check passed.  `require` and `found` are the two kinds of check; the
`_ok` lemmas turn "the call succeeded" into the conjunction of what it checked, so that
no proof walks through the error branches.  `atomically` is the transaction around a
call: on any error the state is the one before.
-/
import Mathlib.Logic.Basic

namespace Check

variable {ε α β σ : Type}

def require (p : Prop) [Decidable p] (e : ε) : Except ε Unit :=
  if p then .ok () else .error e

def found (o : Option α) (e : ε) : Except ε α :=
  match o with
  | some a => .ok a
  | none => .error e

/-- Run a call as one transaction.  `failed` says that some statement of the call, or its
commit, failed: the call then answers `fault` and nothing is kept. -/
def atomically (failed : Bool) (fault : ε) (call : σ → Except ε (α × σ)) (s : σ) :
    Except ε α × σ :=
  if failed then (.error fault, s)
  else
    match call s with
    | .ok (a, s') => (.ok a, s')
    | .error e => (.error e, s)

/-! ## How a call goes on -/

@[simp] theorem error_bind (e : ε) (f : α → Except ε β) : (Except.error e >>= f) = .error e := rfl

@[simp] theorem ok_bind (a : α) (f : α → Except ε β) : (Except.ok a >>= f) = f a := rfl

@[simp] theorem found_some (a : α) (e : ε) : found (some a) e = .ok a := rfl

@[simp] theorem found_none (e : ε) : found (none : Option α) e = .error e := rfl

/-! ## What a success says -/

@[simp] theorem require_ok {p : Prop} [Decidable p] {e : ε} {u : Unit} :
    require p e = .ok u ↔ p := by
  unfold require
  split <;> simp_all

@[simp] theorem found_ok {o : Option α} {e : ε} {a : α} : found o e = .ok a ↔ o = some a := by
  cases o <;> simp [found]

@[simp] theorem bind_ok {x : Except ε α} {f : α → Except ε β} {b : β} :
    (x >>= f) = .ok b ↔ ∃ a, x = .ok a ∧ f a = .ok b := by
  cases x <;> simp [Bind.bind, Except.bind]

@[simp] theorem pure_ok {a b : α} : (pure a : Except ε α) = .ok b ↔ a = b := by
  simp [pure, Except.pure]

@[simp] theorem mapError_ok {ε' : Type} {f : ε → ε'} {x : Except ε α} {a : α} :
    x.mapError f = .ok a ↔ x = .ok a := by
  cases x with
  | error e => exact ⟨nofun, nofun⟩
  | ok b =>
      have hb : Except.mapError f (Except.ok b : Except ε α) = .ok b := rfl
      rw [hb, Except.ok.injEq, Except.ok.injEq]

/-- Give the result another form; the state is kept. -/
def answer (f : α → β) (x : Except ε (α × σ)) : Except ε (β × σ) :=
  x.map (Prod.map f id)

@[simp] theorem answer_ok {f : α → β} {x : Except ε (α × σ)} {b : β} {s : σ} :
    answer f x = .ok (b, s) ↔ ∃ a, x = .ok (a, s) ∧ f a = b := by
  cases x with
  | error e => simp [answer, Except.map]
  | ok r =>
      cases r
      simp only [answer, Except.map, Prod.map, id, Except.ok.injEq, Prod.mk.injEq]
      exact ⟨fun h => ⟨_, ⟨rfl, h.2⟩, h.1⟩, fun ⟨_, ⟨ha, hs⟩, hf⟩ => ⟨ha ▸ hf, hs⟩⟩

@[simp] theorem answer_error (f : α → β) (e : ε) :
    answer f (.error e : Except ε (α × σ)) = .error e := rfl

/-- A transaction either kept the whole effect of its call or none of it. -/
theorem atomically_cases (failed : Bool) (fault : ε) (call : σ → Except ε (α × σ)) (s : σ) :
    (∃ a s', call s = .ok (a, s') ∧ atomically failed fault call s = (.ok a, s')) ∨
    (∃ e, atomically failed fault call s = (.error e, s)) := by
  cases failed with
  | true => exact .inr ⟨fault, rfl⟩
  | false =>
      cases h : call s with
      | ok r => exact .inl ⟨r.1, r.2, rfl, by simp [atomically, h]⟩
      | error e => exact .inr ⟨e, by simp [atomically, h]⟩

theorem atomically_error {failed : Bool} {fault e : ε} {call : σ → Except ε (α × σ)} {s : σ}
    (h : (atomically failed fault call s).1 = .error e) :
    (atomically failed fault call s).2 = s := by
  rcases atomically_cases failed fault call s with ⟨a, s', _, hs⟩ | ⟨e', hs⟩
  · rw [hs] at h; cases h
  · rw [hs]

theorem atomically_ok {failed : Bool} {fault : ε} {a : α} {call : σ → Except ε (α × σ)} {s : σ}
    (h : (atomically failed fault call s).1 = .ok a) :
    call s = .ok (a, (atomically failed fault call s).2) := by
  rcases atomically_cases failed fault call s with ⟨b, s', hc, hs⟩ | ⟨e', hs⟩
  · rw [hs] at h ⊢
    cases h
    exact hc
  · rw [hs] at h; cases h

/-! ## What a refusal can be -/

/-- Whatever the call refuses with satisfies `P`. -/
def Refuses (P : ε → Prop) (x : Except ε α) : Prop := ∀ e, x = .error e → P e

namespace Refuses

variable {P : ε → Prop}

theorem pure (a : α) : Refuses P (Pure.pure a : Except ε α) := fun _ h => by cases h

theorem error {e : ε} (h : P e) : Refuses P (Except.error e : Except ε α) := fun _ he => by
  cases he
  exact h

theorem require {p : Prop} [Decidable p] {e : ε} (h : ¬p → P e) : Refuses P (Check.require p e) := by
  unfold Check.require
  split
  · exact pure ()
  · next hp => exact error (h hp)

theorem found {o : Option α} {e : ε} (h : P e) : Refuses P (Check.found o e) := by
  cases o with
  | none => exact error h
  | some a => exact pure a

theorem bind {x : Except ε α} {f : α → Except ε β} (hx : Refuses P x)
    (hf : ∀ a, x = .ok a → Refuses P (f a)) : Refuses P (x >>= f) := by
  cases x with
  | error e => exact error (hx e rfl)
  | ok a => exact hf a rfl

theorem foldlM {f : β → α → Except ε β} (h : ∀ b a, Refuses P (f b a)) (l : List α) (b : β) :
    Refuses P (l.foldlM f b) := by
  induction l generalizing b with
  | nil => exact pure b
  | cons a l ih => exact bind (h b a) fun b' _ => ih b'

end Refuses

end Check
