/-
# `Base.Prog` — programs that may die at any command

A program returns, dies, or gives a command to its host and goes on with the answer.  The host acts
on a state; what it does and answers may depend on something outside (`ε`), one piece for each
command.  A program that runs out of outside dies at its next command, so that the lists of type
`List ε` are all the ways in which a run can go and all the points at which it can be cut short.

`Prog.wp` is the rule of pre- and postconditions: `C` holds wherever the program may die, and `Q` of
its answer and the state when it returns.  `exec_wp` says that the rule is sound.  `Prog.Total` is the
other half: the program does return, `exec_total`.
-/
import Loca.Base.Run

namespace Sys

/-- A program over commands `κ`, whose command `c` is answered by a value of `ρ c`. -/
inductive Prog (κ : Type) (ρ : κ → Type) (α : Type) : Type
  | ret (a : α)
  | die
  | cmd (c : κ) (next : ρ c → Prog κ ρ α)

namespace Prog

variable {κ σ ε α β : Type} {ρ : κ → Type}

protected def bind : Prog κ ρ α → (α → Prog κ ρ β) → Prog κ ρ β
  | ret a, f => f a
  | die, _ => die
  | cmd c next, f => cmd c fun r => (next r).bind f

instance : Monad (Prog κ ρ) where
  pure := ret
  bind := Prog.bind

/-- One after the other. -/
def each (f : α → Prog κ ρ Unit) : List α → Prog κ ρ Unit
  | [] => ret ()
  | a :: as => f a >>= fun _ => each f as

/-- What a command does and answers; no answer is the end of the program. -/
structure Host (κ σ ε : Type) (ρ : κ → Type) where
  perform : (c : κ) → ε → σ → Option (ρ c) × σ

variable (H : Host κ σ ε ρ)

def exec : Prog κ ρ α → List ε → σ → Option α × σ
  | ret a, _, s => (some a, s)
  | die, _, s => (none, s)
  | cmd _ _, [], s => (none, s)
  | cmd c next, e :: es, s =>
      match H.perform c e s with
      | (some r, s') => exec (next r) es s'
      | (none, s') => (none, s')

theorem exec_cmd {c : κ} {next : ρ c → Prog κ ρ α} {e : ε} {es : List ε} {s s' : σ} {r : ρ c}
    (h : H.perform c e s = (some r, s')) : exec H (cmd c next) (e :: es) s = exec H (next r) es s' := by
  simp only [exec, h]

/-- What every command keeps, every program keeps, wherever it ends. -/
theorem exec_keeps {I : σ → Prop} (hstep : ∀ c e s, I s → I (H.perform c e s).2) (p : Prog κ ρ α) (es : List ε) {s : σ}
    (h : I s) : I (exec H p es s).2 := by
  induction p generalizing es s with
  | ret a => exact h
  | die => exact h
  | cmd c next ih =>
      cases es with
      | nil => exact h
      | cons e es =>
          have hp := hstep c e s h
          simp only [exec]
          cases hr : H.perform c e s with
          | mk r s' =>
              rw [hr] at hp
              cases r with
              | none => exact hp
              | some r => exact ih r es hp

/-- Every piece of outside is one that may be met where it is met. -/
def Meets (ok : σ → κ → ε → Prop) : Prog κ ρ α → List ε → σ → Prop
  | ret _, _, _ => True
  | die, _, _ => True
  | cmd _ _, [], _ => True
  | cmd c next, e :: es, s => ok s c e ∧
      match H.perform c e s with
      | (some r, s') => Meets ok (next r) es s'
      | (none, _) => True

def wp (ok : σ → κ → ε → Prop) (C : σ → Prop) : Prog κ ρ α → (α → σ → Prop) → σ → Prop
  | ret a, Q, s => Q a s
  | die, _, s => C s
  | cmd c next, Q, s => C s ∧ ∀ e, ok s c e →
      match H.perform c e s with
      | (some r, s') => wp ok C (next r) Q s'
      | (none, s') => C s'

/-- Whatever is met, the program does not die before it returns. -/
def Total (ok : σ → κ → ε → Prop) : Prog κ ρ α → (α → σ → Prop) → σ → Prop
  | ret a, Q, s => Q a s
  | die, _, _ => False
  | cmd c next, Q, s => ∀ e, ok s c e → ∃ r s', H.perform c e s = (some r, s') ∧ Total ok (next r) Q s'

section

variable {H} {ok : σ → κ → ε → Prop} {C : σ → Prop} {Q Q' : α → σ → Prop} {s : σ}

theorem meets_all (h : ∀ s c e, ok s c e) (p : Prog κ ρ α) (es : List ε) (s : σ) : Meets H ok p es s := by
  induction p generalizing es s with
  | ret a => trivial
  | die => trivial
  | cmd c next ih =>
      cases es with
      | nil => trivial
      | cons e es =>
          rw [Meets]
          refine ⟨h s c e, ?_⟩
          split
          · exact ih _ es _
          · trivial

theorem meets_cmd {c : κ} {next : ρ c → Prog κ ρ α} {e : ε} {es : List ε} {s' : σ} {r : ρ c} (hok : ok s c e)
    (h : H.perform c e s = (some r, s')) (hnext : Meets H ok (next r) es s') : Meets H ok (cmd c next) (e :: es) s := by
  rw [Meets, h]
  exact ⟨hok, hnext⟩

theorem exec_wp {p : Prog κ ρ α} {es : List ε} (h : wp H ok C p Q s) (hm : Meets H ok p es s) :
    match exec H p es s with
    | (some a, s') => Q a s'
    | (none, s') => C s' := by
  induction p generalizing es s with
  | ret a => exact h
  | die => exact h
  | cmd c next ih =>
      cases es with
      | nil => exact h.1
      | cons e es =>
          rw [Meets] at hm
          obtain ⟨hok, hrest⟩ := hm
          have hnext := h.2 e hok
          simp only [exec]
          cases hp : H.perform c e s with
          | mk r s' =>
              rw [hp] at hrest hnext
              cases r with
              | none => exact hnext
              | some r => exact ih r hnext hrest

theorem wp_mono {p : Prog κ ρ α} (h : wp H ok C p Q s) (hq : ∀ a s', Q a s' → Q' a s') : wp H ok C p Q' s := by
  induction p generalizing s with
  | ret a => exact hq a s h
  | die => exact h
  | cmd c next ih =>
      refine ⟨h.1, fun e he => ?_⟩
      have hnext := h.2 e he
      cases hp : H.perform c e s with
      | mk r s' =>
          rw [hp] at hnext
          cases r with
          | none => exact hnext
          | some r => exact ih r hnext

/-- Where a program may die in a state of one kind, it may die in a state of a wider kind. -/
theorem wp_crash {C' : σ → Prop} {p : Prog κ ρ α} (hc : ∀ s', C s' → C' s') (h : wp H ok C p Q s) :
    wp H ok C' p Q s := by
  induction p generalizing s with
  | ret a => exact h
  | die => exact hc s h
  | cmd c next ih =>
      refine ⟨hc s h.1, fun e he => ?_⟩
      have hnext := h.2 e he
      cases hp : H.perform c e s with
      | mk r s' =>
          rw [hp] at hnext
          cases r with
          | none => exact hc s' hnext
          | some r => exact ih r hnext

theorem wp_bind {p : Prog κ ρ α} {f : α → Prog κ ρ β} {Q : β → σ → Prop}
    (h : wp H ok C p (fun a s' => wp H ok C (f a) Q s') s) : wp H ok C (p >>= f) Q s := by
  change wp H ok C (Prog.bind p f) Q s
  induction p generalizing s with
  | ret a => exact h
  | die => exact h
  | cmd c next ih =>
      refine ⟨h.1, fun e he => ?_⟩
      have hnext := h.2 e he
      cases hp : H.perform c e s with
      | mk r s' =>
          rw [hp] at hnext
          cases r with
          | none => exact hnext
          | some r => exact ih r hnext

@[simp] theorem wp_pure {a : α} : wp H ok C (pure a : Prog κ ρ α) Q s = Q a s := rfl

@[simp] theorem wp_die : wp H ok C (die : Prog κ ρ α) Q s = C s := rfl

/-- A loop keeps what each of its turns keeps. -/
theorem wp_each {f : α → Prog κ ρ Unit} {as : List α} (hloop : ∀ a ∈ as, ∀ s, C s → wp H ok C (f a) (fun _ => C) s)
    (h : C s) : wp H ok C (each f as) (fun _ => C) s := by
  induction as generalizing s with
  | nil => exact h
  | cons a as ih =>
      refine wp_bind (wp_mono (hloop a List.mem_cons_self s h) fun _ s' hs' => ?_)
      exact ih (fun b hb => hloop b (List.mem_cons_of_mem _ hb)) hs'

/-- Given enough outside, a total program returns. -/
theorem exec_total {p : Prog κ ρ α} (o : Nat → ε) (h : Total H ok p Q s)
    (hm : ∀ n, Meets H ok p ((List.range n).map o) s) :
    ∃ n a s', exec H p ((List.range n).map o) s = (some a, s') ∧ Q a s' := by
  induction p generalizing o s with
  | ret a => exact ⟨0, a, s, rfl, h⟩
  | die => exact h.elim
  | cmd c next ih =>
      have hrange : ∀ n, (List.range (n + 1)).map o = o 0 :: (List.range n).map (fun k => o (k + 1)) := by
        intro n
        rw [List.range_succ_eq_map, List.map_cons, List.map_map]
        rfl
      have hone := hm 1
      rw [hrange 0, Meets] at hone
      obtain ⟨r, s', hp, hnext⟩ := h (o 0) hone.1
      obtain ⟨n, a, s'', hexec, hq⟩ := ih r (fun k => o (k + 1)) hnext fun n => by
        have hn := hm (n + 1)
        rw [hrange n, Meets, hp] at hn
        exact hn.2
      exact ⟨n + 1, a, s'', by rw [hrange n, exec_cmd H hp]; exact hexec, hq⟩

theorem total_mono {p : Prog κ ρ α} (h : Total H ok p Q s) (hq : ∀ a s', Q a s' → Q' a s') : Total H ok p Q' s := by
  induction p generalizing s with
  | ret a => exact hq a s h
  | die => exact h
  | cmd c next ih =>
      intro e he
      obtain ⟨r, s', hp, hnext⟩ := h e he
      exact ⟨r, s', hp, ih r hnext⟩

theorem total_bind {p : Prog κ ρ α} {f : α → Prog κ ρ β} {Q : β → σ → Prop}
    (h : Total H ok p (fun a s' => Total H ok (f a) Q s') s) : Total H ok (p >>= f) Q s := by
  change Total H ok (Prog.bind p f) Q s
  induction p generalizing s with
  | ret a => exact h
  | die => exact h
  | cmd c next ih =>
      intro e he
      obtain ⟨r, s', hp, hnext⟩ := h e he
      exact ⟨r, s', hp, ih r hnext⟩

theorem total_each {f : α → Prog κ ρ Unit} {as : List α} {I : σ → Prop}
    (hloop : ∀ a ∈ as, ∀ s, I s → Total H ok (f a) (fun _ => I) s) (h : I s) : Total H ok (each f as) (fun _ => I) s := by
  induction as generalizing s with
  | nil => exact h
  | cons a as ih =>
      refine total_bind (total_mono (hloop a List.mem_cons_self s h) fun _ s' hs' => ?_)
      exact ih (fun b hb => hloop b (List.mem_cons_of_mem _ hb)) hs'

end

end Prog

end Sys
