/-
# `Base.Mirror` — a map in memory that mirrors rows of a table

A server keeps in memory what a table stores: `Holds key val rows m` says that the map `m`
has, under every key, the value of the row with that key, and nothing else.  Writing a row
and putting its value in the map keeps the two together, and so does deleting both; loading
the rows anew gives a map that reads the same.

Often one table stores the rows of many owners, each with a map of its own: `part` says
whose a row is, and the lemmas on `part` say what a write to the table does to one owner's
rows.
-/
import Loca.Base.Assoc
import Loca.Base.Table

namespace Mirror

open Table

variable {ρ α κ σ : Type} [DecidableEq κ] [DecidableEq σ]

/-- The map holds the rows, each under its key; no two rows share one. -/
structure Holds (key : ρ → κ) (val : ρ → α) (rows : List ρ) (m : Assoc κ α) : Prop where
  unique : (rows.map key).Nodup
  same : ∀ k v, m.get k = some v ↔ ∃ r ∈ rows, key r = k ∧ val r = v

namespace Holds

variable {key : ρ → κ} {val : ρ → α} {rows : List ρ} {m m' : Assoc κ α}

theorem empty : Holds key val [] ∅ :=
  ⟨List.nodup_nil, fun k v => by simp⟩

/-- Two maps that hold the same rows read the same. -/
theorem get_eq (h : Holds key val rows m) (h' : Holds key val rows m') (k : κ) :
    m'.get k = m.get k :=
  Option.ext fun v => (h'.same k v).trans (h.same k v).symm

theorem put (h : Holds key val rows m) (r : ρ) :
    Holds key val (upsert key r rows) (m.put (key r) (val r)) := by
  refine ⟨nodup_upsert h.unique, fun k v => ?_⟩
  simp only [mem_upsert]
  rw [Assoc.get_put]
  by_cases hk : k = key r
  · subst hk
    rw [if_pos rfl, Option.some.injEq]
    constructor
    · exact fun hv => ⟨r, .inr rfl, rfl, hv⟩
    · rintro ⟨x, ⟨-, hne⟩ | rfl, hx, hv⟩
      · exact absurd hx hne
      · exact hv
  · rw [if_neg hk, h.same]
    constructor
    · rintro ⟨x, hx, rfl, hv⟩
      exact ⟨x, .inl ⟨hx, hk⟩, rfl, hv⟩
    · rintro ⟨x, ⟨hx, -⟩ | rfl, hxk, hv⟩
      · exact ⟨x, hx, hxk, hv⟩
      · exact absurd hxk.symm hk

theorem del (h : Holds key val rows m) (k : κ) :
    Holds key val (deleteWhere (fun r => key r = k) rows) (m.del k) := by
  refine ⟨nodup_deleteWhere h.unique, fun j v => ?_⟩
  rw [Assoc.get_del]
  by_cases hj : j = k
  · subst hj
    rw [if_pos rfl]
    constructor
    · intro hv
      cases hv
    · rintro ⟨x, hx, hxj, -⟩
      exact absurd hxj (by simpa using (mem_deleteWhere.mp hx).2)
  · rw [if_neg hj, h.same]
    constructor
    · rintro ⟨x, hx, rfl, hv⟩
      exact ⟨x, mem_deleteWhere.mpr ⟨hx, by simpa using hj⟩, rfl, hv⟩
    · rintro ⟨x, hx, hxk, hv⟩
      exact ⟨x, (mem_deleteWhere.mp hx).1, hxk, hv⟩

/-- Dropping every value of a kind, on both sides. -/
theorem delAll (h : Holds key val rows m) {keyOf : α → κ} (hkey : ∀ r, keyOf (val r) = key r) (p : α → Bool) :
    Holds key val (deleteWhere (fun r => p (val r)) rows)
      ((m.values.filter p).foldl (fun m v => m.del (keyOf v)) m) := by
  refine ⟨nodup_deleteWhere h.unique, fun k v => ?_⟩
  rw [Assoc.get_foldl_del]
  have hkept : ∀ r ∈ rows, p (val r) = false → key r ∉ (m.values.filter p).map keyOf := by
    intro r hr hp hmem
    obtain ⟨u, hu, huk⟩ := List.mem_map.mp hmem
    obtain ⟨hval, hpu⟩ := List.mem_filter.mp hu
    obtain ⟨k', hk'⟩ := Assoc.mem_values.mp hval
    obtain ⟨x, hx, -, rfl⟩ := (h.same k' u).mp hk'
    rw [hkey] at huk
    rw [eq_of_key h.unique hx hr huk, hp] at hpu
    cases hpu
  constructor
  · intro hg
    rw [Option.ite_none_left_eq_some] at hg
    obtain ⟨hnot, hg⟩ := hg
    obtain ⟨r, hr, rfl, rfl⟩ := (h.same k v).mp hg
    refine ⟨r, mem_deleteWhere.mpr ⟨hr, ?_⟩, rfl, rfl⟩
    by_contra hp
    refine hnot (List.mem_map.mpr ⟨val r, List.mem_filter.mpr ⟨Assoc.mem_values.mpr ⟨_, hg⟩, ?_⟩, hkey r⟩)
    simpa using hp
  · rintro ⟨r, hr, rfl, rfl⟩
    obtain ⟨hr, hp⟩ := mem_deleteWhere.mp hr
    rw [if_neg (hkept r hr hp)]
    exact (h.same _ _).mpr ⟨r, hr, rfl, rfl⟩

/-- Loading the rows in any order gives a map that holds them. -/
theorem load (h : (rows.map key).Nodup) {keyOf : α → κ} (hkey : ∀ r, keyOf (val r) = key r)
    {vals : List α} (hvals : vals.Perm (rows.map val)) :
    Holds key val rows (Assoc.ofRows keyOf vals) := by
  have hnd : (vals.map keyOf).Nodup := by
    rw [(hvals.map keyOf).nodup_iff, List.map_map]
    rwa [show keyOf ∘ val = key from funext hkey]
  refine ⟨h, fun k v => ?_⟩
  rw [Assoc.get_ofRows hnd, hvals.mem_iff, List.mem_map]
  constructor
  · rintro ⟨⟨r, hr, rfl⟩, hk⟩
    exact ⟨r, hr, (hkey r).symm.trans hk, rfl⟩
  · rintro ⟨r, hr, hk, rfl⟩
    exact ⟨⟨r, hr, rfl⟩, (hkey r).trans hk⟩

end Holds

/-! ## One owner's rows -/

variable {part : ρ → σ} {key : ρ → κ}

theorem part_upsert (r : ρ) (t : List ρ) :
    (upsert (fun x => (part x, key x)) r t).filter (fun x => part x = part r) =
      upsert key r (t.filter fun x => part x = part r) := by
  unfold upsert deleteWhere
  simp only [List.filter_append, List.filter_filter, List.filter_cons, List.filter_nil, decide_true,
    if_true]
  congr 1
  refine List.filter_congr fun x _ => ?_
  by_cases hx : part x = part r
  · simp [hx]
  · simp [hx]

theorem part_delete (s : σ) (k : κ) (t : List ρ) :
    (deleteWhere (fun x => part x = s && key x = k) t).filter (fun x => part x = s) =
      deleteWhere (fun x => key x = k) (t.filter fun x => part x = s) := by
  unfold deleteWhere
  simp only [List.filter_filter]
  refine List.filter_congr fun x _ => ?_
  by_cases hx : part x = s
  · simp [hx]
  · simp [hx]

end Mirror
