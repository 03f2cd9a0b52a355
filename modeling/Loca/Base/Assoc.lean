/-
# `Base.Assoc` — keyed maps that a program holds in memory

Mathlib's `AList` at a fixed value type, with the names a program uses for it: `get`,
`put`, `del`, and the bulk operations a server applies to such a map (update the values
in place, keep some entries, load it from rows).  Keys are unique by construction.

A program that iterates over a hash map meets the entries in an order it does not
choose.  `inOrder` is that choice: any arrangement of the keys may be the one met.
-/
import Mathlib.Data.List.AList

/-- A finite map: a list of entries with distinct keys. -/
abbrev Assoc (κ α : Type) := AList fun _ : κ => α

namespace Assoc

variable {κ α : Type} [DecidableEq κ]

def get (k : κ) (m : Assoc κ α) : Option α := AList.lookup k m

def put (k : κ) (v : α) (m : Assoc κ α) : Assoc κ α := AList.insert k v m

def del (k : κ) (m : Assoc κ α) : Assoc κ α := AList.erase k m

def has (k : κ) (m : Assoc κ α) : Bool := (m.get k).isSome

omit [DecidableEq κ] in
/-- The values, in the order of the entries. -/
def values (m : Assoc κ α) : List α := m.entries.map Sigma.snd

omit [DecidableEq κ] in
/-- Change every value, each by its key and itself. -/
def mapVal (f : κ → α → α) (m : Assoc κ α) : Assoc κ α where
  entries := m.entries.map fun e => ⟨e.1, f e.1 e.2⟩
  nodupKeys := by
    have hkeys : (m.entries.map fun e => (⟨e.1, f e.1 e.2⟩ : Sigma fun _ : κ => α)).keys =
        m.entries.keys := by
      simp [List.keys, Function.comp_def]
    rw [List.NodupKeys, hkeys]
    exact m.nodupKeys

omit [DecidableEq κ] in
/-- Keep the entries that pass. -/
def retain (p : κ → α → Bool) (m : Assoc κ α) : Assoc κ α where
  entries := m.entries.filter fun e => p e.1 e.2
  nodupKeys := m.nodupKeys.sublist List.filter_sublist

/-- Load rows under their keys; a later row replaces an earlier one. -/
def ofRows (key : α → κ) (rows : List α) : Assoc κ α :=
  rows.foldl (fun m r => m.put (key r) r) ∅

/-- The arrangement of the keys that an iteration meets: the one given, when it is one. -/
def inOrder (given keys : List κ) : List κ :=
  if given.Perm keys then given else keys

/-! ## Looking up -/

@[simp] theorem get_empty (k : κ) : get k (∅ : Assoc κ α) = none := rfl

theorem get_put (j k : κ) (v : α) (m : Assoc κ α) :
    get j (put k v m) = if j = k then some v else get j m := by
  by_cases h : j = k
  · subst h
    rw [if_pos rfl]
    exact AList.lookup_insert m
  · rw [if_neg h]
    exact AList.lookup_insert_ne h

@[simp] theorem get_put_self (k : κ) (v : α) (m : Assoc κ α) : get k (put k v m) = some v := by
  rw [get_put, if_pos rfl]

theorem get_put_ne {j k : κ} (h : j ≠ k) (v : α) (m : Assoc κ α) :
    get j (put k v m) = get j m := by
  rw [get_put, if_neg h]

theorem get_del (j k : κ) (m : Assoc κ α) :
    get j (del k m) = if j = k then none else get j m := by
  by_cases h : j = k
  · subst h
    rw [if_pos rfl]
    exact AList.lookup_erase _ m
  · rw [if_neg h]
    exact AList.lookup_erase_ne h

/-- Keys are dropped one after the other. -/
theorem get_foldl_del {β : Type*} (f : β → κ) (l : List β) (k : κ) (m : Assoc κ α) :
    get k (l.foldl (fun m x => del (f x) m) m) = if k ∈ l.map f then none else get k m := by
  induction l generalizing m with
  | nil => rfl
  | cons x l ih =>
      rw [List.foldl_cons, ih, get_del, List.map_cons]
      by_cases hl : k ∈ l.map f
      · rw [if_pos hl, if_pos (List.mem_cons_of_mem _ hl)]
      · by_cases hx : k = f x
        · rw [if_neg hl, if_pos hx, if_pos (by rw [hx]; exact List.mem_cons_self)]
        · rw [if_neg hl, if_neg hx, if_neg fun h => by
            rcases List.mem_cons.mp h with h | h
            · exact hx h
            · exact hl h]

theorem mem_entries {k : κ} {v : α} {m : Assoc κ α} :
    (⟨k, v⟩ : Sigma fun _ : κ => α) ∈ m.entries ↔ get k m = some v :=
  (List.mem_dlookup_iff m.nodupKeys).symm

theorem mem_values {v : α} {m : Assoc κ α} : v ∈ values m ↔ ∃ k, get k m = some v := by
  unfold values
  rw [List.mem_map]
  constructor
  · rintro ⟨⟨k, w⟩, hm, rfl⟩
    exact ⟨k, mem_entries.mp hm⟩
  · rintro ⟨k, hk⟩
    exact ⟨⟨k, v⟩, mem_entries.mpr hk, rfl⟩

theorem get_mapVal (f : κ → α → α) (k : κ) (m : Assoc κ α) :
    get k (mapVal f m) = (get k m).map (f k) := by
  refine Option.ext fun v => ?_
  rw [← mem_entries, Option.map_eq_some_iff]
  constructor
  · intro h
    obtain ⟨⟨j, w⟩, hw, he⟩ := List.mem_map.mp h
    cases he
    exact ⟨w, mem_entries.mp hw, rfl⟩
  · rintro ⟨w, hw, rfl⟩
    exact List.mem_map.mpr ⟨⟨k, w⟩, mem_entries.mpr hw, rfl⟩

theorem get_retain (p : κ → α → Bool) (k : κ) (m : Assoc κ α) :
    get k (retain p m) = (get k m).filter (p k) := by
  refine Option.ext fun v => ?_
  rw [← mem_entries, Option.filter_eq_some_iff]
  exact List.mem_filter.trans (and_congr_left' mem_entries)

theorem mem_keys {k : κ} {m : Assoc κ α} : k ∈ m.keys ↔ ∃ v, get k m = some v := by
  rw [← AList.mem_keys, ← AList.lookup_isSome, Option.isSome_iff_exists]
  rfl

/-- Whatever is in a map loaded from rows was among the rows. -/
theorem mem_of_get_ofRows {key : α → κ} {rows : List α} {k : κ} {v : α}
    (h : get k (ofRows key rows) = some v) : v ∈ rows := by
  suffices hgen : ∀ m : Assoc κ α, get k (rows.foldl (fun m r => m.put (key r) r) m) = some v →
      v ∈ rows ∨ get k m = some v by
    rcases hgen ∅ h with hv | hv
    · exact hv
    · cases hv
  clear h
  induction rows with
  | nil => exact fun m hm => .inr hm
  | cons r rows ih =>
      intro m hm
      rcases ih _ hm with hv | hv
      · exact .inl (List.mem_cons_of_mem _ hv)
      · rw [get_put] at hv
        split at hv
        · exact .inl (Option.some.inj hv ▸ List.mem_cons_self)
        · exact .inr hv

/-- A map loaded from rows with distinct keys holds exactly what they say. -/
theorem get_load {ρ : Type*} {key : ρ → κ} {val : ρ → α} {rows : List ρ} (h : (rows.map key).Nodup)
    (k : κ) (v : α) : get k (rows.foldl (fun m r => m.put (key r) (val r)) (∅ : Assoc κ α)) = some v ↔
      ∃ r ∈ rows, key r = k ∧ val r = v := by
  suffices hgen : ∀ m : Assoc κ α, get k (rows.foldl (fun m r => m.put (key r) (val r)) m) = some v ↔
      (∃ r ∈ rows, key r = k ∧ val r = v) ∨ (get k m = some v ∧ ∀ r ∈ rows, key r ≠ k) by
    rw [hgen]
    simp
  -- induction on the rows still to load, over any map loaded so far
  induction rows with
  | nil => simp
  | cons r rows ih =>
      intro m
      rw [List.map_cons, List.nodup_cons] at h
      rw [List.foldl_cons, ih h.2, get_put]
      have hr : ∀ x ∈ rows, key x ≠ key r := fun x hx he => h.1 (he ▸ List.mem_map_of_mem hx)
      by_cases hk : k = key r
      · subst hk
        simp only [if_true, Option.some.injEq, List.exists_mem_cons_iff, List.forall_mem_cons]
        constructor
        · rintro (⟨x, hx, he, -⟩ | ⟨rfl, -⟩)
          · exact absurd he (hr x hx)
          · exact .inl (.inl ⟨trivial, rfl⟩)
        · rintro ((⟨-, rfl⟩ | ⟨x, hx, he, -⟩) | ⟨-, hne, -⟩)
          · exact .inr ⟨rfl, hr⟩
          · exact absurd he (hr x hx)
          · exact absurd rfl hne
      · rw [if_neg hk]
        simp only [List.exists_mem_cons_iff, List.forall_mem_cons]
        constructor
        · rintro (hx | ⟨hm, hne⟩)
          · exact .inl (.inr hx)
          · exact .inr ⟨hm, fun h => hk h.symm, hne⟩
        · rintro ((⟨he, -⟩ | hx) | ⟨hm, -, hne⟩)
          · exact absurd he.symm hk
          · exact .inl hx
          · exact .inr ⟨hm, hne⟩

theorem get_ofRows {key : α → κ} {rows : List α} (h : (rows.map key).Nodup) (k : κ) (v : α) :
    get k (ofRows key rows) = some v ↔ v ∈ rows ∧ key v = k := by
  rw [ofRows, get_load h]
  constructor
  · rintro ⟨r, hr, hk, rfl⟩
    exact ⟨hr, hk⟩
  · rintro ⟨hv, hk⟩
    exact ⟨v, hv, hk, rfl⟩

end Assoc
