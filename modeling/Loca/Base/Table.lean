/-
# `Base.Table` — a relational table as a list of rows

The statements a program issues against one table, as functions on the list of its
rows: `UPDATE … WHERE`, `DELETE … WHERE`, `INSERT OR REPLACE`, `INSERT OR IGNORE` and
`INSERT … ON CONFLICT DO UPDATE`.  A row type carries its own key function; nothing
here knows what a row is.

The lemmas answer two questions about each statement: which rows are there afterwards
(the `mem_` lemmas), and what a reader that looks at a part of the table sees
(`filter_` lemmas: a statement that only touches rows outside the part is invisible
to it).
-/
import Mathlib.Data.List.Nodup
import Mathlib.Data.List.Sort

namespace Table

variable {ρ κ : Type}

/-- `UPDATE t SET f WHERE p`. -/
def updateWhere (p : ρ → Bool) (f : ρ → ρ) (t : List ρ) : List ρ :=
  t.map fun r => if p r then f r else r

/-- `DELETE FROM t WHERE p`. -/
def deleteWhere (p : ρ → Bool) (t : List ρ) : List ρ :=
  t.filter fun r => !p r

variable [DecidableEq κ]

/-- Is some row stored under this key? -/
def hasKey (key : ρ → κ) (k : κ) (t : List ρ) : Bool :=
  t.any fun r => key r = k

/-- `INSERT OR REPLACE`: the row with the same key goes, the new row comes last. -/
def upsert (key : ρ → κ) (r : ρ) (t : List ρ) : List ρ :=
  deleteWhere (fun x => key x = key r) t ++ [r]

/-- `INSERT`: refused when the key is taken. -/
def insertNew (key : ρ → κ) (r : ρ) (t : List ρ) : Option (List ρ) :=
  if hasKey key (key r) t then none else some (t ++ [r])

/-- `INSERT OR IGNORE`. -/
def insertIgnore (key : ρ → κ) (r : ρ) (t : List ρ) : List ρ :=
  if hasKey key (key r) t then t else t ++ [r]

/-- `INSERT … ON CONFLICT(key) DO UPDATE SET f`. -/
def insertOrUpdate (key : ρ → κ) (r : ρ) (f : ρ → ρ) (t : List ρ) : List ρ :=
  if hasKey key (key r) t then updateWhere (fun x => key x = key r) f t else t ++ [r]

/-- `SELECT … ORDER BY key`. -/
def orderBy {ω : Type} [LE ω] [DecidableLE ω] (key : ρ → ω) (t : List ρ) : List ρ :=
  t.insertionSort fun a b => key a ≤ key b

/-! ## Which rows are there afterwards -/

theorem mem_updateWhere {p : ρ → Bool} {f : ρ → ρ} {t : List ρ} {x : ρ} :
    x ∈ updateWhere p f t ↔ ∃ r ∈ t, (if p r then f r else r) = x := by
  simp [updateWhere]

omit [DecidableEq κ] in
theorem mem_deleteWhere {p : ρ → Bool} {t : List ρ} {x : ρ} :
    x ∈ deleteWhere p t ↔ x ∈ t ∧ p x = false := by
  simp [deleteWhere, List.mem_filter]

theorem hasKey_iff {key : ρ → κ} {k : κ} {t : List ρ} :
    hasKey key k t = true ↔ ∃ r ∈ t, key r = k := by
  simp [hasKey]

theorem hasKey_false {key : ρ → κ} {k : κ} {t : List ρ} :
    hasKey key k t = false ↔ ∀ r ∈ t, key r ≠ k := by
  simp [hasKey]

theorem mem_upsert {key : ρ → κ} {r x : ρ} {t : List ρ} :
    x ∈ upsert key r t ↔ (x ∈ t ∧ key x ≠ key r) ∨ x = r := by
  simp [upsert, mem_deleteWhere]

/-- A row under a new key comes last. -/
theorem upsert_new {key : ρ → κ} {r : ρ} {t : List ρ} (h : ∀ x ∈ t, key x ≠ key r) :
    upsert key r t = t ++ [r] := by
  unfold upsert deleteWhere
  rw [List.filter_eq_self.mpr]
  intro x hx
  simpa using h x hx

theorem insertNew_eq_some {key : ρ → κ} {r : ρ} {t t' : List ρ} :
    insertNew key r t = some t' ↔ (∀ x ∈ t, key x ≠ key r) ∧ t' = t ++ [r] := by
  unfold insertNew
  by_cases h : hasKey key (key r) t = true
  · rw [if_pos h]
    obtain ⟨x, hx, hk⟩ := hasKey_iff.mp h
    exact ⟨fun h => (nomatch h), fun h => absurd hk (h.1 x hx)⟩
  · rw [if_neg h]
    have hf := hasKey_false.mp (Bool.eq_false_iff.mpr h)
    constructor
    · intro h; exact ⟨hf, (Option.some.inj h).symm⟩
    · intro h; rw [h.2]

/-- Some row has the key and the rows with it are updated, or the row is new. -/
theorem insertOrUpdate_cases (key : ρ → κ) (r : ρ) (f : ρ → ρ) (t : List ρ) :
    ((∃ y ∈ t, key y = key r) ∧
      insertOrUpdate key r f t = updateWhere (fun x => key x = key r) f t) ∨
    ((∀ y ∈ t, key y ≠ key r) ∧ insertOrUpdate key r f t = t ++ [r]) := by
  unfold insertOrUpdate
  split
  · next h => exact .inl ⟨hasKey_iff.mp h, rfl⟩
  · next h => exact .inr ⟨hasKey_false.mp (Bool.eq_false_iff.mpr h), rfl⟩

/-- What the inserted and the updated rows satisfy, every row with the key satisfies. -/
theorem forall_insertOrUpdate {key : ρ → κ} {r : ρ} {f : ρ → ρ} {t : List ρ} {P : ρ → Prop}
    (hr : P r) (hf : ∀ y, key y = key r → P (f y)) :
    ∀ x ∈ insertOrUpdate key r f t, key x = key r → P x := by
  intro x hx hk
  rcases insertOrUpdate_cases key r f t with ⟨-, hc⟩ | ⟨hnew, hc⟩
  · rw [hc, mem_updateWhere] at hx
    obtain ⟨y, -, rfl⟩ := hx
    by_cases hy : key y = key r
    · simpa [hy] using hf y hy
    · simp only [hy, decide_false, Bool.false_eq_true, if_false] at hk
  · rw [hc] at hx
    rcases List.mem_append.mp hx with hx | hx
    · exact absurd hk (hnew x hx)
    · rwa [List.mem_singleton.mp hx]

/-- A row with the key is there. -/
theorem exists_insertOrUpdate {key : ρ → κ} {r : ρ} {f : ρ → ρ} {t : List ρ}
    (hf : ∀ y, key y = key r → key (f y) = key r) : ∃ x ∈ insertOrUpdate key r f t, key x = key r := by
  rcases insertOrUpdate_cases key r f t with ⟨⟨y, hy, hk⟩, hc⟩ | ⟨-, hc⟩
  · refine ⟨f y, ?_, hf y hk⟩
    rw [hc, mem_updateWhere]
    exact ⟨y, hy, by simp [hk]⟩
  · exact ⟨r, by simp [hc], rfl⟩

/-- With an `UPDATE` that writes the row to be inserted, an upsert by another name. -/
theorem mem_insertOrUpdate {key : ρ → κ} {r : ρ} {f : ρ → ρ} {t : List ρ} {x : ρ}
    (hf : ∀ y, key y = key r → f y = r) :
    x ∈ insertOrUpdate key r f t ↔ (x ∈ t ∧ key x ≠ key r) ∨ x = r := by
  unfold insertOrUpdate
  by_cases h : hasKey key (key r) t = true
  · rw [if_pos h, mem_updateWhere]
    constructor
    · rintro ⟨y, hy, rfl⟩
      by_cases hk : key y = key r
      · simp [hk, hf y hk]
      · simp [hk, hy]
    · rintro (⟨hx, hk⟩ | rfl)
      · exact ⟨x, hx, by simp [hk]⟩
      · obtain ⟨y, hy, hk⟩ := hasKey_iff.mp h
        exact ⟨y, hy, by simp [hk, hf y hk]⟩
  · rw [if_neg h]
    have hn := hasKey_false.mp (Bool.eq_false_iff.mpr h)
    constructor
    · intro hx
      rcases List.mem_append.mp hx with hx | hx
      · exact .inl ⟨hx, hn x hx⟩
      · exact .inr (List.mem_singleton.mp hx)
    · rintro (⟨hx, -⟩ | rfl)
      · exact List.mem_append_left _ hx
      · exact List.mem_append_right _ (List.mem_singleton.mpr rfl)

theorem mem_insertIgnore {key : ρ → κ} {r x : ρ} {t : List ρ} :
    x ∈ insertIgnore key r t ↔ x ∈ t ∨ (x = r ∧ ∀ y ∈ t, key y ≠ key r) := by
  unfold insertIgnore
  by_cases h : hasKey key (key r) t = true
  · rw [if_pos h]
    obtain ⟨y, hy, hk⟩ := hasKey_iff.mp h
    constructor
    · exact .inl
    · rintro (hx | ⟨-, hn⟩)
      · exact hx
      · exact absurd hk (hn y hy)
  · rw [if_neg h]
    have hn := hasKey_false.mp (Bool.eq_false_iff.mpr h)
    simp only [List.mem_append, List.mem_singleton]
    exact ⟨fun hx => hx.imp_right fun e => ⟨e, hn⟩, fun hx => hx.imp_right And.left⟩

/-! ## Keys -/

omit [DecidableEq κ] in
/-- An `UPDATE` that does not write the key keeps the key column. -/
theorem map_key_updateWhere {key : ρ → κ} {p : ρ → Bool} {f : ρ → ρ}
    (hf : ∀ r, key (f r) = key r) (t : List ρ) :
    (updateWhere p f t).map key = t.map key := by
  unfold updateWhere
  rw [List.map_map]
  apply List.map_congr_left
  intro r _
  simp only [Function.comp]
  split
  · exact hf r
  · rfl

omit [DecidableEq κ] in
theorem nodup_updateWhere {key : ρ → κ} {p : ρ → Bool} {f : ρ → ρ} {t : List ρ}
    (hf : ∀ r, key (f r) = key r) (h : (t.map key).Nodup) :
    ((updateWhere p f t).map key).Nodup := by
  rw [map_key_updateWhere hf]
  exact h

omit [DecidableEq κ] in
theorem nodup_deleteWhere {key : ρ → κ} {p : ρ → Bool} {t : List ρ}
    (h : (t.map key).Nodup) : ((deleteWhere p t).map key).Nodup :=
  h.sublist (List.Sublist.map key List.filter_sublist)

omit [DecidableEq κ] in
theorem nodup_append_new {key : ρ → κ} {r : ρ} {t : List ρ}
    (h : (t.map key).Nodup) (hr : ∀ x ∈ t, key x ≠ key r) :
    ((t ++ [r]).map key).Nodup := by
  rw [List.map_append, List.nodup_append]
  refine ⟨h, by simp, ?_⟩
  intro a ha b hb
  obtain ⟨x, hx, rfl⟩ := List.mem_map.mp ha
  simp only [List.map_cons, List.map_nil, List.mem_singleton] at hb
  exact hb ▸ hr x hx

theorem nodup_upsert {key : ρ → κ} {r : ρ} {t : List ρ}
    (h : (t.map key).Nodup) : ((upsert key r t).map key).Nodup := by
  refine nodup_append_new (nodup_deleteWhere h) ?_
  intro x hx
  simpa using (mem_deleteWhere.mp hx).2

theorem nodup_insertOrUpdate {key : ρ → κ} {r : ρ} {f : ρ → ρ} {t : List ρ}
    (hf : ∀ y, key (f y) = key y) (h : (t.map key).Nodup) :
    ((insertOrUpdate key r f t).map key).Nodup := by
  unfold insertOrUpdate
  by_cases hk : hasKey key (key r) t = true
  · rw [if_pos hk, map_key_updateWhere hf]
    exact h
  · rw [if_neg hk]
    exact nodup_append_new h (hasKey_false.mp (Bool.eq_false_iff.mpr hk))

theorem nodup_insertIgnore {key : ρ → κ} {r : ρ} {t : List ρ} (h : (t.map key).Nodup) :
    ((insertIgnore key r t).map key).Nodup := by
  unfold insertIgnore
  by_cases hk : hasKey key (key r) t = true
  · rw [if_pos hk]
    exact h
  · rw [if_neg hk]
    exact nodup_append_new h (hasKey_false.mp (Bool.eq_false_iff.mpr hk))

theorem nodup_insertNew {key : ρ → κ} {r : ρ} {t t' : List ρ} (h : (t.map key).Nodup)
    (hi : insertNew key r t = some t') : (t'.map key).Nodup := by
  obtain ⟨hn, rfl⟩ := insertNew_eq_some.mp hi
  exact nodup_append_new h hn

omit [DecidableEq κ] in
/-- Under a key, rows are determined by their key. -/
theorem eq_of_key {key : ρ → κ} {t : List ρ} (h : (t.map key).Nodup)
    {x y : ρ} (hx : x ∈ t) (hy : y ∈ t) (hk : key x = key y) : x = y :=
  List.inj_on_of_nodup_map h hx hy hk

omit [DecidableEq κ] in
/-- An `UPDATE` by key changes the one row with that key. -/
theorem updateWhere_at {p : ρ → Bool} {f : ρ → ρ} {l₁ l₂ : List ρ} {r : ρ} (hr : p r = true)
    (h₁ : ∀ x ∈ l₁, p x = false) (h₂ : ∀ x ∈ l₂, p x = false) :
    updateWhere p f (l₁ ++ r :: l₂) = l₁ ++ f r :: l₂ := by
  have same : ∀ l : List ρ, (∀ x ∈ l, p x = false) → (l.map fun r => if p r then f r else r) = l := by
    intro l hl
    conv_rhs => rw [← List.map_id l]
    apply List.map_congr_left
    intro x hx
    simp [hl x hx]
  unfold updateWhere
  rw [List.map_append, List.map_cons, same l₁ h₁, same l₂ h₂, if_pos hr]

/-- In a table with a unique key, the other rows have other keys. -/
theorem key_ne_of_nodup {key : ρ → κ} {l₁ l₂ : List ρ} {r : ρ}
    (h : ((l₁ ++ r :: l₂).map key).Nodup) :
    (∀ x ∈ l₁, decide (key x = key r) = false) ∧ ∀ x ∈ l₂, decide (key x = key r) = false := by
  rw [List.map_append, List.map_cons, List.nodup_append] at h
  obtain ⟨-, h₂, h₃⟩ := h
  refine ⟨?_, ?_⟩
  · intro x hx
    have := h₃ _ (List.mem_map_of_mem hx) _ List.mem_cons_self
    simpa using this
  · intro x hx
    have := (List.nodup_cons.mp h₂).1
    simp only [decide_eq_false_iff_not]
    exact fun hk => this (hk ▸ List.mem_map_of_mem hx)

/-- An `UPDATE` whose test only one row can pass changes that row in its place. -/
theorem updateWhere_one {key : ρ → κ} {p : ρ → Bool} {f : ρ → ρ} {t : List ρ} {r : ρ}
    (h : (t.map key).Nodup) (hr : r ∈ t) (hp : p r = true) (hone : ∀ x, p x = true → key x = key r) :
    ∃ l₁ l₂, t = l₁ ++ r :: l₂ ∧ updateWhere p f t = l₁ ++ f r :: l₂ := by
  obtain ⟨l₁, l₂, rfl⟩ := List.append_of_mem hr
  obtain ⟨h₁, h₂⟩ := key_ne_of_nodup h
  have hno : ∀ x, decide (key x = key r) = false → p x = false := by
    intro x hx
    by_contra hpx
    exact (decide_eq_false_iff_not.mp hx) (hone x (by simpa using hpx))
  exact ⟨l₁, l₂, rfl, updateWhere_at hp (fun x hx => hno x (h₁ x hx)) (fun x hx => hno x (h₂ x hx))⟩

/-- Updates collected from the rows of a table and then written one by one, each at its
row's key, change every row by its own update. -/
theorem foldl_updateWhere {key : ρ → κ} {g : ρ → Option ρ} {put : ρ → ρ → ρ}
    (hkey : ∀ r u, g r = some u → key u = key r) (hput : ∀ r u, g r = some u → put u r = u)
    (t : List ρ) (h : (t.map key).Nodup) :
    (t.filterMap g).foldl (fun t u => updateWhere (fun r => key r = key u) (put u) t) t =
      t.map fun r => (g r).getD r := by
  suffices hgen : ∀ (post done : List ρ), ((done ++ post).map key).Nodup →
      (post.filterMap g).foldl (fun t u => updateWhere (fun r => key r = key u) (put u) t)
        (done ++ post) = done ++ post.map fun r => (g r).getD r by
    simpa using hgen t [] (by simpa using h)
  intro post
  -- `done` is the part of the table that has its updates, `post` the rest
  induction post with
  | nil => intro done _; rfl
  | cons r post ih =>
      intro done hnd
      cases hg : g r with
      | none =>
          have := ih (done ++ [r]) (by simpa using hnd)
          simpa [hg] using this
      | some u =>
          obtain ⟨h₁, h₂⟩ := key_ne_of_nodup hnd
          have hu : ((done ++ [u] ++ post).map key).Nodup := by
            simpa [hkey r u hg] using hnd
          have := ih (done ++ [u]) hu
          simp only [List.filterMap_cons, hg, List.foldl_cons, List.map_cons, Option.getD_some]
          rw [updateWhere_at (by simp [hkey r u hg]) (by simpa [hkey r u hg] using h₁)
            (by simpa [hkey r u hg] using h₂), hput r u hg]
          simpa using this

/-- Looking a row up after an `UPDATE` that does not touch what is looked for. -/
theorem find?_updateWhere {p q : ρ → Bool} {f : ρ → ρ} {t : List ρ}
    (hf : ∀ r, p r = true → q (f r) = q r) :
    (updateWhere p f t).find? q = (t.find? q).map fun r => if p r then f r else r := by
  unfold updateWhere
  rw [List.find?_map]
  congr 1
  congr 1
  funext r
  simp only [Function.comp]
  split
  · next hp => exact hf r hp
  · rfl

/-- Looking a row up by its key after an `INSERT … ON CONFLICT DO UPDATE`. -/
theorem find?_insertOrUpdate {key : ρ → κ} {r : ρ} {f : ρ → ρ} {t : List ρ} (hf : ∀ y, key (f y) = key y) (k : κ) :
    (insertOrUpdate key r f t).find? (fun x => key x = k) =
      if k = key r then some (((t.find? fun x => key x = k).map f).getD r) else t.find? fun x => key x = k := by
  unfold insertOrUpdate
  by_cases hk : hasKey key (key r) t = true
  · rw [if_pos hk, find?_updateWhere fun y _ => by rw [hf]]
    split
    · next h =>
      subst h
      obtain ⟨y, hy, hyk⟩ := hasKey_iff.mp hk
      cases hfind : t.find? fun x => key x = key r with
      | none => exact absurd (decide_eq_true hyk) (List.find?_eq_none.mp hfind y hy)
      | some x =>
          have hx : key x = key r := by simpa using List.find?_some hfind
          simp [hx]
    · next h =>
      cases hfind : t.find? fun x => key x = k with
      | none => rfl
      | some x =>
          have hx : key x = k := by simpa using List.find?_some hfind
          simp [hx, h]
  · rw [if_neg hk, List.find?_append]
    have hnew := hasKey_false.mp (Bool.eq_false_iff.mpr hk)
    split
    · next h =>
      subst h
      rw [List.find?_eq_none.mpr fun x hx => by simpa using hnew x hx]
      simp
    · next h => simp [Ne.symm h]

omit [DecidableEq κ] in
/-- An `UPDATE` that finds no row changes none. -/
theorem updateWhere_eq_self_of_any {p : ρ → Bool} {f : ρ → ρ} {t : List ρ}
    (h : t.any p = false) : updateWhere p f t = t := by
  unfold updateWhere
  conv_rhs => rw [← List.map_id t]
  apply List.map_congr_left
  intro r hr
  have hp : p r = false := by simpa using List.any_eq_false.mp h r hr
  simp [hp]

/-! ## What a part of the table sees -/

/-- The same update under two tests is one update, when it does not matter how often it is made. -/
theorem updateWhere_twice {p q : ρ → Bool} {f : ρ → ρ} {t : List ρ} (hf : ∀ r, f (f r) = f r)
    (hq : ∀ r, q (f r) = q r) :
    updateWhere q f (updateWhere p f t) = updateWhere (fun r => p r || q r) f t := by
  unfold updateWhere
  rw [List.map_map]
  refine List.map_congr_left fun r _ => ?_
  by_cases hp : p r = true
  · simp [hp, hq, hf]
  · simp [hp]

theorem deleteWhere_twice {p q : ρ → Bool} {t : List ρ} :
    deleteWhere q (deleteWhere p t) = deleteWhere (fun r => p r || q r) t := by
  unfold deleteWhere
  rw [List.filter_filter]
  refine List.filter_congr fun r _ => ?_
  by_cases hp : p r = true <;> simp [hp]

omit [DecidableEq κ] in
/-- An `UPDATE` confined to rows outside the part is invisible to it. -/
theorem filter_updateWhere_of_disjoint {p q : ρ → Bool} {f : ρ → ρ} {t : List ρ}
    (hf : ∀ r ∈ t, p r = true → q (f r) = false ∧ q r = false) :
    (updateWhere p f t).filter q = t.filter q := by
  induction t with
  | nil => rfl
  | cons r t ih =>
      have ih' := ih fun x hx => hf x (List.mem_cons_of_mem _ hx)
      have hr := hf r List.mem_cons_self
      simp only [updateWhere, List.map_cons, List.filter_cons] at ih' ⊢
      by_cases hp : p r = true
      · have ⟨h₁, h₂⟩ := hr hp
        simp only [hp, if_true, h₁, h₂]
        exact ih'
      · simp only [hp, if_false, Bool.false_eq_true]
        rw [ih']

omit [DecidableEq κ] in
theorem filter_deleteWhere_of_disjoint {p q : ρ → Bool} {t : List ρ}
    (h : ∀ r ∈ t, p r = true → q r = false) :
    (deleteWhere p t).filter q = t.filter q := by
  unfold deleteWhere
  rw [List.filter_filter]
  apply List.filter_congr
  intro r hr
  by_cases hp : p r = true
  · simp [hp, h r hr hp]
  · simp [hp]

theorem filter_upsert_of_disjoint {key : ρ → κ} {q : ρ → Bool} {r : ρ} {t : List ρ}
    (hr : q r = false) (h : ∀ x ∈ t, key x = key r → q x = false) :
    (upsert key r t).filter q = t.filter q := by
  unfold upsert
  rw [List.filter_append, filter_deleteWhere_of_disjoint]
  · simp [hr]
  · intro x hx hk
    exact h x hx (by simpa using hk)

theorem filter_insertOrUpdate_of_disjoint {key : ρ → κ} {q : ρ → Bool} {r : ρ} {f : ρ → ρ} {t : List ρ}
    (hr : q r = false) (h : ∀ x ∈ t, key x = key r → q (f x) = false ∧ q x = false) :
    (insertOrUpdate key r f t).filter q = t.filter q := by
  unfold insertOrUpdate
  split
  · exact filter_updateWhere_of_disjoint fun x hx hk => h x hx (by simpa using hk)
  · simp [List.filter_append, hr]

omit [DecidableEq κ] in
theorem filter_append_of_not {q : ρ → Bool} {r : ρ} {t : List ρ} (hr : q r = false) :
    (t ++ [r]).filter q = t.filter q := by
  simp [List.filter_append, hr]

/-! ## Rows in key order

With a key that is unique, the order is strict, so a `WHERE` on the key cuts the ordered
list at one place. -/

section Order

omit [DecidableEq κ] in
theorem mem_orderBy {ω : Type} [LE ω] [DecidableLE ω] {key : ρ → ω} {t : List ρ} {x : ρ} :
    x ∈ orderBy key t ↔ x ∈ t :=
  List.mem_insertionSort _

omit [DecidableEq κ] in
theorem orderBy_perm {ω : Type} [LE ω] [DecidableLE ω] {key : ρ → ω} (t : List ρ) :
    (orderBy key t).Perm t :=
  List.perm_insertionSort _ t

variable {ω : Type} [LinearOrder ω] {key : ρ → ω}

omit [DecidableEq κ] in
theorem orderBy_strict {t : List ρ} (h : (t.map key).Nodup) :
    (orderBy key t).Pairwise fun a b => key a < key b := by
  have htot : Std.Total fun a b : ρ => key a ≤ key b := ⟨fun a b => le_total (key a) (key b)⟩
  have htrans : IsTrans ρ fun a b => key a ≤ key b := ⟨fun _ _ _ => le_trans⟩
  have hle : (orderBy key t).Pairwise fun a b => key a ≤ key b := List.pairwise_insertionSort _ t
  have hnd : ((orderBy key t).map key).Nodup := ((orderBy_perm t).map key).nodup_iff.mpr h
  have hne : (orderBy key t).Pairwise fun a b => key a ≠ key b := List.pairwise_map.mp hnd
  exact (hle.and hne).imp fun h => lt_of_le_of_ne h.1 h.2

omit [DecidableEq κ] in
/-- Restricting an ordered selection is ordering the restricted one. -/
theorem filter_orderBy {t : List ρ} {q : ρ → Bool} (h : (t.map key).Nodup) :
    (orderBy key t).filter q = orderBy key (t.filter q) := by
  have hasymm : ∀ a b : ρ, a ∈ (orderBy key t).filter q → b ∈ orderBy key (t.filter q) →
      key a < key b → key b < key a → a = b := by
    intro a b _ _ hab hba
    exact absurd hab (lt_asymm hba)
  exact List.Perm.eq_of_pairwise hasymm
    ((orderBy_strict h).filter q) (orderBy_strict (h.sublist (List.filter_sublist.map key)))
    (((orderBy_perm t).filter q).trans (orderBy_perm _).symm)

omit [DecidableEq κ] in
/-- The rows up to the `k`-th are the first `k + 1`. -/
theorem filter_le_getElem {l : List ρ} (h : l.Pairwise fun a b => key a < key b) (k : Nat) {x : ρ}
    (hx : l[k]? = some x) : l.filter (fun a => key a ≤ key x) = l.take (k + 1) := by
  induction l generalizing k with
  | nil => cases hx
  | cons a l ih =>
      rw [List.pairwise_cons] at h
      cases k with
      | zero =>
          obtain rfl : a = x := by simpa using hx
          have hnone : l.filter (fun b => key b ≤ key a) = [] := by
            rw [List.filter_eq_nil_iff]
            intro b hb
            simpa using h.1 b hb
          simp [hnone]
      | succ k =>
          have hx' : l[k]? = some x := by simpa using hx
          have hax : key a ≤ key x := le_of_lt (h.1 x (List.mem_of_getElem? hx'))
          simp [hax, ih h.2 k hx']

omit [DecidableEq κ] in
/-- Past the greatest key of a first part stands the rest. -/
theorem filter_gt_append {p q : List ρ} {k : ω} (h : (p ++ q).Pairwise fun a b => key a < key b)
    (hk : k ∈ p.map key) (hmax : ∀ a ∈ p, key a ≤ k) : (p ++ q).filter (fun a => k < key a) = q := by
  obtain ⟨b, hb, rfl⟩ := List.mem_map.mp hk
  have hcross := (List.pairwise_append.mp h).2.2
  have hp : p.filter (fun a => key b < key a) = [] := by
    rw [List.filter_eq_nil_iff]
    intro a ha
    simpa using hmax a ha
  have hq : q.filter (fun a => key b < key a) = q := by
    rw [List.filter_eq_self]
    intro a ha
    simpa using hcross b hb a ha
  rw [List.filter_append, hp, hq, List.nil_append]

end Order

end Table
