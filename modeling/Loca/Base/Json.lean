/-
# `Base.Json` — JSON values as a Python program sees them

What `json.loads` returns, and the questions a program asks of it: is it true, which value
stands under a key, is it this string.  A number that is not an integer is known by what can
be asked of it: its text, whether it is zero, and `int` of it.
-/
import Mathlib.Data.List.Basic

inductive Json
  | null
  | bool (b : Bool)
  | int (n : Int)
  | float (text : String) (isZero : Bool) (whole : Option Int)
  | str (s : String)
  | arr (items : List Json)
  /-- A dict, each key once. -/
  | obj (fields : List (String × Json))
  deriving Repr

namespace Json

/-- `bool(value)`. -/
def truthy : Json → Bool
  | null => false
  | bool b => b
  | int n => n ≠ 0
  | float _ isZero _ => !isZero
  | str s => s ≠ ""
  | arr items => !items.isEmpty
  | obj fields => !fields.isEmpty

/-- `value == s` for a string `s`. -/
def isStr (s : String) : Json → Bool
  | str t => t = s
  | _ => false

/-- The value under a key of a dict. -/
def field (key : String) (fields : List (String × Json)) : Option Json :=
  (fields.find? fun f => f.1 = key).map Prod.snd

/-- `record.get(key) or default`, when the default is left to the caller. -/
def given (key : String) (fields : List (String × Json)) : Option Json :=
  (field key fields).filter truthy

/-- `record[key] = value`. -/
def setField (key : String) (value : Json) (fields : List (String × Json)) : List (String × Json) :=
  if fields.any fun f => f.1 = key then
    fields.map fun f => if f.1 = key then (key, value) else f
  else fields ++ [(key, value)]

/-- `isinstance(value, int)` and its value; a boolean is an integer. -/
def asInt : Json → Option Int
  | int n => some n
  | bool b => some (if b then 1 else 0)
  | _ => none

/-- The dicts that `for item in value` meets; iterating a number or nothing raises. -/
def dicts : Json → Option (List (List (String × Json)))
  | arr items => some (items.filterMap fun item => match item with
      | obj fields => some fields
      | _ => none)
  | str _ | obj _ => some []
  | null | bool _ | int _ | float _ _ _ => none

/-- What stands under a key after a write. -/
theorem field_setField (key key' : String) (value : Json) (fields : List (String × Json)) :
    field key (setField key' value fields) = if key = key' then some value else field key fields := by
  unfold field setField
  split
  · next hhas =>
    induction fields with
    | nil => cases hhas
    | cons f fields ih =>
        simp only [List.map_cons, List.find?_cons]
        by_cases hf : f.1 = key'
        · subst hf
          by_cases hk : key = f.1
          · simp [hk]
          · have hk' : ¬ f.1 = key := fun h => hk h.symm
            simp only [if_true, hk', decide_false, if_neg hk]
            by_cases hrest : fields.any fun g => g.1 = f.1
            · rw [ih hrest, if_neg hk]
            · -- nothing more to write
              have hsame : fields.map (fun g => if g.1 = f.1 then (f.1, value) else g) = fields := by
                refine (List.map_congr_left fun g hg => if_neg fun he => hrest ?_).trans (List.map_id _)
                exact List.any_eq_true.mpr ⟨g, hg, by simpa using he⟩
              rw [hsame]
        · rw [if_neg hf]
          have hrest : fields.any (fun g => g.1 = key') = true := by
            rw [List.any_cons, Bool.or_eq_true] at hhas
            rcases hhas with h | h
            · exact absurd (by simpa using h) hf
            · exact h
          by_cases hk : f.1 = key
          · have hne : ¬ key = key' := fun h => hf (hk.trans h)
            simp [hk, hne]
          · simp only [hk, decide_false]
            exact ih hrest
  · next hhas =>
    have hno : ∀ f ∈ fields, ¬ f.1 = key' := fun f hf he => hhas (List.any_eq_true.mpr ⟨f, hf, by simpa using he⟩)
    rw [List.find?_append]
    by_cases hk : key = key'
    · subst hk
      rw [List.find?_eq_none.mpr fun f hf => by simpa using hno f hf]
      simp
    · have hk' : ¬ key' = key := fun h => hk h.symm
      rw [if_neg hk, List.find?_cons_of_neg (by simpa using hk'), List.find?_nil, Option.or_none]

end Json
