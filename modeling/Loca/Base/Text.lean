/-
# `Base.Text` — the string tests a server makes

Lengths are in UTF-8 bytes and blank means blank to Unicode (the `White_Space`
property), as in the standard library the program is written with.  Prefixes are
compared character by character.
-/
import Mathlib.Algebra.Group.Nat.Defs
import Mathlib.Data.List.Basic

namespace Text

/-- Unicode `White_Space`. -/
def isWhiteSpace (c : Char) : Bool :=
  let n := c.toNat
  (9 ≤ n && n ≤ 13) || n == 0x20 || n == 0x85 || n == 0xA0 || n == 0x1680 ||
    (0x2000 ≤ n && n ≤ 0x200A) || n == 0x2028 || n == 0x2029 || n == 0x202F ||
    n == 0x205F || n == 0x3000

/-- `s.trim().is_empty()`. -/
def isBlank (s : String) : Bool :=
  s.toList.all isWhiteSpace

/-- `s.trim()`. -/
def trim (s : String) : String :=
  String.ofList ((s.toList.dropWhile isWhiteSpace).reverse.dropWhile isWhiteSpace).reverse

/-- `s.parse::<u64>()`: digits, with an optional plus sign, and no more than fits. -/
def parseNat (s : String) : Option Nat :=
  let digits : List Char := match s.toList with
    | '+' :: rest => rest
    | chars => chars
  let n := digits.foldl (fun n c => n * 10 + (c.toNat - '0'.toNat)) 0
  if !digits.isEmpty && digits.all Char.isDigit && n < 2 ^ 64 then some n else none

/-- `s.len()`. -/
def byteLen (s : String) : Nat :=
  s.utf8ByteSize

/-- `s.starts_with(p)`. -/
def hasPrefix (p s : String) : Bool :=
  p.toList.isPrefixOf s.toList

/-- `s.strip_prefix(p)`. -/
def stripPrefix (p s : String) : Option String :=
  if hasPrefix p s then some (String.ofList (s.toList.drop p.toList.length)) else none

theorem hasPrefix_iff {p s : String} : hasPrefix p s = true ↔ ∃ rest, s = p ++ rest := by
  unfold hasPrefix
  rw [List.isPrefixOf_iff_prefix]
  constructor
  · rintro ⟨r, hr⟩
    refine ⟨String.ofList r, String.toList_inj.mp ?_⟩
    rw [String.toList_append, String.toList_ofList, hr]
  · rintro ⟨r, rfl⟩
    exact ⟨r.toList, (String.toList_append).symm⟩

theorem stripPrefix_append (p rest : String) : stripPrefix p (p ++ rest) = some rest := by
  unfold stripPrefix
  rw [if_pos (hasPrefix_iff.mpr ⟨rest, rfl⟩), String.toList_append, List.drop_left,
    String.ofList_toList]

theorem stripPrefix_eq_some {p s rest : String} :
    stripPrefix p s = some rest ↔ s = p ++ rest := by
  constructor
  · intro h
    by_cases hp : hasPrefix p s = true
    · obtain ⟨r, rfl⟩ := hasPrefix_iff.mp hp
      rw [stripPrefix_append] at h
      rw [Option.some.inj h]
    · rw [stripPrefix, if_neg hp] at h
      cases h
  · rintro rfl
    exact stripPrefix_append p rest

end Text
