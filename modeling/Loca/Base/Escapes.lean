/-
# `Base.Escapes` — what `ensure_ascii` costs and what it gives

The formats of a JSON text differ in length.  `bytes_dumps` says by how much: what the escapes of a text cost is a
sum over the characters of its strings and keys, whatever stands around them (`surplus`).  And an escaped text is
printable ASCII (`dumps_printable`), which neither an encoding nor a translation of line ends changes.
-/
import Mathlib.Algebra.Ring.Nat
import Loca.Base.Dumps

namespace Json

/-! ## Lengths -/

/-- `len(text.encode())`. -/
def bytes (cs : List Char) : Nat := (cs.map Char.utf8Size).sum

/-- What the escape of a character is longer than the character. -/
def charSurplus (c : Char) : Nat :=
  if c.toNat ≤ 0x7e then 0 else (if c.toNat < 0x10000 then 6 else 12) - c.utf8Size

def stringSurplus (s : String) : Nat := (s.toList.map charSurplus).sum

mutual

/-- What the escapes of a value's strings and keys cost. -/
def surplus : Json → Nat
  | null | bool _ | int _ | float _ _ _ => 0
  | str s => stringSurplus s
  | arr items => itemsSurplus items
  | obj fields => fieldsSurplus fields

def itemsSurplus : List Json → Nat
  | [] => 0
  | v :: items => surplus v + itemsSurplus items

def fieldsSurplus : List (String × Json) → Nat
  | [] => 0
  | (key, v) :: fields => stringSurplus key + surplus v + fieldsSurplus fields

end

@[simp] theorem bytes_nil : bytes [] = 0 := rfl

@[simp] theorem bytes_cons (c : Char) (cs : List Char) : bytes (c :: cs) = c.utf8Size + bytes cs := rfl

@[simp] theorem bytes_append (cs ds : List Char) : bytes (cs ++ ds) = bytes cs + bytes ds := by
  simp [bytes]

theorem length_le_bytes (cs : List Char) : cs.length ≤ bytes cs := by
  induction cs with
  | nil => exact Nat.le_refl 0
  | cons c cs ih =>
      have := c.utf8Size_pos
      rw [List.length_cons, bytes_cons]
      omega

theorem bytes_toList (s : String) : bytes s.toList = s.utf8ByteSize := by
  have hencode : ∀ cs : List Char, cs.utf8Encode.size = bytes cs := by
    intro cs
    induction cs with
    | nil => rw [List.utf8Encode_nil]; rfl
    | cons c cs ih =>
        rw [List.utf8Encode_cons, ByteArray.size_append, ih, List.utf8Encode_singleton, bytes_cons]
        simp
  have hlist : (String.ofList s.toList).utf8ByteSize = s.toList.utf8Encode.size := rfl
  rw [String.ofList_toList] at hlist
  rw [hlist, hencode]

/-- Whether a text keeps to a limit is seen on one character more than the limit. -/
theorem take_of_bytes (n : Nat) (cs : List Char) : bytes (cs.take (n + 1)) ≤ n ↔ bytes cs ≤ n := by
  constructor
  · intro h
    have hlen := length_le_bytes (cs.take (n + 1))
    rw [List.length_take] at hlen
    rwa [List.take_of_length_le (by omega)] at h
  · intro h
    have hlen := length_le_bytes cs
    rwa [List.take_of_length_le (by omega)]

theorem bytes_codeUnit (n : Nat) : bytes (codeUnit n) = 6 := by
  have hsize : ∀ m, (m % 16).digitChar.utf8Size = 1 := by
    have hall : ∀ m < 16, (Nat.digitChar m).utf8Size = 1 := by decide
    exact fun m => hall _ (Nat.mod_lt m (by decide))
  simp only [codeUnit, bytes_cons, bytes_nil, hsize]
  rfl

theorem bytes_codeUnits (ns : List Nat) : bytes (ns.flatMap codeUnit) = 6 * ns.length := by
  induction ns with
  | nil => rfl
  | cons n ns ih =>
      rw [List.flatMap_cons, bytes_append, bytes_codeUnit, ih, List.length_cons]
      omega

/-- A character costs its surplus more. -/
theorem bytes_writeChar (spaced : Bool) (c : Char) :
    bytes (writeChar ⟨true, spaced⟩ c) = bytes (writeChar ⟨false, spaced⟩ c) + charSurplus c := by
  have hsize := c.utf8Size_le_four
  unfold writeChar
  cases hs : shortEscape c with
  | some e =>
      have hall : ∀ p ∈ shortEscapes, p.1.toNat ≤ 0x7e := by decide
      have hlow : c.toNat ≤ 0x7e := hall _ (shortEscape_mem hs)
      rw [charSurplus, if_pos hlow]
      rfl
  | none =>
      dsimp only
      by_cases hlow : c.toNat ≤ 0x7e
      · have hunits : Format.units ⟨true, spaced⟩ c = Format.units ⟨false, spaced⟩ c := by
          simp only [Format.units]
          rw [if_neg (by simp; omega), if_neg (by simp)]
        have hkeeps : Format.keeps ⟨true, spaced⟩ c = Format.keeps ⟨false, spaced⟩ c := by
          simp [Format.keeps, hlow]
        rw [hunits, hkeeps, charSurplus, if_pos hlow]
        rfl
      · have hkeeps : Format.keeps ⟨true, spaced⟩ c = false := by
          simp only [Format.keeps, Bool.and_eq_false_iff]
          exact .inr (by simpa using hlow)
        have hkeeps' : Format.keeps ⟨false, spaced⟩ c = true := by
          have h20 : 0x20 ≤ c.toNat := by omega
          simp [Format.keeps, h20]
        rw [hkeeps, hkeeps', if_neg Bool.false_ne_true, if_pos rfl, bytes_codeUnits, charSurplus, if_neg hlow]
        simp only [bytes_cons, bytes_nil, Format.units, Bool.true_and, decide_eq_true_eq]
        by_cases hhigh : 0x10000 ≤ c.toNat
        · rw [if_pos hhigh, if_neg (Nat.not_lt.mpr hhigh)]
          show 12 = _
          omega
        · rw [if_neg hhigh, if_pos (Nat.lt_of_not_le hhigh)]
          show 6 = _
          omega

theorem bytes_quote (spaced : Bool) (s : String) :
    bytes (quote ⟨true, spaced⟩ s) = bytes (quote ⟨false, spaced⟩ s) + stringSurplus s := by
  have hchars : ∀ cs : List Char, bytes (cs.flatMap (writeChar ⟨true, spaced⟩)) =
      bytes (cs.flatMap (writeChar ⟨false, spaced⟩)) + (cs.map charSurplus).sum := by
    intro cs
    induction cs with
    | nil => rfl
    | cons c cs ih =>
        simp only [List.flatMap_cons, List.map_cons, List.sum_cons, bytes_append, bytes_writeChar, ih]
        omega
  simp only [quote, stringSurplus, bytes_cons, bytes_append, hchars]
  omega

/-- The bytes of joined texts: those of the texts, and of a separator for every text but the first. -/
theorem bytes_joined (sep : List Char) (ts : List (List Char)) :
    bytes (joined sep ts) = (ts.map bytes).sum + (ts.length - 1) * bytes sep := by
  have hmore : ∀ ts : List (List Char), bytes (ts.flatMap (sep ++ ·)) = (ts.map bytes).sum + ts.length * bytes sep := by
    intro ts
    induction ts with
    | nil => simp
    | cons t ts ih =>
        rw [List.flatMap_cons, bytes_append, bytes_append, ih, List.map_cons, List.sum_cons, List.length_cons,
          Nat.succ_mul]
        omega
  cases ts with
  | nil => simp [joined]
  | cons t ts =>
      rw [joined, bytes_append, hmore, List.map_cons, List.sum_cons, List.length_cons, Nat.add_sub_cancel]
      omega

theorem length_dumpsItems (f : Format) (items : List Json) : (dumpsItems f items).length = items.length := by
  induction items with
  | nil => rfl
  | cons v items ih => simp [dumpsItems, ih]

theorem length_dumpsFields (f : Format) (fields : List (String × Json)) :
    (dumpsFields f fields).length = fields.length := by
  induction fields with
  | nil => rfl
  | cons p fields ih => simp [dumpsFields, ih]

mutual

/-- A value costs its surplus more with its characters escaped than without. -/
theorem bytes_dumps (spaced : Bool) : ∀ v : Json,
    bytes (dumps ⟨true, spaced⟩ v) = bytes (dumps ⟨false, spaced⟩ v) + surplus v
  | null | bool true | bool false | int _ | float _ _ _ => rfl
  | str s => bytes_quote spaced s
  | arr items => by
      simp only [dumps, surplus, bytes_cons, bytes_append, bytes_joined, length_dumpsItems, bytes_dumpsItems spaced items]
      simp only [Format.comma]
      omega
  | obj fields => by
      simp only [dumps, surplus, bytes_cons, bytes_append, bytes_joined, length_dumpsFields,
        bytes_dumpsFields spaced fields]
      simp only [Format.comma]
      omega

theorem bytes_dumpsItems (spaced : Bool) : ∀ items : List Json,
    ((dumpsItems ⟨true, spaced⟩ items).map bytes).sum =
      ((dumpsItems ⟨false, spaced⟩ items).map bytes).sum + itemsSurplus items
  | [] => rfl
  | v :: items => by
      simp only [dumpsItems, itemsSurplus, List.map_cons, List.sum_cons, bytes_dumps spaced v,
        bytes_dumpsItems spaced items]
      omega

theorem bytes_dumpsFields (spaced : Bool) : ∀ fields : List (String × Json),
    ((dumpsFields ⟨true, spaced⟩ fields).map bytes).sum =
      ((dumpsFields ⟨false, spaced⟩ fields).map bytes).sum + fieldsSurplus fields
  | [] => rfl
  | (key, v) :: fields => by
      simp only [dumpsFields, fieldsSurplus, List.map_cons, List.sum_cons, bytes_append, bytes_quote,
        bytes_dumps spaced v, bytes_dumpsFields spaced fields, Format.colon]
      omega

end

/-- A string is written in at most twelve bytes for each of its own. -/
theorem bytes_quote_le (f : Format) (s : String) : bytes (quote f s) ≤ 12 * s.utf8ByteSize + 2 := by
  have hchar : ∀ c, bytes (writeChar f c) ≤ 12 := by
    intro c
    have hsize := c.utf8Size_le_four
    unfold writeChar
    cases hs : shortEscape c with
    | some e =>
        have hall : ∀ p ∈ shortEscapes, bytes ['\\', p.2] ≤ 12 := by decide
        exact hall _ (shortEscape_mem hs)
    | none =>
        dsimp only
        split
        · rw [bytes_cons, bytes_nil]
          omega
        · rw [bytes_codeUnits]
          unfold Format.units
          split <;> simp
  have hchars : ∀ cs : List Char, bytes (cs.flatMap (writeChar f)) ≤ 12 * cs.length := by
    intro cs
    induction cs with
    | nil => exact Nat.le_refl 0
    | cons c cs ih =>
        have := hchar c
        rw [List.flatMap_cons, bytes_append, List.length_cons]
        omega
  have hlength : s.toList.length ≤ s.utf8ByteSize := bytes_toList s ▸ length_le_bytes s.toList
  have hquote : Char.utf8Size '"' = 1 := by decide
  have := hchars s.toList
  simp only [quote, bytes_cons, bytes_append, bytes_nil, hquote]
  omega

/-! A string of one character. -/

theorem bytes_quote_replicate (f : Format) (n : Nat) (c : Char) :
    bytes (quote f (String.ofList (List.replicate n c))) = n * bytes (writeChar f c) + 2 := by
  have hchars : ∀ n, bytes ((List.replicate n c).flatMap (writeChar f)) = n * bytes (writeChar f c) := by
    intro n
    induction n with
    | zero => simp
    | succ n ih => rw [List.replicate_succ, List.flatMap_cons, bytes_append, ih, Nat.succ_mul, Nat.add_comm]
  have hquote : Char.utf8Size '"' = 1 := by decide
  simp only [quote, String.toList_ofList, bytes_cons, bytes_append, bytes_nil, hchars, hquote]
  omega

theorem stringSurplus_replicate (n : Nat) (c : Char) :
    stringSurplus (String.ofList (List.replicate n c)) = n * charSurplus c := by
  unfold stringSurplus
  rw [String.toList_ofList]
  induction n with
  | zero => simp
  | succ n ih => rw [List.replicate_succ, List.map_cons, List.sum_cons, ih, Nat.succ_mul, Nat.add_comm]

/-! ## Printable texts -/

/-- Printable ASCII. -/
def Printable (cs : List Char) : Prop := ∀ c ∈ cs, 0x20 ≤ c.toNat ∧ c.toNat ≤ 0x7e

instance (cs : List Char) : Decidable (Printable cs) := List.decidableBAll _ _

section

variable {cs ds : List Char} {f : Format} {fl : Floats}

theorem Printable.append (h : Printable cs) (h' : Printable ds) : Printable (cs ++ ds) :=
  fun c hc => (List.mem_append.mp hc).elim (h c) (h' c)

theorem Printable.cons {c : Char} (hc : 0x20 ≤ c.toNat ∧ c.toNat ≤ 0x7e) (h : Printable cs) : Printable (c :: cs) :=
  fun _ hd => (List.mem_cons.mp hd).elim (fun he => he ▸ hc) (h _)

theorem Printable.flatMap {α : Type} {l : List α} {g : α → List Char} (h : ∀ x ∈ l, Printable (g x)) :
    Printable (l.flatMap g) := fun c hc => by
  obtain ⟨x, hx, hc⟩ := List.mem_flatMap.mp hc
  exact h x hx c hc

theorem printable_of_isDigit (h : ∀ c ∈ cs, c.isDigit = true) : Printable cs := by
  intro c hc
  have hd : 48 ≤ c.toNat ∧ c.toNat ≤ 57 := by simpa [Char.isDigit, UInt32.le_iff_toNat_le] using h c hc
  omega

theorem digits_printable (cs : List Char) : Printable (digits cs).1 :=
  printable_of_isDigit fun _ hc => List.mem_takeWhile_imp hc

theorem toDigits_printable (n : Nat) : Printable (Nat.toDigits 10 n) :=
  printable_of_isDigit fun _ hc => Nat.isDigit_of_mem_toDigits (by decide) (by decide) hc

theorem codeUnit_printable (n : Nat) : Printable (codeUnit n) := by
  have hall : ∀ m < 16, 0x20 ≤ (Nat.digitChar m).toNat ∧ (Nat.digitChar m).toNat ≤ 0x7e := by decide
  have hdigit := fun m => hall (m % 16) (Nat.mod_lt m (by decide))
  exact (Printable.cons (by decide) (.cons (by decide) (.cons (hdigit _) (.cons (hdigit _) (.cons (hdigit _)
    (.cons (hdigit _) (by decide)))))))

theorem quote_printable (h : f.ascii = true) (s : String) : Printable (quote f s) := by
  refine Printable.append (.cons (by decide) (.flatMap fun c _ => ?_)) (by decide)
  unfold writeChar
  cases hs : shortEscape c with
  | some e =>
      have hall : ∀ p ∈ shortEscapes, 0x20 ≤ p.2.toNat ∧ p.2.toNat ≤ 0x7e := by decide
      exact .cons (by decide) (.cons (hall _ (shortEscape_mem hs)) (by decide))
  | none =>
      dsimp only
      split
      · next hk =>
        refine .cons ?_ (by decide)
        simpa [Format.keeps, h] using hk
      · exact .flatMap fun n _ => codeUnit_printable n

theorem numeral_printable {n : Numeral} (h : scanNumber cs = some (n, ds)) : Printable n.text.toList := by
  have hwhole : ∀ {cs r}, scanWhole cs = some r → Printable r.1 := by
    intro cs r hr
    unfold scanWhole at hr
    split at hr
    · rw [← Option.some.inj hr]
      show Printable ['0']
      decide
    · split at hr
      · cases hr
      · rw [← Option.some.inj hr]
        exact digits_printable cs
  have hfraction : ∀ cs, Printable (scanFraction cs).1 := by
    intro cs
    unfold scanFraction
    split
    · exact .cons (by decide) (digits_printable _)
    · exact fun _ hc => nomatch hc
  have hexponent : ∀ cs, Printable (scanExponent cs).1 := by
    intro cs
    have hsign : ∀ cs, Printable (scanSign cs).1 := by
      intro cs
      have hsigns : Printable ['+'] ∧ Printable ['-'] ∧ Printable [] := by decide
      unfold scanSign
      split
      · exact hsigns.1
      · split
        · exact hsigns.2.1
        · exact hsigns.2.2
    unfold scanExponent
    split
    · decide
    · split
      · next he =>
        have hletter : ∀ e : Char, e = 'e' ∨ e = 'E' → 0x20 ≤ e.toNat ∧ e.toNat ≤ 0x7e := by
          rintro e (rfl | rfl) <;> decide
        exact Printable.append (.cons (hletter _ he.1) (hsign _)) (digits_printable _)
      · exact fun _ hc => nomatch hc
  obtain ⟨r, hr, h⟩ := Option.bind_eq_some_iff.mp h
  obtain ⟨rfl, -⟩ := Prod.mk.inj (Option.some.inj h)
  unfold Numeral.text
  rw [String.toList_ofList]
  refine ((Printable.append ?_ (hwhole hr)).append (hfraction _)).append (hexponent _)
  dsimp only
  split <;> decide

theorem joined_printable {sep : List Char} (hsep : Printable sep) {ts : List (List Char)}
    (h : ∀ t ∈ ts, Printable t) : Printable (joined sep ts) := by
  cases ts with
  | nil => exact fun _ hc => nomatch hc
  | cons t ts =>
      exact (h t List.mem_cons_self).append
        (.flatMap fun u hu => hsep.append (h u (List.mem_cons_of_mem t hu)))

theorem Format.comma_printable (f : Format) : Printable f.comma ∧ Printable f.colon := by
  unfold Format.comma Format.colon
  constructor <;> split <;> decide

theorem floatText_printable {text : String} {isZero : Bool} {whole : Option Int}
    (h : fl.read text = float text isZero whole) : Printable (floatText text) := by
  by_cases hc : text ∈ constants.map Prod.fst
  · simp only [constants, List.map_cons, List.map_nil, List.mem_cons, List.not_mem_nil, or_false] at hc
    rcases hc with rfl | rfl | rfl <;> decide
  · have hplain : floatText text = text.toList := by
      unfold floatText
      rw [List.find?_eq_none.mpr fun c hm he => hc (List.mem_map.mpr ⟨c, hm, by simpa using he⟩)]
    obtain ⟨n, hn, -, htext⟩ := (Floats.shape h).resolve_left hc
    rw [hplain, ← htext]
    exact numeral_printable hn

theorem mem_dumpsItems {items : List Json} {t : List Char} (h : t ∈ dumpsItems f items) : ∃ v ∈ items, t = dumps f v := by
  induction items with
  | nil => cases h
  | cons v items ih =>
      rcases List.mem_cons.mp h with rfl | h
      · exact ⟨v, List.mem_cons_self, rfl⟩
      · obtain ⟨w, hw, he⟩ := ih h
        exact ⟨w, List.mem_cons_of_mem v hw, he⟩

theorem mem_dumpsFields {fields : List (String × Json)} {t : List Char} (h : t ∈ dumpsFields f fields) :
    ∃ p ∈ fields, t = quote f p.1 ++ f.colon ++ dumps f p.2 := by
  induction fields with
  | nil => cases h
  | cons p fields ih =>
      rcases List.mem_cons.mp h with rfl | h
      · exact ⟨p, List.mem_cons_self, rfl⟩
      · obtain ⟨w, hw, he⟩ := ih h
        exact ⟨w, List.mem_cons_of_mem p hw, he⟩

/-- With `ensure_ascii` a text is printable ASCII throughout, so nothing on its way can change it. -/
theorem dumps_printable (hf : f.ascii = true) {v : Json} (h : Sound fl v) : Printable (dumps f v) := by
  induction h with
  | null => exact (by decide : Printable ['n', 'u', 'l', 'l'])
  | bool b =>
      cases b with
      | true => exact (by decide : Printable ['t', 'r', 'u', 'e'])
      | false => exact (by decide : Printable ['f', 'a', 'l', 's', 'e'])
  | int n =>
      show Printable (intText n)
      unfold intText
      split
      · exact .cons (by decide) (toDigits_printable _)
      · exact toDigits_printable _
  | float h => exact floatText_printable h
  | str s => exact quote_printable hf s
  | arr _ ih =>
      refine Printable.append (.cons (by decide) (joined_printable f.comma_printable.1 fun t ht => ?_)) (by decide)
      obtain ⟨v, hv, rfl⟩ := mem_dumpsItems ht
      exact ih v hv
  | obj _ _ ih =>
      refine Printable.append (.cons (by decide) (joined_printable f.comma_printable.1 fun t ht => ?_)) (by decide)
      obtain ⟨p, hp, rfl⟩ := mem_dumpsFields ht
      exact ((quote_printable hf p.1).append f.comma_printable.2).append (ih p hp)

end

end Json
