/-
# `Loca.Listener.Mentions` — four readings of `@name`

`msg_addresses` and `addressed_caretakers` of the server cut the lower-case text at every
character that is not alphanumeric, `@`, `-` or `_`; `directly_names` and `exact_mentions` of
`listen.py` look for `(?<![A-Za-z0-9_-])@([A-Za-z0-9_-]+)` in the text as it stands.  Names are
admitted by other rules still (`valid_agent_name`, `valid_identity_name`, `admit_member`).

None of the four reports a name that is not in the text (`Honest`).  A name is read by all four
wherever it is mentioned exactly when it is made of what the listener takes for a name, and is
written in lower case if it is a caretaker's (`reached_iff`): a dot, which both validators
admit, is enough to be missed.
-/
import Mathlib.Data.List.Dedup
import Mathlib.Data.List.TakeWhile
import Loca.Base.Words
import Loca.Listener.Backfill

namespace Loca

open Adapter Words

/-! ## The names a server admits -/

def nameChar (c : Char) : Bool := c.isAlphanum || c = '.' || c = '_' || c = '-'

/-- `valid_agent_name`, at the door of a join request. -/
def validAgentName (name : String) : Bool :=
  name ≠ "" && decide (Text.byteLen name ≤ 64) && name.toList.all nameChar

/-- `valid_identity_name`, byte by byte: a byte past ASCII fails the test, and so does its
character. -/
def validIdentityName (name : String) : Bool :=
  name ≠ "" && decide (Text.byteLen name ≤ 64) && (name.toList.head?.any Char.isAlphanum) &&
    name.toList.all nameChar

/-- The three ways to a name; `admit_member` takes anything that is not blank, trimmed. -/
def Admitted (name : String) : Prop :=
  validAgentName name = true ∨ validIdentityName name = true ∨
    ∃ raw, Text.trim raw = name ∧ name ≠ ""

theorem Admitted.ne_empty {name : String} (h : Admitted name) : name ≠ "" := by
  rcases h with h | h | ⟨-, -, h⟩
  · simp only [validAgentName, Bool.and_eq_true, decide_eq_true_eq] at h
    exact h.1.1
  · simp only [validIdentityName, Bool.and_eq_true, decide_eq_true_eq] at h
    exact h.1.1.1
  · exact h

/-! ## The listener -/

/-- `directly_names`: an exact target, or an exact name after an `@`. -/
def directlyNames (py : Python) (message : List (String × Json)) (name : String) :
    Except Fault Bool :=
  let expected := py.casefold name
  if py.casefold (py.strOr "target" "" message) = expected then .ok true
  else match (Json.given "text" message).getD (.str "") with
    | .str text => .ok ((exactMentionsFrom false text.toList).any fun mention =>
        py.casefold mention = expected)
    | _ => .error (.raised "TypeError")

/-! ## What is asked of the four -/

/-- `@name` stands in the text between whitespace or the text's ends, in any letter case. -/
def Mentions (text name : String) : Prop :=
  ∃ before word after, text.toList = before ++ '@' :: word ++ after ∧
    word.map Char.toLower = name.toList.map Char.toLower ∧
    Delimits Text.isWhiteSpace before after

/-- `@name` occurs somewhere in the text, both folded. -/
def Occurs (fold : String → String) (text name : String) : Prop :=
  '@' :: (fold name).toList <:+: (fold text).toList

/-- Every message that mentions the name is a mention of it to all four. -/
def Reached (cfg : Config) (py : Python) (name : String) : Prop :=
  ∀ m : Message, Mentions m.text name →
    (∀ acceptsAll, msgAddresses cfg m name acceptsAll = true) ∧
    (name ∈ cfg.caretakers → name ∈ addressedCaretakers cfg m) ∧
    directlyNames py (messageFields m) name = .ok true ∧
    py.casefold name ∈ exactMentions py (messageFields m)

/-- What is reported of a name without a mention of it has another reason. -/
structure Honest (cfg : Config) (py : Python) (name : String) : Prop where
  addresses : ∀ m acceptsAll, msgAddresses cfg m name acceptsAll = true →
    Occurs cfg.lowercase m.text name ∨ m.target = some name ∨ m.replyToSender = some name ∨
      acceptsAll = true ∧ m.kind ≠ .announce ∧
        (m.target = some "all" ∨ '@' :: "all".toList <:+: (cfg.lowercase m.text).toList)
  summons : ∀ m, name ∈ addressedCaretakers cfg m →
    '@' :: name.toList <:+: (cfg.lowercase m.text).toList ∨
      m.target.map cfg.lowercase = some name ∨ m.replyToSender.map cfg.lowercase = some name
  names : ∀ m, directlyNames py (messageFields m) name = .ok true →
    Occurs py.casefold m.text name ∨ m.target.map py.casefold = some (py.casefold name)
  mentions : ∀ m, py.casefold name ∈ exactMentions py (messageFields m) →
    Occurs py.casefold m.text name

/-- Made of what the listener takes for a name, and in lower case if a caretaker's. -/
def PlainName (cfg : Config) (name : String) : Prop :=
  (∀ c ∈ name.toList, isNameChar c = true) ∧ (name ∈ cfg.caretakers → cfg.lowercase name = name)

instance (cfg : Config) (name : String) : Decidable (PlainName cfg name) :=
  @instDecidableAnd _ _ (List.decidableBAll _ _) _

/-- The tables of Unicode the two languages carry, as far as they matter here: ASCII is folded
letter by letter, whitespace is nobody's letter and stands outside every context, and folding
loses no character. -/
structure UnicodeText (cfg : Config) (py : Python) : Prop where
  lower_ascii : ∀ s : String, (∀ c ∈ s.toList, c.toNat < 128) →
    (cfg.lowercase s).toList = s.toList.map Char.toLower
  lower_space : ∀ a b c, Text.isWhiteSpace c = true →
    (cfg.lowercase (String.ofList (a ++ c :: b))).toList =
      (cfg.lowercase (String.ofList a)).toList ++ c :: (cfg.lowercase (String.ofList b)).toList
  alphanumeric_ascii : ∀ c : Char, c.toNat < 128 → cfg.alphanumeric c = c.isAlphanum
  alphanumeric_space : ∀ c, Text.isWhiteSpace c = true → cfg.alphanumeric c = false
  fold_ascii : ∀ s : String, (∀ c ∈ s.toList, c.toNat < 128) →
    (py.casefold s).toList = s.toList.map Char.toLower
  fold_append : ∀ s t, py.casefold (s ++ t) = py.casefold s ++ py.casefold t
  fold_length : ∀ s, s.length ≤ (py.casefold s).length

/-! ## Letters -/

theorem ascii_of_isNameChar {c : Char} (h : isNameChar c = true) : c.toNat < 128 := by
  have hletter : c.isAlphanum = ((decide ('A'.val ≤ c.val ∧ c.val ≤ 'Z'.val) ||
      (decide ('a'.val ≤ c.val) && decide (c.val ≤ 'z'.val))) ||
      (decide ('0'.val ≤ c.val) && decide (c.val ≤ '9'.val))) := rfl
  simp only [isNameChar, hletter, Bool.or_eq_true, Bool.and_eq_true, decide_eq_true_eq, UInt32.le_iff_toNat_le] at h
  have h' : c.toNat = c.val.toNat := rfl
  rcases h with ((((h | h) | h) | rfl) | rfl)
  · have : c.val.toNat ≤ 90 := h.2
    omega
  · have : c.val.toNat ≤ 122 := h.2
    omega
  · have : c.val.toNat ≤ 57 := h.2
    omega
  · decide
  · decide

/-- What is read off the ASCII table. -/
theorem ascii_letters {c : Char} (hc : c.toNat < 128) :
    (isNameChar c.toLower = isNameChar c) ∧
      (Text.isWhiteSpace c = true → isNameChar c = false ∧ c.toLower = c) :=
  ascii_rule (P := fun c => (isNameChar c.toLower = isNameChar c) ∧
      (Text.isWhiteSpace c = true → isNameChar c = false ∧ c.toLower = c))
    (by decide +kernel) hc

theorem isNameChar_toLower {c : Char} (h : isNameChar c = true) : isNameChar c.toLower = true :=
  (ascii_letters (ascii_of_isNameChar h)).1.trans h

/-- Past ASCII there is nothing to fold. -/
theorem toLower_of_not_ascii {c : Char} (hc : ¬c.toNat < 128) : c.toLower = c := by
  unfold Char.toLower
  split
  · next hu =>
      have : c.toNat = c.val.toNat := rfl
      have hle : c.val.toNat ≤ 90 := hu.2
      omega
  · rfl

theorem isNameChar_of_toLower {c : Char} (h : isNameChar c.toLower = true) : isNameChar c = true := by
  by_cases hc : c.toNat < 128
  · exact (ascii_letters hc).1.symm.trans h
  · rwa [toLower_of_not_ascii hc] at h

theorem isNameChar_of_isWhiteSpace {c : Char} (h : Text.isWhiteSpace c = true) :
    isNameChar c = false := by
  by_contra hn
  rw [Bool.not_eq_false] at hn
  rw [((ascii_letters (ascii_of_isNameChar hn)).2 h).1] at hn
  cases hn

theorem map_toLower_isNameChar {word name : List Char} (hn : ∀ c ∈ name, isNameChar c = true)
    (h : word.map Char.toLower = name.map Char.toLower) : ∀ c ∈ word, isNameChar c = true := by
  intro c hc
  have hmem : c.toLower ∈ name.map Char.toLower := h ▸ List.mem_map_of_mem hc
  obtain ⟨d, hd, hdc⟩ := List.mem_map.mp hmem
  exact isNameChar_of_toLower (hdc ▸ isNameChar_toLower (hn d hd))

/-! ## The server's words -/

section Server

variable {cfg : Config} {py : Python}

theorem UnicodeText.mentionChar_of_isNameChar (u : UnicodeText cfg py) {c : Char}
    (h : isNameChar c = true) : mentionChar cfg c = true := by
  simp only [mentionChar, u.alphanumeric_ascii c (ascii_of_isNameChar h)]
  simp only [isNameChar, Bool.or_eq_true, decide_eq_true_eq] at h ⊢
  tauto

theorem UnicodeText.mentionChar_of_isWhiteSpace (u : UnicodeText cfg py) {c : Char}
    (h : Text.isWhiteSpace c = true) : mentionChar cfg c = false := by
  have hat : c ≠ '@' := by rintro rfl; cases h
  have hdash : c ≠ '-' := by rintro rfl; cases h
  have hline : c ≠ '_' := by rintro rfl; cases h
  simp [mentionChar, u.alphanumeric_space c h, hat, hdash, hline]

theorem UnicodeText.lower_word (u : UnicodeText cfg py) {word : List Char}
    (hw : ∀ c ∈ word, isNameChar c = true) :
    (cfg.lowercase (String.ofList ('@' :: word))).toList = '@' :: word.map Char.toLower := by
  rw [u.lower_ascii, String.toList_ofList, List.map_cons]
  · rfl
  · intro c hc
    rw [String.toList_ofList] at hc
    rcases List.mem_cons.mp hc with rfl | hc
    · decide
    · exact ascii_of_isNameChar (hw c hc)

/-- Lower-casing a text leaves what whitespace delimits where it was. -/
theorem UnicodeText.lower_between (u : UnicodeText cfg py) {before after : List Char}
    (word : List Char) (h : Delimits Text.isWhiteSpace before after) :
    ∃ a b, (cfg.lowercase (String.ofList (before ++ word ++ after))).toList =
        a ++ (cfg.lowercase (String.ofList word)).toList ++ b ∧ Delimits Text.isWhiteSpace a b := by
  have hright : ∃ b, (cfg.lowercase (String.ofList (word ++ after))).toList =
      (cfg.lowercase (String.ofList word)).toList ++ b ∧ ∀ c ∈ b.head?, Text.isWhiteSpace c = true := by
    rcases eq_nil_or_cons_of_head h.right with rfl | ⟨c, rest, rfl, hc⟩
    · exact ⟨[], by simp, by simp⟩
    · exact ⟨_, u.lower_space word rest c hc, by simpa using hc⟩
  obtain ⟨b, hb, hbs⟩ := hright
  rcases eq_nil_or_concat_of_last h.left with rfl | ⟨rest, c, rfl, hc⟩
  · exact ⟨[], b, by simpa using hb, by simp, hbs⟩
  · refine ⟨(cfg.lowercase (String.ofList rest)).toList ++ [c], b, ?_, by simpa using hc, hbs⟩
    have hcut : rest ++ [c] ++ word ++ after = rest ++ c :: (word ++ after) := by simp
    rw [hcut, u.lower_space rest (word ++ after) c hc, hb]
    simp

/-- A mention of a plain name is one of the words of the text. -/
theorem UnicodeText.mem_mentionWords (u : UnicodeText cfg py) {text name : String}
    (hn : ∀ c ∈ name.toList, isNameChar c = true) (h : Mentions text name) :
    "@" ++ cfg.lowercase name ∈ mentionWords cfg text := by
  obtain ⟨before, word, after, htext, hword, hd⟩ := h
  have hw : ∀ c ∈ word, isNameChar c = true := map_toLower_isNameChar hn hword
  obtain ⟨a, b, hlower, hab⟩ := u.lower_between ('@' :: word) hd
  rw [u.lower_word hw, ← htext, String.ofList_toList] at hlower
  have hmem : '@' :: word.map Char.toLower ∈
      (cfg.lowercase text).toList.splitOnP fun c => !mentionChar cfg c := by
    rw [hlower]
    refine mem_splitOnP_between (fun c hc => ?_) (hab.mono fun c hc => ?_)
    · rcases List.mem_cons.mp hc with rfl | hc
      · simp [mentionChar]
      · obtain ⟨d, hd, rfl⟩ := List.mem_map.mp hc
        simp [u.mentionChar_of_isNameChar (isNameChar_toLower (hw d hd))]
    · simp [u.mentionChar_of_isWhiteSpace hc]
  refine List.mem_map.mpr ⟨_, hmem, String.toList_inj.mp ?_⟩
  rw [String.toList_ofList, String.toList_append,
    u.lower_ascii name fun c hc => ascii_of_isNameChar (hn c hc), hword]
  rfl

theorem occurs_of_mem_mentionWords {text word : String} (h : word ∈ mentionWords cfg text) :
    word.toList <:+: (cfg.lowercase text).toList := by
  obtain ⟨w, hw, rfl⟩ := List.mem_map.mp h
  rw [String.toList_ofList]
  exact infix_of_mem_splitOnP hw

theorem toList_at (s : String) : ("@" ++ s).toList = '@' :: s.toList := by
  rw [String.toList_append]
  rfl

/-- The caretakers a message names, one by one. -/
theorem mem_addressedCaretakers {m : Message} {name : String} :
    name ∈ addressedCaretakers cfg m ↔ name ∈ cfg.caretakers ∧
      (m.target.map cfg.lowercase = some name ∨ m.replyToSender.map cfg.lowercase = some name ∨
        "@" ++ name ∈ mentionWords cfg m.text) := by
  have hstrip : (∃ w ∈ mentionWords cfg m.text, Text.stripPrefix "@" w = some name) ↔
      "@" ++ name ∈ mentionWords cfg m.text := by
    constructor
    · rintro ⟨w, hw, hs⟩
      rwa [← Text.stripPrefix_eq_some.mp hs]
    · exact fun h => ⟨_, h, Text.stripPrefix_append "@" name⟩
  simp only [addressedCaretakers, List.mem_dedup, Table.mem_orderBy, List.mem_filter,
    List.mem_append, List.mem_map, Option.mem_toList, List.mem_filterMap, List.contains_iff_mem]
  simp only [mentionWords, List.mem_map] at hstrip ⊢
  rw [hstrip]
  cases m.target <;> cases m.replyToSender <;> simp <;> tauto

end Server

/-! ## The listener's names -/

section Names

theorem exists_of_mem_exactMentionsFrom {afterName : Bool} {l : List Char} {s : String}
    (h : s ∈ exactMentionsFrom afterName l) :
    ∃ before after, l = before ++ '@' :: after ∧ s = String.ofList (after.takeWhile isNameChar) := by
  induction l generalizing afterName with
  | nil => cases h
  | cons c rest ih =>
      simp only [exactMentionsFrom] at h
      split at h
      · next hc =>
          simp only [Bool.and_eq_true, decide_eq_true_eq] at hc
          rcases List.mem_cons.mp h with rfl | h
          · exact ⟨[], rest, by rw [hc.1.1, List.nil_append], rfl⟩
          · obtain ⟨before, after, rfl, hs⟩ := ih h
            exact ⟨c :: before, after, rfl, hs⟩
      · obtain ⟨before, after, rfl, hs⟩ := ih h
        exact ⟨c :: before, after, rfl, hs⟩

/-- A name after an `@` is read unless a name character stands before the `@`. -/
theorem mem_exactMentionsFrom (afterName : Bool) {before word after : List Char}
    (hw : ∀ c ∈ word, isNameChar c = true) (hne : word ≠ [])
    (hd : Delimits (fun c => !isNameChar c) before after) (hstart : before = [] → afterName = false) :
    String.ofList word ∈ exactMentionsFrom afterName (before ++ '@' :: word ++ after) := by
  induction before generalizing afterName with
  | nil =>
      have htake : (word ++ after).takeWhile isNameChar = word := by
        rw [List.takeWhile_append_of_pos hw]
        rcases eq_nil_or_cons_of_head hd.right with rfl | ⟨c, rest, rfl, hc⟩
        · simp
        · rw [Bool.not_eq_true'] at hc
          rw [List.takeWhile_cons_of_neg (by simp [hc]), List.append_nil]
      have hread : (word.isEmpty : Bool) = false := by simpa using hne
      simp only [List.nil_append, List.cons_append, exactMentionsFrom, htake, hstart rfl, hread,
        decide_true, Bool.not_false, Bool.and_self, if_true]
      exact List.mem_cons_self
  | cons c before ih =>
      have hrest : String.ofList word ∈
          exactMentionsFrom (isNameChar c) (before ++ '@' :: word ++ after) := by
        refine ih (isNameChar c) ⟨fun d hlast => hd.left d ?_, hd.right⟩ ?_
        · rw [List.getLast?_cons, Option.mem_def.mp hlast]
          rfl
        · rintro rfl
          have := hd.left c (by simp)
          rwa [Bool.not_eq_true'] at this
      simp only [List.cons_append, exactMentionsFrom]
      split
      · exact List.mem_cons_of_mem _ hrest
      · exact hrest

variable {cfg : Config} {py : Python}

theorem strOr_text (py : Python) (m : Message) :
    py.strOr "text" "" (messageFields m) = m.text := by
  by_cases h : m.text = "" <;> simp [Python.strOr, Json.given, Option.filter, Json.truthy, Python.str, h]

theorem strOr_target (py : Python) (m : Message) :
    py.strOr "target" "" (messageFields m) = m.target.getD "" := by
  cases ht : m.target with
  | none => simp [Python.strOr, Json.given, ht]
  | some t =>
      by_cases h : t = "" <;>
        simp [Python.strOr, Json.given, Option.filter, Json.truthy, Python.str, ht, h]

theorem mem_exactMentions {m : Message} {name : String} :
    name ∈ exactMentions py (messageFields m) ↔
      ∃ s ∈ exactMentionsFrom false m.text.toList, py.casefold s = name := by
  rw [exactMentions, strOr_text, List.mem_map]

theorem directlyNames_messageFields {m : Message} {name : String} :
    directlyNames py (messageFields m) name = .ok true ↔
      py.casefold (m.target.getD "") = py.casefold name ∨
        py.casefold name ∈ exactMentions py (messageFields m) := by
  have htext : (Json.given "text" (messageFields m)).getD (.str "") = .str m.text := by
    by_cases h : m.text = "" <;> simp [Json.given, Option.filter, Json.truthy, h]
  simp only [directlyNames, strOr_target, htext, mem_exactMentions]
  split
  · next h => exact ⟨fun _ => .inl h, fun _ => rfl⟩
  · next h => simp [h]

/-- What the listener reads stands in the text. -/
theorem UnicodeText.occurs_of_exactMentions (u : UnicodeText cfg py) {m : Message} {name : String}
    (h : py.casefold name ∈ exactMentions py (messageFields m)) : Occurs py.casefold m.text name := by
  obtain ⟨s, hs, hfold⟩ := mem_exactMentions.mp h
  obtain ⟨before, after, htext, rfl⟩ := exists_of_mem_exactMentionsFrom hs
  have hparts : m.text = String.ofList before ++
      ("@" ++ String.ofList (after.takeWhile isNameChar) ++
        String.ofList (after.dropWhile isNameChar)) := by
    refine String.toList_inj.mp ?_
    rw [htext]
    simp [List.takeWhile_append_dropWhile]
  have hat : (py.casefold "@").toList = ['@'] := u.fold_ascii "@" (by simp)
  unfold Occurs
  rw [hparts]
  simp only [u.fold_append, String.toList_append, hat, ← hfold]
  exact ⟨(py.casefold (String.ofList before)).toList,
    (py.casefold (String.ofList (after.dropWhile isNameChar))).toList, by simp⟩

/-- A mention of a plain name is read by the listener. -/
theorem UnicodeText.mem_exactMentions_of_mentions (u : UnicodeText cfg py) {m : Message}
    {name : String} (hne : name ≠ "") (hn : ∀ c ∈ name.toList, isNameChar c = true)
    (h : Mentions m.text name) : py.casefold name ∈ exactMentions py (messageFields m) := by
  obtain ⟨before, word, after, htext, hword, hd⟩ := h
  have hw : ∀ c ∈ word, isNameChar c = true := map_toLower_isNameChar hn hword
  have hne' : word ≠ [] := by
    rintro rfl
    have hnil : name.toList.map Char.toLower = [] := hword.symm
    exact hne (String.toList_eq_nil_iff.mp (List.map_eq_nil_iff.mp hnil))
  have hread := mem_exactMentionsFrom false hw hne'
    (hd.mono fun c hc => by simp [isNameChar_of_isWhiteSpace hc]) fun _ => rfl
  refine mem_exactMentions.mpr ⟨_, htext ▸ hread, String.toList_inj.mp ?_⟩
  rw [u.fold_ascii name fun c hc => ascii_of_isNameChar (hn c hc), u.fold_ascii, String.toList_ofList,
    hword]
  intro c hc
  rw [String.toList_ofList] at hc
  exact ascii_of_isNameChar (hw c hc)

end Names

/-! ## All four -/

section Four

variable {cfg : Config} {py : Python}

theorem UnicodeText.honest (u : UnicodeText cfg py) {name : String} (hne : name ≠ "") :
    Honest cfg py name where
  addresses m acceptsAll h := by
    simp only [msgAddresses, mentionsName, mentionsAll, Bool.or_eq_true, Bool.and_eq_true,
      decide_eq_true_eq, List.contains_iff_mem] at h
    rcases h with ((((h | h) | h) | h) | h)
    · exact .inr (.inl h)
    · exact .inr (.inr (.inl h))
    · exact .inr (.inr (.inr ⟨h.1.1, h.1.2, .inl h.2⟩))
    · have := occurs_of_mem_mentionWords h
      rw [toList_at] at this
      exact .inl this
    · exact .inr (.inr (.inr ⟨h.1.1, h.1.2, .inr (occurs_of_mem_mentionWords h.2)⟩))
  summons m h := by
    rcases (mem_addressedCaretakers.mp h).2 with h | h | h
    · exact .inr (.inl h)
    · exact .inr (.inr h)
    · have := occurs_of_mem_mentionWords h
      rw [toList_at] at this
      exact .inl this
  names m h := by
    rcases directlyNames_messageFields.mp h with h | h
    · cases ht : m.target with
      | some t => exact .inr (by rw [← h, ht]; rfl)
      | none =>
          -- without a target the name would have to fold to nothing
          have hnil : py.casefold "" = "" := String.toList_inj.mp (u.fold_ascii "" (by simp))
          have hlen := u.fold_length name
          rw [← h, ht, Option.getD_none, hnil] at hlen
          exact absurd (String.length_eq_zero_iff.mp (Nat.le_zero.mp hlen)) hne
    · exact .inl (u.occurs_of_exactMentions h)
  mentions m h := u.occurs_of_exactMentions h

theorem mentions_at (name : String) : Mentions ("@" ++ name) name :=
  ⟨[], name.toList, [], by rw [toList_at]; simp, rfl, by simp, by simp⟩

/-- A message that says nothing but `@name`. -/
def mentioning (name : String) : Message :=
  ⟨1, "den", "eve", .agent, none, "@" ++ name, .say, none, none, 0, []⟩

/-- A name the listener reads in `@name` is one it takes for a name. -/
theorem UnicodeText.isNameChar_of_read (u : UnicodeText cfg py) {name : String}
    (h : py.casefold name ∈ exactMentions py (messageFields (mentioning name))) :
    ∀ c ∈ name.toList, isNameChar c = true := by
  obtain ⟨s, hs, hfold⟩ := mem_exactMentions.mp h
  obtain ⟨before, after, htext, rfl⟩ := exists_of_mem_exactMentionsFrom hs
  rw [mentioning, toList_at] at htext
  have hascii : ∀ c ∈ (String.ofList (after.takeWhile isNameChar)).toList, c.toNat < 128 := by
    intro c hc
    rw [String.toList_ofList] at hc
    exact ascii_of_isNameChar (List.mem_takeWhile_imp hc)
  -- folding loses nothing, so what was read is as long as the name
  have hlen : name.toList.length ≤ (after.takeWhile isNameChar).length := by
    have := u.fold_length name
    rw [← hfold, ← String.length_toList, ← String.length_toList, u.fold_ascii _ hascii, List.length_map,
      String.toList_ofList] at this
    exact this
  have hshort : (after.takeWhile isNameChar).length ≤ after.length :=
    (List.takeWhile_prefix isNameChar).length_le
  cases before with
  | nil =>
      obtain rfl : name.toList = after := (List.cons.inj htext).2
      have hall : name.toList.takeWhile isNameChar = name.toList :=
        (List.takeWhile_prefix isNameChar).eq_of_length (Nat.le_antisymm hshort hlen)
      exact List.takeWhile_eq_self_iff.mp hall
  | cons c before =>
      have := congrArg List.length htext
      simp only [List.length_cons, List.length_append] at this
      omega

/-- A caretaker is summoned by `@name` only under a name in lower case. -/
theorem UnicodeText.lowercase_of_summoned (u : UnicodeText cfg py) {name : String}
    (hn : ∀ c ∈ name.toList, isNameChar c = true)
    (h : name ∈ addressedCaretakers cfg (mentioning name)) : cfg.lowercase name = name := by
  have hlower := u.lower_word hn
  have htext : String.ofList ('@' :: name.toList) = "@" ++ name :=
    String.toList_inj.mp (by simp)
  rw [htext] at hlower
  rcases (mem_addressedCaretakers.mp h).2 with h | h | h
  · cases h
  · cases h
  · obtain ⟨w, hw, hname⟩ := List.mem_map.mp h
    rw [mentioning, hlower, List.splitOnP_eq_singleton, List.mem_singleton] at hw
    · have := congrArg String.toList hname
      rw [hw, String.toList_ofList, toList_at] at this
      refine String.toList_inj.mp ?_
      rw [u.lower_ascii name fun c hc => ascii_of_isNameChar (hn c hc)]
      exact (List.cons.inj this).2
    · intro c hc
      rcases List.mem_cons.mp hc with rfl | hc
      · simp [mentionChar]
      · obtain ⟨d, hd, rfl⟩ := List.mem_map.mp hc
        simp [u.mentionChar_of_isNameChar (isNameChar_toLower (hn d hd))]

/-- An admitted name is read by all four wherever it is mentioned, and by none where it does not
occur, exactly when it is a plain one. -/
theorem reached_iff (u : UnicodeText cfg py) {name : String} (hname : Admitted name) :
    (Reached cfg py name ∧ Honest cfg py name) ↔ PlainName cfg name := by
  constructor
  · rintro ⟨hr, -⟩
    obtain ⟨-, hcare, -, hread⟩ := hr (mentioning name) (mentions_at name)
    have hn := u.isNameChar_of_read hread
    exact ⟨hn, fun hc => u.lowercase_of_summoned hn (hcare hc)⟩
  · rintro ⟨hn, hcare⟩
    refine ⟨fun m hm => ⟨fun acceptsAll => ?_, fun hc => ?_, ?_, ?_⟩, u.honest hname.ne_empty⟩
    · have : mentionsName cfg m.text name = true := List.contains_iff_mem.mpr (u.mem_mentionWords hn hm)
      simp [msgAddresses, this]
    · have hw := u.mem_mentionWords hn hm
      rw [hcare hc] at hw
      exact mem_addressedCaretakers.mpr ⟨hc, .inr (.inr hw)⟩
    · exact directlyNames_messageFields.mpr
        (.inr (u.mem_exactMentions_of_mentions hname.ne_empty hn hm))
    · exact u.mem_exactMentions_of_mentions hname.ne_empty hn hm

end Four

theorem toLower_of_isWhiteSpace {c : Char} (h : Text.isWhiteSpace c = true) : c.toLower = c := by
  by_cases hc : c.toNat < 128
  · exact ((ascii_letters hc).2 h).2
  · exact toLower_of_not_ascii hc

/-- ASCII tables, which leave every other character alone, follow the rules. -/
theorem unicodeText_sample : UnicodeText sampleConfig asciiInterpreter.toPython where
  lower_ascii s _ := String.toList_ofList
  lower_space a b c hc := by simp [sampleConfig, toLower_of_isWhiteSpace hc]
  alphanumeric_ascii _ _ := rfl
  alphanumeric_space c hc := by
    have := isNameChar_of_isWhiteSpace hc
    simp only [isNameChar, Bool.or_eq_false_iff] at this
    exact this.1.1
  fold_ascii s _ := String.toList_ofList
  fold_append s t := String.toList_inj.mp (by simp [asciiInterpreter])
  fold_length s := by
    have : s.toList.length = s.length := String.length_toList
    simp [asciiInterpreter, this]

/-- A caretaker's name, in lower case, is reached wherever it is mentioned. -/
theorem reached_sample :
    Admitted "loca-care" ∧ Reached sampleConfig asciiInterpreter.toPython "loca-care" ∧
      Honest sampleConfig asciiInterpreter.toPython "loca-care" :=
  have hname : Admitted "loca-care" := .inl (by decide)
  have hchars : "loca-care".toList.all isNameChar = true := by decide
  ⟨hname, (reached_iff unicodeText_sample hname).mpr ⟨List.all_eq_true.mp hchars, by decide⟩⟩

/-- `@build.bot` is cut at the dot: a name both validators admit is read by nobody. -/
theorem dotted_name_is_unread :
    validAgentName "build.bot" = true ∧ validIdentityName "build.bot" = true ∧
      Mentions (mentioning "build.bot").text "build.bot" ∧
      msgAddresses sampleConfig (mentioning "build.bot") "build.bot" true = false ∧
      addressedCaretakers { sampleConfig with caretakers := ["build.bot"] } (mentioning "build.bot") =
        [] ∧
      directlyNames asciiInterpreter.toPython (messageFields (mentioning "build.bot")) "build.bot" =
        .ok false ∧
      exactMentions asciiInterpreter.toPython (messageFields (mentioning "build.bot")) = ["build"] ∧
      ¬∀ name, Admitted name → Reached sampleConfig asciiInterpreter.toPython name ∧
        Honest sampleConfig asciiInterpreter.toPython name := by
  have hname : validAgentName "build.bot" = true := by decide +kernel
  have hunread : msgAddresses sampleConfig (mentioning "build.bot") "build.bot" true = false := by
    decide +kernel
  refine ⟨hname, by decide +kernel, mentions_at _, hunread, by decide +kernel, by rfl,
    by rfl, fun h => ?_⟩
  have hread := ((h "build.bot" (.inl hname)).1 (mentioning "build.bot") (mentions_at _)).1 true
  rw [hunread] at hread
  cases hread

end Loca
