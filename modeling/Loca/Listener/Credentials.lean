/-
# `Loca.Listener.Credentials` — one identity's env file

`update_env_values`, `load_local_env` and `token_for_room` of `credentials.py`, for an identity
whose file `LOCA_ENV` names: the text on disk, and the environment of the running process.

An update and a load do not cut the text alike (`splitlines` knows more line breaks than the
file iterator), so the two views agree on texts with ordinary breaks only (`Ordinary`); every
text an update writes is one.  There an update changes what a load reads at the keys it names
and nowhere else (`updateEnvValues_spec`).
-/
import Loca.Base.Assoc
import Loca.Base.Check
import Loca.Base.Text
import Loca.Listener.Mentions

namespace Loca

open Check

abbrev Environ := Assoc String String

inductive CredentialFault
  /-- `invalid credential key …`, of an update. -/
  | badKey (key : String)
  /-- `credential values must fit on one env-file line`. -/
  | badValue
  /-- `refusing to overwrite identity … with …`. -/
  | foreign (current target : String)
  /-- `invalid credential line in …`. -/
  | badLine (number : Nat)
  /-- `invalid credential key … in …`. -/
  | badKeyAt (key : String) (number : Nat)
  /-- `invalid control character in …`. -/
  | control (number : Nat)
  /-- `credential identity mismatch`. -/
  | mismatch (requested loaded : String)
  /-- `ValueError`. -/
  | value (message : String)
  /-- `OSError`. -/
  | os
  deriving DecidableEq, Repr

/-! ## Python's strings -/

/-- `str.isspace`: white space, and four separators among the control characters. -/
def isSpace (c : Char) : Bool := Text.isWhiteSpace c || (0x1c ≤ c.toNat && c.toNat ≤ 0x1f)

/-- `str.strip()`. -/
def strip (l : List Char) : List Char :=
  ((l.dropWhile isSpace).reverse.dropWhile isSpace).reverse

/-- Cut at line breaks; `\r\n` is one, and a last line needs none. -/
def cutLines (brk : Char → Bool) (afterReturn : Bool) (line : List Char) : List Char → List (List Char)
  | [] => if line.isEmpty then [] else [line]
  | c :: rest =>
    if afterReturn && c = '\n' then cutLines brk false line rest
    else if brk c then line :: cutLines brk (c = '\r') [] rest
    else cutLines brk false (line ++ [c]) rest

/-- The breaks of a file opened as text. -/
def isNewline (c : Char) : Bool := c = '\n' || c = '\r'

/-- The breaks of `str.splitlines`. -/
def isLineBreak (c : Char) : Bool :=
  isNewline c || c.toNat = 0x0b || c.toNat = 0x0c || (0x1c ≤ c.toNat && c.toNat ≤ 0x1e) ||
    c.toNat = 0x85 || c.toNat = 0x2028 || c.toNat = 0x2029

/-- `for raw in handle`. -/
def readLines (text : String) : List (List Char) := cutLines isNewline false [] text.toList

/-- `handle.read().splitlines()`. -/
def splitlines (text : String) : List (List Char) := cutLines isLineBreak false [] text.toList

/-- `"\n".join(lines)`, and one more `\n` unless there are none. -/
def joinLines (lines : List (List Char)) : String :=
  String.ofList (lines.flatMap fun line => line ++ ['\n'])

/-! ## Keys and values -/

def boundKeys : List String :=
  ["LOCA_NAME", "LOCA_SESSION", "LOCA_MEMBERSHIP", "ROOM_SERVER_URL", "ROOM_TOKEN"]

/-- `[A-Za-z0-9_]`. -/
def isKeyChar (c : Char) : Bool := c.isAlphanum || c = '_'

def isDavetKey (key : String) : Bool := Text.hasPrefix "DAVET_" key

/-- `_is_bound_key`. -/
def isBoundKey (key : String) : Bool :=
  boundKeys.contains key ||
    (isDavetKey key && !(key.toList.drop 6).isEmpty && (key.toList.drop 6).all isKeyChar)

/-- `_validate_write_value`; the values of this module are strings or nothing. -/
def isWritable : Option String → Bool
  | none => true
  | some value => value.toList.all fun c => c ≠ '\n' && c ≠ '\r' && c.toNat ≠ 0

/-- A value in matching quotes, without them. -/
def unquote (value : List Char) : List Char :=
  if 2 ≤ value.length ∧ value.head? = value.getLast? ∧
      (value.head? = some '"' ∨ value.head? = some '\'') then
    value.tail.dropLast
  else value

/-- `_literal_env_value`. -/
def literalEnvValue (raw : List Char) (number : Nat) : Except CredentialFault String := do
  let value := unquote (strip raw)
  require ((value.any fun c => c.toNat < 32 && c ≠ '\t') = false) (.control number)
  pure (String.ofList value)

/-- What stands before the first `=`, stripped. -/
def lineKey (line : List Char) : String := String.ofList (strip (line.takeWhile fun c => c ≠ '='))

/-- Blank lines and comments bind nothing. -/
def isIdle (line : List Char) : Bool := (strip line).isEmpty || (strip line).head? = some '#'

/-! ## Loading -/

/-- What one line of the file binds. -/
def parseLine (number : Nat) (raw : List Char) : Except CredentialFault (Option (String × String)) :=
  let line := strip raw
  if isIdle raw then .ok none
  else do
    require (line.contains '=' = true) (.badLine number)
    require (isBoundKey (lineKey line) = true) (.badKeyAt (lineKey line) number)
    let value ← literalEnvValue (line.dropWhile fun c => c ≠ '=').tail number
    pure (some (lineKey line, value))

def parseLines : Nat → List (List Char) → Except CredentialFault (List (String × String))
  | _, [] => .ok []
  | number, line :: lines => do
    let binding ← parseLine number line
    let rest ← parseLines (number + 1) lines
    pure (binding.toList ++ rest)

/-- Later lines win. -/
def bindAll (bindings : List (String × String)) (environ : Environ) : Environ :=
  bindings.foldl (fun e b => e.put b.1 b.2) environ

/-- One agent's process: its environment, and its env file if there is one. -/
structure Agent where
  environ : Environ
  file : Option String

/-- `load_local_env` of the file `LOCA_ENV` names: loca's variables of another agent go first.
A call that raises ends the program. -/
def loadLocalEnv (name : Option String) (a : Agent) : Except CredentialFault Environ :=
  let cleared := a.environ.retain fun key _ => !isBoundKey key
  match a.file with
  | none => .ok cleared
  | some text => do
    let bindings ← parseLines 1 (readLines text)
    let environ := bindAll bindings cleared
    let loadedName := String.ofList (strip ((environ.get "LOCA_NAME").getD "").toList)
    let requested := name.getD ""
    require (¬(requested ≠ "" ∧ loadedName ≠ "" ∧ loadedName ≠ requested))
      (.mismatch requested loadedName)
    pure environ

/-! ## Updating -/

/-- The lines of the file that an update leaves: other keys, blank lines and comments. -/
def keptLines (updated : List String) : Nat → List (List Char) →
    Except CredentialFault (List (List Char))
  | _, [] => .ok []
  | number, line :: lines =>
    if isIdle line then do
      let rest ← keptLines updated (number + 1) lines
      pure (line :: rest)
    else do
      require (line.contains '=' = true) (.badLine number)
      require (isBoundKey (lineKey line) = true) (.badKeyAt (lineKey line) number)
      let rest ← keptLines updated (number + 1) lines
      pure (if updated.contains (lineKey line) then rest else line :: rest)

/-- The keys and values are checked in turn. -/
def checkUpdates : List (String × Option String) → Except CredentialFault Unit
  | [] => .ok ()
  | (key, value) :: updates => do
    require (isBoundKey key = true) (.badKey key)
    require (isWritable value = true) .badValue
    checkUpdates updates

/-- The identity a file belongs to, on its first `LOCA_NAME` line. -/
def ownerOf (lines : List (List Char)) : Option String :=
  let owner := (lines.map strip).find? fun line => "LOCA_NAME=".toList.isPrefixOf line
  owner.map fun line => String.ofList (unquote (strip (line.drop 10)))

/-- One identity never writes over another's file. -/
def checkOwner (updates : List (String × Option String)) (lines : List (List Char)) :
    Except CredentialFault Unit :=
  match (updates.find? fun u => u.1 = "LOCA_NAME").bind Prod.snd, ownerOf lines with
  | some target, some current =>
    require (¬(target ≠ "" ∧ current ≠ "" ∧ current ≠ target)) (.foreign current target)
  | _, _ => .ok ()

/-- The lines an update adds; nothing, and an empty value, delete the key. -/
def newLines (updates : List (String × Option String)) : List (List Char) :=
  updates.filterMap fun u => match u.2 with
    | some value => if value = "" then none else some (u.1.toList ++ '=' :: value.toList)
    | none => none

/-- `update_env_values`, as far as the text of the file goes: the file afterwards. -/
def updateEnvValues (updates : List (String × Option String)) (file : Option String) :
    Except CredentialFault (Option String) :=
  if updates = [] then .ok file
  else do
    checkUpdates updates
    let existing := (file.map splitlines).getD []
    checkOwner updates existing
    let kept ← keptLines (updates.map Prod.fst) 1 existing
    pure (some (joinLines (kept ++ newLines updates)))

/-- The environment follows: `os.environ[key] = value`, or `pop` for nothing. -/
def applyUpdates (updates : List (String × Option String)) (environ : Environ) : Environ :=
  updates.foldl (fun e u => match u.2 with
    | some value => e.put u.1 value
    | none => e.del u.1) environ

/-! ## Davets -/

/-- `room_env_key`: every other character becomes `_`. -/
def roomEnvKey (room : String) : String :=
  "DAVET_" ++ String.ofList (room.toList.map fun c => if isKeyChar c then c else '_')

/-- `os.environ.get("ROOM_TOKEN", "")`, the legacy building key. -/
def legacyToken (environ : Environ) : String := (environ.get "ROOM_TOKEN").getD ""

/-- `token_for_room`. -/
def tokenForRoom (environ : Environ) (room : String) : String :=
  ((environ.get (roomEnvKey room)).filter fun token => token ≠ "").getD (legacyToken environ)

/-! ## Lines -/

section CutLines

variable {brk : Char → Bool}

/-- No line holds a break. -/
theorem cutLines_unbroken {afterReturn : Bool} {line text : List Char}
    (hline : ∀ c ∈ line, brk c = false) :
    ∀ l ∈ cutLines brk afterReturn line text, ∀ c ∈ l, brk c = false := by
  induction text generalizing afterReturn line with
  | nil =>
      intro l hl
      simp only [cutLines] at hl
      split at hl
      · cases hl
      · rw [List.mem_singleton.mp hl]
        exact hline
  | cons c text ih =>
      intro l hl
      simp only [cutLines] at hl
      split at hl
      · exact ih hline l hl
      split at hl
      · rcases List.mem_cons.mp hl with rfl | hl
        · exact hline
        · exact ih (by simp) l hl
      · next hc =>
          refine ih (fun d hd => ?_) l hl
          rcases List.mem_append.mp hd with hd | hd
          · exact hline d hd
          · rw [List.mem_singleton.mp hd]
            simpa using hc

theorem cutLines_line (hn : brk '\n' = true) {line l : List Char} (hl : ∀ c ∈ l, brk c = false)
    (text : List Char) :
    cutLines brk false line (l ++ '\n' :: text) = (line ++ l) :: cutLines brk false [] text := by
  induction l generalizing line with
  | nil => simp [cutLines, hn]
  | cons c l ih =>
      have hc : brk c = false := hl c List.mem_cons_self
      simp only [List.cons_append, cutLines, Bool.false_and, Bool.false_eq_true, if_false, hc]
      rw [ih fun d hd => hl d (List.mem_cons_of_mem _ hd), List.append_assoc, List.singleton_append]

/-- Lines that are written out are read back. -/
theorem cutLines_join (hn : brk '\n' = true) {lines : List (List Char)}
    (h : ∀ l ∈ lines, ∀ c ∈ l, brk c = false) :
    cutLines brk false [] (lines.flatMap fun line => line ++ ['\n']) = lines := by
  induction lines with
  | nil => rfl
  | cons l lines ih =>
      have hsplit : ((l :: lines).flatMap fun line => line ++ ['\n']) =
          l ++ '\n' :: lines.flatMap fun line => line ++ ['\n'] := by simp
      rw [hsplit, cutLines_line hn (h l List.mem_cons_self), List.nil_append,
        ih fun d hd => h d (List.mem_cons_of_mem _ hd)]

end CutLines

/-- Every line break of the text is one to the file iterator too. -/
def Ordinary (text : String) : Prop :=
  ∀ c ∈ text.toList, isLineBreak c = true → isNewline c = true

instance (text : String) : Decidable (Ordinary text) :=
  List.decidableBAll (fun c => isLineBreak c = true → isNewline c = true) text.toList

theorem isLineBreak_of_isNewline {c : Char} (h : isNewline c = true) : isLineBreak c = true := by
  simp [isLineBreak, h]

theorem splitlines_eq_readLines {text : String} (h : Ordinary text) : splitlines text = readLines text := by
  have hgen : ∀ (chars : List Char) (afterReturn : Bool) (line : List Char),
      (∀ c ∈ chars, isLineBreak c = true → isNewline c = true) →
      cutLines isLineBreak afterReturn line chars = cutLines isNewline afterReturn line chars := by
    intro chars
    induction chars with
    | nil => exact fun _ _ _ => rfl
    | cons c chars ih =>
        intro afterReturn line hc
        have hbreak : isLineBreak c = isNewline c :=
          Bool.eq_iff_iff.mpr ⟨hc c List.mem_cons_self, isLineBreak_of_isNewline⟩
        have hrest := fun d hd => hc d (List.mem_cons_of_mem _ hd)
        simp only [cutLines, hbreak, ih _ _ hrest]
  exact hgen _ _ _ h

theorem splitlines_unbroken {text : String} : ∀ l ∈ splitlines text, ∀ c ∈ l, isLineBreak c = false :=
  cutLines_unbroken (by simp)

theorem readLines_joinLines {lines : List (List Char)} (h : ∀ l ∈ lines, ∀ c ∈ l, isLineBreak c = false) :
    readLines (joinLines lines) = lines := by
  rw [readLines, joinLines, String.toList_ofList]
  refine cutLines_join rfl fun l hl c hc => ?_
  by_contra hn
  have := isLineBreak_of_isNewline (c := c) (by simpa using hn)
  rw [h l hl c hc] at this
  cases this

theorem ordinary_joinLines {lines : List (List Char)} (h : ∀ l ∈ lines, ∀ c ∈ l, isLineBreak c = false) :
    Ordinary (joinLines lines) := by
  intro c hc hbreak
  rw [joinLines, String.toList_ofList] at hc
  obtain ⟨l, hl, hc⟩ := List.mem_flatMap.mp hc
  rcases List.mem_append.mp hc with hc | hc
  · rw [h l hl c hc] at hbreak
    cases hbreak
  · rw [List.mem_singleton.mp hc]
    rfl

/-! ## Stripping -/

theorem strip_of_ends {l : List Char} (hfirst : ∀ c ∈ l.head?, isSpace c = false)
    (hlast : ∀ c ∈ l.getLast?, isSpace c = false) : strip l = l := by
  have hdrop : ∀ m : List Char, (∀ c ∈ m.head?, isSpace c = false) → m.dropWhile isSpace = m := by
    intro m hm
    cases m with
    | nil => rfl
    | cons c m => exact List.dropWhile_cons_of_neg (by simp [hm c rfl])
  rw [strip, hdrop l hfirst, hdrop _ (by simpa using hlast), List.reverse_reverse]

/-- What stripping leaves as it is has no white end. -/
theorem ends_of_strip {l : List Char} (h : strip l = l) :
    (∀ c ∈ l.head?, isSpace c = false) ∧ ∀ c ∈ l.getLast?, isSpace c = false := by
  have hhead : ∀ m : List Char, m.dropWhile isSpace = m → ∀ c ∈ m.head?, isSpace c = false := by
    intro m hm c hc
    cases m with
    | nil => cases hc
    | cons d m =>
        have hfirst := List.dropWhile_eq_self_iff.mp hm (Nat.succ_pos _)
        obtain rfl := Option.some.inj hc
        simpa using hfirst
  have hlen := congrArg List.length h
  rw [strip, List.length_reverse] at hlen
  have hback := ((l.dropWhile isSpace).reverse.dropWhile_suffix isSpace).length_le
  have hfront := (l.dropWhile_suffix isSpace).length_le
  rw [List.length_reverse] at hback
  have hl : l.dropWhile isSpace = l := (l.dropWhile_suffix isSpace).eq_of_length (by omega)
  rw [hl] at hlen
  have hr : l.reverse.dropWhile isSpace = l.reverse :=
    (l.reverse.dropWhile_suffix isSpace).eq_of_length (by rw [List.length_reverse]; exact hlen)
  exact ⟨hhead l hl, by simpa using hhead l.reverse hr⟩

/-- What is stripped away is white. -/
theorem exists_strip (l : List Char) :
    ∃ a b, l = a ++ strip l ++ b ∧ (∀ c ∈ a, isSpace c = true) ∧ ∀ c ∈ b, isSpace c = true := by
  refine ⟨l.takeWhile isSpace, ((l.dropWhile isSpace).reverse.takeWhile isSpace).reverse, ?_, ?_, ?_⟩
  · have hback : strip l ++ ((l.dropWhile isSpace).reverse.takeWhile isSpace).reverse =
        l.dropWhile isSpace := by
      rw [strip, ← List.reverse_append, List.takeWhile_append_dropWhile, List.reverse_reverse]
    rw [List.append_assoc, hback, List.takeWhile_append_dropWhile]
  · exact fun c hc => List.mem_takeWhile_imp hc
  · exact fun c hc => List.mem_takeWhile_imp (List.mem_reverse.mp hc)

theorem strip_white_append {a : List Char} (ha : ∀ c ∈ a, isSpace c = true) (l : List Char) :
    strip (a ++ l) = strip l := by
  have hdrop : (a ++ l).dropWhile isSpace = l.dropWhile isSpace := by
    induction a with
    | nil => rfl
    | cons c a ih =>
        rw [List.cons_append, List.dropWhile_cons_of_pos (ha c List.mem_cons_self)]
        exact ih fun d hd => ha d (List.mem_cons_of_mem _ hd)
  rw [strip, hdrop, strip]

/-- The key of a line does not depend on what surrounds the line. -/
theorem lineKey_strip {l : List Char} (h : '=' ∈ l) : lineKey (strip l) = lineKey l := by
  obtain ⟨a, b, hl, ha, hb⟩ := exists_strip l
  have hwhite : ∀ c, isSpace c = true → c ≠ '=' := by
    rintro c hc rfl
    exact absurd hc (by decide)
  have hcore : '=' ∈ strip l := by
    rw [hl] at h
    simp only [List.mem_append] at h
    rcases h with (h | h) | h
    · exact absurd rfl (hwhite _ (ha _ h))
    · exact h
    · exact absurd rfl (hwhite _ (hb _ h))
  have hshort : ¬((strip l).takeWhile fun c => c ≠ '=').length = (strip l).length := by
    intro hlen
    have hall := (List.takeWhile_prefix fun c => decide (c ≠ '=')).eq_of_length hlen
    have := List.takeWhile_eq_self_iff.mp hall _ hcore
    simp at this
  have hpart : (l.takeWhile fun c => c ≠ '=') = a ++ (strip l).takeWhile fun c => c ≠ '=' := by
    conv_lhs => rw [hl, List.append_assoc]
    rw [List.takeWhile_append_of_pos fun c hc => by simpa using hwhite c (ha c hc),
      List.takeWhile_append, if_neg hshort]
  rw [lineKey, lineKey, hpart, strip_white_append ha]

theorem contains_strip {l : List Char} : (strip l).contains '=' = l.contains '=' := by
  obtain ⟨a, b, hl, ha, hb⟩ := exists_strip l
  have hwhite : ∀ w : List Char, (∀ c ∈ w, isSpace c = true) → w.contains '=' = false := by
    intro w hw
    by_contra hc
    have := hw _ (List.contains_iff_mem.mp (by simpa using hc))
    exact absurd this (by decide)
  conv_rhs => rw [hl]
  rw [List.contains_append, List.contains_append, hwhite a ha, hwhite b hb, Bool.false_or,
    Bool.or_false]

/-! ## What the lines of a file bind -/

/-- The line binds this, or nothing, whatever its number. -/
def Binds (line : List Char) (binding : Option (String × String)) : Prop :=
  ∀ number, parseLine number line = .ok binding

theorem binds_of_parseLine {number : Nat} {line : List Char} {binding : Option (String × String)}
    (h : parseLine number line = .ok binding) : Binds line binding := by
  intro other
  unfold parseLine at h ⊢
  dsimp only at h ⊢
  split
  · next hi => rwa [if_pos hi] at h
  · next hi =>
      rw [if_neg hi] at h
      simp only [literalEnvValue, bind_ok, require_ok, pure_ok, exists_const] at h ⊢
      exact h

/-- A line that binds something, taken apart. -/
theorem Binds.some {line : List Char} {b : String × String} (h : Binds line (some b)) :
    isIdle line = false ∧ line.contains '=' = true ∧ lineKey line = b.1 ∧ isBoundKey b.1 = true := by
  have h := h 0
  unfold parseLine at h
  dsimp only at h
  split at h
  · cases h
  · next hi =>
      simp only [bind_ok, require_ok, pure_ok, exists_const, Option.some.injEq] at h
      obtain ⟨hc, hk, value, -, rfl⟩ := h
      rw [contains_strip] at hc
      have hkey := lineKey_strip (List.contains_iff_mem.mp hc)
      exact ⟨by simpa using hi, hc, hkey.symm, hk⟩

theorem Binds.none {line : List Char} (h : Binds line none) : isIdle line = true := by
  have h := h 0
  unfold parseLine at h
  dsimp only at h
  split at h
  · assumption
  · simp only [bind_ok, require_ok, pure_ok, exists_const] at h
    obtain ⟨-, -, value, -, h⟩ := h
    cases h

/-- The lines bind these keys and values, in order. -/
inductive Bound : List (List Char) → List (String × String) → Prop
  | nil : Bound [] []
  | cons {line : List Char} {lines : List (List Char)} {binding : Option (String × String)}
      {bindings : List (String × String)} : Binds line binding → Bound lines bindings →
      Bound (line :: lines) (binding.toList ++ bindings)

theorem parseLines_ok {number : Nat} {lines : List (List Char)} {bindings : List (String × String)} :
    parseLines number lines = .ok bindings ↔ Bound lines bindings := by
  induction lines generalizing number bindings with
  | nil =>
      simp only [parseLines, Except.ok.injEq]
      exact ⟨fun h => h ▸ .nil, fun h => by cases h; rfl⟩
  | cons line lines ih =>
      simp only [parseLines, bind_ok, pure_ok]
      constructor
      · rintro ⟨binding, hb, rest, hr, rfl⟩
        exact .cons (binds_of_parseLine hb) (ih.mp hr)
      · rintro (_ | ⟨hb, hr⟩)
        exact ⟨_, hb number, _, ih.mpr hr, rfl⟩

theorem Bound.append {lines more : List (List Char)} {bs cs : List (String × String)}
    (h : Bound lines bs) (h' : Bound more cs) : Bound (lines ++ more) (bs ++ cs) := by
  induction h with
  | nil => exact h'
  | cons hb _ ih =>
      rw [List.append_assoc]
      exact .cons hb ih

theorem Bound.isBoundKey {lines : List (List Char)} {bs : List (String × String)} (h : Bound lines bs) :
    ∀ b ∈ bs, isBoundKey b.1 = true := by
  induction h with
  | nil => nofun
  | @cons _ _ binding _ hb _ ih =>
      intro b hmem
      rcases List.mem_append.mp hmem with hmem | hmem
      · obtain rfl := Option.mem_toList.mp hmem
        exact hb.some.2.2.2
      · exact ih b hmem

/-- An update keeps the lines of the other keys. -/
theorem Bound.kept {updated : List String} {number : Nat} {lines kept : List (List Char)}
    {bs : List (String × String)} (h : Bound lines bs) (hk : keptLines updated number lines = .ok kept) :
    Bound kept (bs.filter fun b => !updated.contains b.1) ∧ ∀ l ∈ kept, l ∈ lines := by
  induction h generalizing number kept with
  | nil =>
      simp only [keptLines, Except.ok.injEq] at hk
      subst hk
      exact ⟨.nil, fun _ h => h⟩
  | @cons line lines binding bs hb _ ih =>
      rw [List.filter_append]
      cases binding with
      | none =>
          simp only [keptLines, hb.none, if_true, bind_ok, pure_ok] at hk
          obtain ⟨rest, hrest, rfl⟩ := hk
          obtain ⟨hbound, hmem⟩ := ih hrest
          exact ⟨.cons hb hbound, List.forall_mem_cons.mpr
            ⟨List.mem_cons_self, fun l hl => List.mem_cons_of_mem _ (hmem l hl)⟩⟩
      | some b =>
          obtain ⟨hidle, -, hkey, -⟩ := hb.some
          simp only [keptLines, hidle, Bool.false_eq_true, if_false, bind_ok, require_ok, pure_ok,
            exists_const, hkey] at hk
          obtain ⟨-, -, rest, hrest, rfl⟩ := hk
          obtain ⟨hbound, hmem⟩ := ih hrest
          by_cases hu : updated.contains b.1 = true
          · rw [if_pos hu]
            have hgone : ((some b).toList.filter fun b => !updated.contains b.1) = [] := by
              simpa using hu
            rw [hgone]
            exact ⟨hbound, fun l hl => List.mem_cons_of_mem _ (hmem l hl)⟩
          · rw [if_neg hu]
            refine ⟨?_, List.forall_mem_cons.mpr
              ⟨List.mem_cons_self, fun l hl => List.mem_cons_of_mem _ (hmem l hl)⟩⟩
            have hthis : ((some b).toList.filter fun b => !updated.contains b.1) = (some b).toList := by
              simpa using hu
            rw [hthis]
            exact .cons hb hbound

/-! ## What an update adds -/

/-- A value that reads back as it was written: key characters only. -/
def PlainValue (value : String) : Prop := value ≠ "" ∧ ∀ c ∈ value.toList, isKeyChar c = true

instance (value : String) : Decidable (PlainValue value) :=
  @instDecidableAnd _ _ _ (List.decidableBAll _ _)

theorem isNameChar_of_isKeyChar {c : Char} (h : isKeyChar c = true) :
    Adapter.isNameChar c = true := by
  simp only [isKeyChar, Bool.or_eq_true, decide_eq_true_eq] at h
  simp only [Adapter.isNameChar, Bool.or_eq_true, decide_eq_true_eq]
  exact .inl h

/-- A key character is no white space, no break, no quote and no sign the file uses. -/
theorem keyChar_inert {c : Char} (h : isKeyChar c = true) :
    isSpace c = false ∧ isLineBreak c = false ∧ c ≠ '=' ∧ c ≠ '#' ∧ c ≠ '"' ∧ c ≠ '\'' ∧ 32 ≤ c.toNat :=
  Words.ascii_rule (P := fun c => isKeyChar c = true → isSpace c = false ∧ isLineBreak c = false ∧
    c ≠ '=' ∧ c ≠ '#' ∧ c ≠ '"' ∧ c ≠ '\'' ∧ 32 ≤ c.toNat) (by decide +kernel)
    (ascii_of_isNameChar (isNameChar_of_isKeyChar h)) h

theorem strip_of_keyChars {l : List Char} (h : ∀ c ∈ l, isKeyChar c = true) : strip l = l :=
  strip_of_ends (fun c hc => (keyChar_inert (h c (List.mem_of_mem_head? hc))).1)
    fun c hc => (keyChar_inert (h c (List.mem_of_mem_getLast? hc))).1

theorem hasPrefix_davet {key : String} :
    isDavetKey key = true ↔ ∃ rest, key = "DAVET_" ++ rest := Text.hasPrefix_iff

theorem isBoundKey_chars {key : String} (h : isBoundKey key = true) :
    key ≠ "" ∧ ∀ c ∈ key.toList, isKeyChar c = true := by
  simp only [isBoundKey, Bool.or_eq_true, Bool.and_eq_true] at h
  rcases h with h | ⟨⟨hd, -⟩, hall⟩
  · have hfixed : ∀ k ∈ boundKeys, k ≠ "" ∧ k.toList.all isKeyChar = true := by decide
    obtain ⟨hne, hall⟩ := hfixed key (List.contains_iff_mem.mp h)
    exact ⟨hne, List.all_eq_true.mp hall⟩
  · obtain ⟨rest, rfl⟩ := hasPrefix_davet.mp hd
    have hsplit : ("DAVET_" ++ rest).toList = "DAVET_".toList ++ rest.toList := String.toList_append
    refine ⟨fun he => ?_, fun c hc => ?_⟩
    · rw [he] at hsplit
      cases hsplit
    · have hfixed : ∀ c ∈ "DAVET_".toList, isKeyChar c = true := List.all_eq_true.mp (by decide)
      rw [hsplit] at hall hc
      rcases List.mem_append.mp hc with hc | hc
      · exact hfixed c hc
      · exact List.all_eq_true.mp hall c (by simpa using hc)

/-- A value that the reader takes as it stands: no white ends, no quotes around it, no break in it and no control
character but the tab. -/
structure Literal (value : String) : Prop where
  trimmed : strip value.toList = value.toList
  bare : unquote value.toList = value.toList
  printable : ∀ c ∈ value.toList, isLineBreak c = false ∧ (c.toNat < 32 → c = '\t')

instance (value : String) : Decidable (Literal value) :=
  have : Decidable (∀ c ∈ value.toList, isLineBreak c = false ∧ (c.toNat < 32 → c = '\t')) := List.decidableBAll _ _
  decidable_of_iff (strip value.toList = value.toList ∧ unquote value.toList = value.toList ∧
      ∀ c ∈ value.toList, isLineBreak c = false ∧ (c.toNat < 32 → c = '\t'))
    ⟨fun h => ⟨h.1, h.2.1, h.2.2⟩, fun h => ⟨h.trimmed, h.bare, h.printable⟩⟩

theorem PlainValue.literal {value : String} (h : PlainValue value) : Literal value := by
  have hin := fun c hc => keyChar_inert (h.2 c hc)
  refine ⟨strip_of_keyChars h.2, ?_, fun c hc => ⟨(hin c hc).2.1, fun hlow => ?_⟩⟩
  · obtain ⟨d, rest, hd⟩ := List.exists_cons_of_ne_nil fun he => h.1 (String.toList_eq_nil_iff.mp he)
    have hfirst := hin d (by rw [hd]; exact List.mem_cons_self)
    simp [unquote, hd, hfirst.2.2.2.2.1, hfirst.2.2.2.2.2.1]
  · have := (hin c hc).2.2.2.2.2.2
    omega

/-- The reader takes a value as it stands exactly when stripping and unquoting leave it and it holds no control
character but the tab. -/
theorem literalEnvValue_self {value : String} {number : Nat} (h : Literal value) :
    literalEnvValue value.toList number = .ok value := by
  have hcontrol : (value.toList.any fun c => decide (c.toNat < 32) && decide (c ≠ '\t')) = false := by
    rw [List.any_eq_false]
    intro c hc
    have := (h.printable c hc).2
    simpa using this
  simp only [literalEnvValue, h.trimmed, h.bare, hcontrol, String.ofList_toList]
  rfl

/-- The line of a key and such a value binds them. -/
theorem binds_line {key value : String} (hk : isBoundKey key = true) (hv : Literal value) (hvne : value ≠ "") :
    Binds (key.toList ++ '=' :: value.toList) (some (key, value)) := by
  obtain ⟨hne, hkey⟩ := isBoundKey_chars hk
  have hvlist : value.toList ≠ [] := fun h => hvne (String.toList_eq_nil_iff.mp h)
  obtain ⟨c, krest, hc⟩ : ∃ c rest, key.toList = c :: rest :=
    List.exists_cons_of_ne_nil fun h => hne (String.toList_eq_nil_iff.mp h)
  have hfirst : isKeyChar c = true := hkey c (by rw [hc]; exact List.mem_cons_self)
  have hstrip : strip (key.toList ++ '=' :: value.toList) = key.toList ++ '=' :: value.toList := by
    refine strip_of_ends (fun d hd => ?_) fun d hd => ?_
    · rw [hc, List.cons_append, List.head?_cons, Option.mem_some_iff] at hd
      exact hd ▸ (keyChar_inert hfirst).1
    · rw [List.getLast?_append_of_ne_nil _ (List.cons_ne_nil _ _), List.getLast?_cons,
        List.getLast?_eq_some_getLast hvlist, Option.getD_some, Option.mem_some_iff] at hd
      refine (ends_of_strip hv.trimmed).2 d ?_
      rw [List.getLast?_eq_some_getLast hvlist, hd]
      rfl
  have hidle : isIdle (key.toList ++ '=' :: value.toList) = false := by
    rw [isIdle, hstrip, hc]
    simp [(keyChar_inert hfirst).2.2.2.1]
  have hequals : ∀ d ∈ key.toList, decide (d ≠ '=') = true := fun d hd => by
    simpa using (keyChar_inert (hkey d hd)).2.2.1
  have hbefore : lineKey (key.toList ++ '=' :: value.toList) = key := by
    rw [lineKey, List.takeWhile_append_of_pos hequals, List.takeWhile_cons_of_neg (by simp),
      List.append_nil, strip_of_keyChars hkey, String.ofList_toList]
  have hafter : ((key.toList ++ '=' :: value.toList).dropWhile fun d => d ≠ '=').tail =
      value.toList := by
    rw [List.dropWhile_append_of_pos hequals, List.dropWhile_cons_of_neg (by simp), List.tail_cons]
  intro number
  simp only [parseLine, hstrip, hidle, hbefore, hafter, literalEnvValue_self hv]
  simp [hk, require]

/-! ## Before and after an update -/

/-- What stands under a key after an update. -/
def updated (updates : List (String × Option String)) (key : String) (old : Option String) :
    Option String :=
  match updates.find? fun u => u.1 = key with
  | some u => u.2
  | none => old

theorem updated_cons (u : String × Option String) (updates : List (String × Option String))
    (key : String) (old : Option String) :
    updated (u :: updates) key old = if u.1 = key then u.2 else updated updates key old := by
  by_cases h : u.1 = key <;> simp [updated, h]

theorem updated_of_not_mem {updates : List (String × Option String)} {key : String}
    (h : key ∉ updates.map Prod.fst) (old : Option String) : updated updates key old = old := by
  induction updates with
  | nil => rfl
  | cons u updates ih =>
      rw [List.map_cons, List.mem_cons, not_or] at h
      rw [updated_cons, if_neg fun he => h.1 he.symm, ih h.2]

theorem updated_of_mem {updates : List (String × Option String)} {key : String}
    (h : key ∈ updates.map Prod.fst) (old old' : Option String) :
    updated updates key old = updated updates key old' := by
  induction updates with
  | nil => cases h
  | cons u updates ih =>
      rw [updated_cons, updated_cons]
      by_cases hu : u.1 = key
      · rw [if_pos hu, if_pos hu]
      · rw [if_neg hu, if_neg hu]
        exact ih ((List.mem_cons.mp h).resolve_left fun he => hu he.symm)

theorem get_applyUpdates {updates : List (String × Option String)}
    (hu : (updates.map Prod.fst).Nodup) (environ : Environ) (key : String) :
    (applyUpdates updates environ).get key = updated updates key (environ.get key) := by
  induction updates generalizing environ with
  | nil => rfl
  | cons u updates ih =>
      rw [List.map_cons, List.nodup_cons] at hu
      rw [applyUpdates, List.foldl_cons, ← applyUpdates, ih hu.2, updated_cons]
      by_cases hk : u.1 = key
      · rw [if_pos hk, updated_of_not_mem (hk ▸ hu.1)]
        cases u.2 with
        | none => rw [Assoc.get_del, if_pos hk.symm]
        | some v => rw [Assoc.get_put, if_pos hk.symm]
      · rw [if_neg hk]
        cases u.2 with
        | none => rw [Assoc.get_del, if_neg fun he => hk he.symm]
        | some v => rw [Assoc.get_put, if_neg fun he => hk he.symm]

theorem bindAll_cons (b : String × String) (bs : List (String × String)) (environ : Environ) :
    bindAll (b :: bs) environ = bindAll bs (environ.put b.1 b.2) := rfl

theorem get_bindAll (bs : List (String × String)) (environ : Environ) (key : String) :
    (bindAll bs environ).get key = ((bindAll bs ∅).get key).or (environ.get key) := by
  induction bs generalizing environ with
  | nil => rfl
  | cons b bs ih =>
      rw [bindAll_cons, ih, bindAll_cons, ih (Assoc.put b.1 b.2 ∅), Option.or_assoc]
      congr 1
      rw [Assoc.get_put, Assoc.get_put]
      split <;> rfl

theorem get_bindAll_cons (b : String × String) (bs : List (String × String)) (key : String) :
    (bindAll (b :: bs) ∅).get key =
      ((bindAll bs ∅).get key).or (if key = b.1 then some b.2 else none) := by
  rw [bindAll_cons, get_bindAll, Assoc.get_put]
  rfl

theorem get_bindAll_append (bs cs : List (String × String)) (key : String) :
    (bindAll (bs ++ cs) ∅).get key = ((bindAll cs ∅).get key).or ((bindAll bs ∅).get key) := by
  rw [bindAll, List.foldl_append, ← bindAll, ← bindAll, get_bindAll]

theorem get_bindAll_filter (keys : List String) (bs : List (String × String)) (key : String) :
    (bindAll (bs.filter fun b => !keys.contains b.1) ∅).get key =
      if key ∈ keys then none else (bindAll bs ∅).get key := by
  induction bs with
  | nil => simp [bindAll]
  | cons b bs ih =>
      by_cases hb : b.1 ∈ keys
      · rw [List.filter_cons_of_neg (by simpa using hb), ih, get_bindAll_cons]
        by_cases hk : key ∈ keys
        · rw [if_pos hk, if_pos hk]
        · rw [if_neg hk, if_neg hk, if_neg fun he : key = b.1 => hk (he ▸ hb),
            Option.or_none]
      · rw [List.filter_cons_of_pos (by simpa using hb), get_bindAll_cons, ih, get_bindAll_cons]
        by_cases hk : key ∈ keys
        · rw [if_pos hk, if_pos hk, if_neg fun he : key = b.1 => hb (he ▸ hk)]
          rfl
        · rw [if_neg hk, if_neg hk]

/-- Updates whose values are of key characters only. -/
structure Plain (updates : List (String × Option String)) : Prop where
  keys : (updates.map Prod.fst).Nodup
  values : ∀ u ∈ updates, ∀ value ∈ u.2, PlainValue value

/-- Updates whose lines read back as they were written. -/
structure Legible (updates : List (String × Option String)) : Prop where
  keys : (updates.map Prod.fst).Nodup
  values : ∀ u ∈ updates, ∀ value ∈ u.2, Literal value

theorem Plain.legible {updates : List (String × Option String)} (h : Plain updates) : Legible updates :=
  ⟨h.keys, fun u hu value hv => (h.values u hu value hv).literal⟩

/-- What stands under a key in the file after an update: an empty value stands for none. -/
def stands (updates : List (String × Option String)) (key : String) (old : Option String) : Option String :=
  match updates.find? fun u => u.1 = key with
  | some u => u.2.filter fun value => value ≠ ""
  | none => old

theorem stands_cons (u : String × Option String) (updates : List (String × Option String)) (key : String)
    (old : Option String) : stands (u :: updates) key old =
      if u.1 = key then u.2.filter fun value => value ≠ "" else stands updates key old := by
  by_cases h : u.1 = key <;> simp [stands, h]

theorem stands_of_not_mem {updates : List (String × Option String)} {key : String}
    (h : key ∉ updates.map Prod.fst) (old : Option String) : stands updates key old = old := by
  induction updates with
  | nil => rfl
  | cons u updates ih =>
      rw [List.map_cons, List.mem_cons, not_or] at h
      rw [stands_cons, if_neg fun he => h.1 he.symm, ih h.2]

theorem stands_of_mem {updates : List (String × Option String)} {key : String}
    (h : key ∈ updates.map Prod.fst) (old old' : Option String) : stands updates key old = stands updates key old' := by
  induction updates with
  | nil => cases h
  | cons u updates ih =>
      rw [stands_cons, stands_cons]
      by_cases hu : u.1 = key
      · rw [if_pos hu, if_pos hu]
      · rw [if_neg hu, if_neg hu]
        exact ih ((List.mem_cons.mp h).resolve_left fun he => hu he.symm)

/-- Without empty values, what stands is what was asked for. -/
theorem Plain.stands {updates : List (String × Option String)} (h : Plain updates) (key : String) (old : Option String) :
    Loca.stands updates key old = updated updates key old := by
  unfold Loca.stands updated
  split
  · next u hu =>
      cases hv : u.2 with
      | none => rfl
      | some value =>
          have hne := (h.values u (List.mem_of_find?_eq_some hu) value hv).1
          simp [Option.filter, hne]
  · rfl

theorem checkUpdates_ok {updates : List (String × Option String)} (h : checkUpdates updates = .ok ()) :
    ∀ u ∈ updates, isBoundKey u.1 = true := by
  induction updates with
  | nil => nofun
  | cons u updates ih =>
      obtain ⟨key, value⟩ := u
      simp only [checkUpdates, bind_ok, require_ok, exists_const] at h
      exact List.forall_mem_cons.mpr ⟨h.1, ih h.2.2⟩

theorem bound_newLines {updates : List (String × Option String)} (hp : Legible updates)
    (hk : ∀ u ∈ updates, isBoundKey u.1 = true) :
    ∃ bs, Bound (newLines updates) bs ∧
      (∀ l ∈ newLines updates, ∀ c ∈ l, isLineBreak c = false) ∧
      ∀ key, (bindAll bs ∅).get key = stands updates key none := by
  induction updates with
  | nil => exact ⟨[], .nil, nofun, fun _ => rfl⟩
  | cons u updates ih =>
      obtain ⟨key, value⟩ := u
      obtain ⟨hnot, hnodup⟩ := List.nodup_cons.mp hp.keys
      obtain ⟨bs, hb, hbreak, hget⟩ := ih ⟨hnodup, fun u hu => hp.values u (List.mem_cons_of_mem _ hu)⟩
        fun u hu => hk u (List.mem_cons_of_mem _ hu)
      by_cases hblank : value.filter (fun v => v ≠ "") = none
      · have hlines : newLines ((key, value) :: updates) = newLines updates := by
          cases value with
          | none => rfl
          | some v =>
              have hv : v = "" := by simpa [Option.filter] using hblank
              rw [newLines, List.filterMap_cons]
              simp only [if_pos hv]
              rfl
        rw [hlines]
        refine ⟨bs, hb, hbreak, fun other => ?_⟩
        rw [hget, stands_cons]
        by_cases he : key = other
        · rw [if_pos he, stands_of_not_mem (he ▸ hnot)]
          exact hblank.symm
        · rw [if_neg he]
      · obtain ⟨v, hv⟩ := Option.ne_none_iff_exists'.mp hblank
        obtain ⟨rfl, hne⟩ : value = some v ∧ v ≠ "" := by
          obtain ⟨hval, hne⟩ := Option.filter_eq_some_iff.mp hv
          exact ⟨hval, by simpa using hne⟩
        have hlit : Literal v := hp.values _ List.mem_cons_self v rfl
        have hkey : isBoundKey key = true := hk _ List.mem_cons_self
        have hlines : newLines ((key, some v) :: updates) = (key.toList ++ '=' :: v.toList) :: newLines updates := by
          rw [newLines, List.filterMap_cons]
          simp only [if_neg hne]
          rfl
        rw [hlines]
        refine ⟨(key, v) :: bs, .cons (binds_line hkey hlit hne) hb, ?_, fun other => ?_⟩
        · refine List.forall_mem_cons.mpr ⟨fun c hc => ?_, hbreak⟩
          rcases List.mem_append.mp hc with hc | hc
          · exact (keyChar_inert ((isBoundKey_chars hkey).2 c hc)).2.1
          · rcases List.mem_cons.mp hc with rfl | hc
            · decide
            · exact (hlit.printable c hc).1
        · rw [get_bindAll_cons, hget, stands_cons]
          by_cases he : key = other
          · rw [if_pos he, if_pos he.symm, stands_of_not_mem (he ▸ hnot)]
            exact hv.symm
          · rw [if_neg he, if_neg fun h => he h.symm, Option.or_none]

/-- The file holds these bindings, and both readers see them; no file holds none. -/
structure Holds (file : Option String) (bindings : List (String × String)) : Prop where
  ordinary : Ordinary (file.getD "")
  bound : Bound (readLines (file.getD "")) bindings

/-- Both readers cut the file alike. -/
theorem Holds.existing {file : Option String} {bs : List (String × String)} (h : Holds file bs) :
    (file.map splitlines).getD [] = readLines (file.getD "") := by
  cases file with
  | none => rfl
  | some text => exact splitlines_eq_readLines h.ordinary

/-- An update changes what the file holds at its own keys and nowhere else. -/
theorem updateEnvValues_stands {updates : List (String × Option String)} {file file' : Option String}
    {bs : List (String × String)} (hp : Legible updates) (hf : Holds file bs)
    (h : updateEnvValues updates file = .ok file') :
    ∃ bs', Holds file' bs' ∧
      ∀ key, (bindAll bs' ∅).get key = stands updates key ((bindAll bs ∅).get key) := by
  have hexisting := hf.existing
  obtain ⟨hord, hbound⟩ := hf
  unfold updateEnvValues at h
  split at h
  · next hnil =>
      subst hnil
      obtain rfl := Except.ok.inj h
      exact ⟨bs, ⟨hord, hbound⟩, fun _ => rfl⟩
  · simp only [bind_ok, pure_ok, hexisting] at h
    obtain ⟨⟨⟩, hc, -, -, kept, hk, rfl⟩ := h
    obtain ⟨hkept, hmem⟩ := hbound.kept hk
    obtain ⟨news, hnew, hbreak, hget⟩ := bound_newLines hp (checkUpdates_ok hc)
    have hunbroken : ∀ l ∈ kept ++ newLines updates, ∀ c ∈ l, isLineBreak c = false := by
      intro l hl
      rcases List.mem_append.mp hl with hl | hl
      · exact splitlines_unbroken l (splitlines_eq_readLines hord ▸ hmem l hl)
      · exact hbreak l hl
    refine ⟨(bs.filter fun b => !(updates.map Prod.fst).contains b.1) ++ news,
      ⟨ordinary_joinLines hunbroken, ?_⟩, fun key => ?_⟩
    · rw [Option.getD_some, readLines_joinLines hunbroken]
      exact hkept.append hnew
    · rw [get_bindAll_append, hget, get_bindAll_filter]
      by_cases hkey : key ∈ updates.map Prod.fst
      · rw [if_pos hkey, Option.or_none]
        exact stands_of_mem hkey _ _
      · rw [if_neg hkey, stands_of_not_mem hkey, stands_of_not_mem hkey, Option.none_or]

/-- The same of values that are of key characters only. -/
theorem updateEnvValues_spec {updates : List (String × Option String)} {file file' : Option String}
    {bs : List (String × String)} (hp : Plain updates) (hf : Holds file bs)
    (h : updateEnvValues updates file = .ok file') :
    ∃ bs', Holds file' bs' ∧
      ∀ key, (bindAll bs' ∅).get key = updated updates key ((bindAll bs ∅).get key) := by
  obtain ⟨bs', hf', hget⟩ := updateEnvValues_stands hp.legible hf h
  exact ⟨bs', hf', fun key => (hget key).trans (hp.stands key _)⟩

/-! ## A process and its file -/

/-- The process holds what its file says, as after `load_local_env`. -/
def Agent.Loaded (a : Agent) : Prop :=
  ∃ bs, Holds a.file bs ∧ ∀ key, isBoundKey key = true → a.environ.get key = (bindAll bs ∅).get key

/-- What a load leaves in the environment. -/
theorem loadLocalEnv_get {name : Option String} {a : Agent} {environ : Environ}
    {bs : List (String × String)} (hf : Holds a.file bs) (h : loadLocalEnv name a = .ok environ)
    {key : String} (hk : isBoundKey key = true) : environ.get key = (bindAll bs ∅).get key := by
  have hcleared : (a.environ.retain fun key _ => !isBoundKey key).get key = none := by
    rw [Assoc.get_retain]
    simp [hk]
  have hbound := hf.bound
  unfold loadLocalEnv at h
  dsimp only at h
  cases hfile : a.file with
  | none =>
      rw [hfile] at h hbound
      obtain rfl := Except.ok.inj h
      cases hbound
      exact hcleared
  | some text =>
      rw [hfile] at h hbound
      simp only [bind_ok, require_ok, pure_ok, exists_const] at h
      obtain ⟨cs, hcs, -, rfl⟩ := h
      obtain rfl : cs = bs := Except.ok.inj (hcs.symm.trans (parseLines_ok.mpr hbound))
      rw [get_bindAll, hcleared, Option.or_none]

/-- A file that holds anything can be loaded, for the identity it belongs to or for nobody in
particular. -/
theorem exists_loadLocalEnv {a : Agent} {bs : List (String × String)} (hf : Holds a.file bs) :
    ∃ environ, loadLocalEnv none a = .ok environ := by
  have hbound := hf.bound
  cases hfile : a.file with
  | none => exact ⟨a.environ.retain fun key _ => !isBoundKey key, by rw [loadLocalEnv, hfile]⟩
  | some text =>
      rw [hfile] at hbound
      have hparse : parseLines 1 (readLines text) = .ok bs := parseLines_ok.mpr hbound
      refine ⟨bindAll bs (a.environ.retain fun key _ => !isBoundKey key), ?_⟩
      simp only [loadLocalEnv, hfile, hparse, ok_bind, Option.getD_none]
      simp [require, pure, Except.pure]

/-- A process stays in step with its file when both follow one update. -/
theorem Agent.Loaded.update {a : Agent} (h : a.Loaded) {updates : List (String × Option String)}
    (hp : Plain updates) {file' : Option String} (hu : updateEnvValues updates a.file = .ok file') :
    (Agent.mk (applyUpdates updates a.environ) file').Loaded := by
  obtain ⟨bs, hf, hget⟩ := h
  obtain ⟨bs', hf', hget'⟩ := updateEnvValues_spec hp hf hu
  refine ⟨bs', hf', fun key hk => ?_⟩
  rw [get_applyUpdates hp.keys, hget key hk, hget' key]

end Loca
