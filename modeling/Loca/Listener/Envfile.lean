/-
# `Loca.Listener.Envfile` — what a credential file keeps through a run of updates

`update_env_values` writes what `load_local_env` reads, and cuts the old text with `splitlines`, which the
loader does not.  Writer, cutter and loader agree on values that the loader takes as they stand (`Literal`):
no white ends, no quotes around the value, no break of `splitlines`, no control character but the tab.

A file that loads and has ordinary breaks goes through any run of such updates: each sets its own keys and
no others, keeps the comments in their order, and is refused only where it would put another identity's
name over the one the file has.  An error leaves the file, unless the disk reports it after the file was
replaced.
-/
import Loca.Listener.Cache

namespace Loca

open Check

/-! ## Calls -/

/-- One call of `update_env_values`, and what the disk makes of it. -/
structure Rewrite where
  updates : List (String × Option String)
  disk : Disk

/-- The file is replaced as a whole; nothing is written for no updates. -/
def rewriteFile (file : Option String) (c : Rewrite) : Except CredentialFault Unit × Option String :=
  if c.updates = [] then (.ok (), file)
  else match c.disk, updateEnvValues c.updates file with
    | .failsBefore, _ => (.error .os, file)
    | _, .error e => (.error e, file)
    | .failsAfter, .ok file' => (.error .os, file')
    | .works, .ok file' => (.ok (), file')

/-- A dict of bound keys, and of values that `_validate_write_value` lets through. -/
structure Accepted (updates : List (String × Option String)) : Prop where
  keys : (updates.map Prod.fst).Nodup
  checked : checkUpdates updates = .ok ()

instance (updates : List (String × Option String)) : Decidable (Accepted updates) :=
  decidable_of_iff ((updates.map Prod.fst).Nodup ∧ checkUpdates updates = .ok ())
    ⟨fun h => ⟨h.1, h.2⟩, fun h => ⟨h.keys, h.checked⟩⟩

/-- The update names an identity, and the file names another. -/
def NamesAnother (updates : List (String × Option String)) (file : Option String) : Prop :=
  ∃ target current, (updates.find? fun u => u.1 = "LOCA_NAME").bind Prod.snd = some target ∧
    ownerOf ((file.map splitlines).getD []) = some current ∧ target ≠ "" ∧ current ≠ "" ∧ current ≠ target

/-- The file's comments, in order. -/
def isComment (line : List Char) : Bool := (strip line).head? = some '#'

def comments (file : Option String) : List (List Char) := (readLines (file.getD "")).filter isComment

/-! ## One update -/

section

variable {updates : List (String × Option String)} {file file' : Option String} {bs : List (String × String)}

theorem checkOwner_ok : checkOwner updates ((file.map splitlines).getD []) = .ok () ↔ ¬ NamesAnother updates file := by
  unfold checkOwner NamesAnother
  split
  · next target current ht hc =>
      rw [require_ok]
      constructor
      · rintro h ⟨target', current', ht', hc', hne⟩
        obtain rfl : target = target' := Option.some.inj (ht.symm.trans ht')
        obtain rfl : current = current' := Option.some.inj (hc.symm.trans hc')
        exact h hne
      · exact fun h hne => h ⟨target, current, ht, hc, hne⟩
  · next hno =>
      refine ⟨fun _ => ?_, fun _ => rfl⟩
      rintro ⟨target, current, ht, hc, -⟩
      exact hno target current ht hc

/-- The lines of a file that loads can all be kept. -/
theorem Bound.exists_kept {lines : List (List Char)} (h : Bound lines bs) (updated : List String) (number : Nat) :
    ∃ kept, keptLines updated number lines = .ok kept := by
  induction h generalizing number with
  | nil => exact ⟨[], rfl⟩
  | @cons line lines binding bs hb _ ih =>
      obtain ⟨rest, hrest⟩ := ih (number + 1)
      cases binding with
      | none =>
          refine ⟨line :: rest, ?_⟩
          simp only [keptLines, hb.none, if_true, hrest, bind_ok, pure_ok]
          exact ⟨rest, rfl, rfl⟩
      | some b =>
          obtain ⟨hidle, heq, hkey, hbound⟩ := hb.some
          refine ⟨if updated.contains b.1 then rest else line :: rest, ?_⟩
          simp only [keptLines, hidle, Bool.false_eq_true, if_false, hrest, bind_ok, require_ok, pure_ok, hkey,
            exists_const]
          exact ⟨heq, hbound, rest, rfl, rfl⟩

/-- On a file that loads, an update of bound keys is refused only for the name. -/
theorem Holds.update_iff (h : Holds file bs) (hu : checkUpdates updates = .ok ()) :
    (∃ file', updateEnvValues updates file = .ok file') ↔ ¬ NamesAnother updates file := by
  rw [← checkOwner_ok]
  unfold updateEnvValues
  split
  · next hnil =>
      subst hnil
      exact ⟨fun _ => rfl, fun _ => ⟨file, rfl⟩⟩
  · simp only [bind_ok, pure_ok]
    constructor
    · rintro ⟨file', ⟨⟩, -, ⟨⟩, ho, -⟩
      exact ho
    · intro ho
      obtain ⟨kept, hk⟩ := h.bound.exists_kept (updates.map Prod.fst) 1
      rw [← h.existing] at hk
      exact ⟨_, (), hu, (), ho, kept, hk, rfl⟩

theorem isIdle_of_isComment {line : List Char} (h : isComment line) : isIdle line = true := by
  unfold isComment at h
  unfold isIdle
  rw [h, Bool.or_true]

theorem kept_comments {updated : List String} {number : Nat} {lines kept : List (List Char)}
    (h : keptLines updated number lines = .ok kept) : kept.filter isComment = lines.filter isComment := by
  induction lines generalizing number kept with
  | nil =>
      cases h
      rfl
  | cons line lines ih =>
      unfold keptLines at h
      split at h
      · simp only [bind_ok, pure_ok] at h
        obtain ⟨rest, hrest, rfl⟩ := h
        rw [List.filter_cons, List.filter_cons, ih hrest]
      · next hidle =>
          simp only [bind_ok, require_ok, pure_ok, exists_const] at h
          obtain ⟨-, -, rest, hrest, rfl⟩ := h
          have hno : ¬ isComment line := fun hc => hidle (isIdle_of_isComment hc)
          rw [List.filter_cons_of_neg hno, ← ih hrest]
          split
          · rfl
          · rw [List.filter_cons_of_neg hno]

theorem newLines_comments (hl : Legible updates) (hu : checkUpdates updates = .ok ()) :
    (newLines updates).filter isComment = [] := by
  refine List.filter_eq_nil_iff.mpr fun line hline hc => ?_
  obtain ⟨⟨key, value⟩, hmem, hnew⟩ := List.mem_filterMap.mp hline
  cases value with
  | none => cases hnew
  | some v =>
      dsimp only at hnew
      split at hnew
      · cases hnew
      · next hne =>
          cases hnew
          have hbinds := binds_line (checkUpdates_ok hu _ hmem) (hl.values _ hmem v rfl) hne
          have hidle := hbinds.some.1
          rw [isIdle_of_isComment hc] at hidle
          cases hidle

/-- An update that goes through keeps the comments. -/
theorem Holds.comments (h : Holds file bs) (hl : Legible updates) (hu : updateEnvValues updates file = .ok file') :
    comments file' = Loca.comments file := by
  obtain ⟨bs', hf', -⟩ := updateEnvValues_stands hl h hu
  have hexisting' := hf'.existing
  unfold updateEnvValues at hu
  split at hu
  · cases hu
    rfl
  · simp only [bind_ok, pure_ok, h.existing] at hu
    obtain ⟨⟨⟩, hc, -, -, kept, hk, rfl⟩ := hu
    have hunbroken : ∀ l ∈ kept ++ newLines updates, ∀ c ∈ l, isLineBreak c = false := by
      obtain ⟨-, -, hbreak, -⟩ := bound_newLines hl (checkUpdates_ok hc)
      intro l hl
      rcases List.mem_append.mp hl with hl | hl
      · exact splitlines_unbroken l (splitlines_eq_readLines h.ordinary ▸ (h.bound.kept hk).2 l hl)
      · exact hbreak l hl
    unfold Loca.comments
    rw [Option.getD_some, readLines_joinLines hunbroken, List.filter_append, newLines_comments hl hc, List.append_nil]
    exact kept_comments hk

theorem rewriteFile_cases (file : Option String) (c : Rewrite) :
    (∃ e, (rewriteFile file c).1 = .error e ∧ (c.disk ≠ .failsAfter → (rewriteFile file c).2 = file)) ∨
      (rewriteFile file c).1 = .ok () := by
  unfold rewriteFile
  split
  · exact .inr rfl
  · split
    · exact .inl ⟨_, rfl, fun _ => rfl⟩
    · exact .inl ⟨_, rfl, fun _ => rfl⟩
    · next hd _ => exact .inl ⟨_, rfl, fun hne => absurd hd hne⟩
    · exact .inr rfl

/-- The file after a call is the old one, or one that an update left. -/
theorem rewriteFile_file (file : Option String) (c : Rewrite) :
    (rewriteFile file c).2 = file ∨ updateEnvValues c.updates file = .ok (rewriteFile file c).2 := by
  unfold rewriteFile
  split
  · exact .inl rfl
  · split
    · exact .inl rfl
    · exact .inl rfl
    · next hu => exact .inr hu
    · next hu => exact .inr hu

theorem rewriteFile_ok {c : Rewrite} (h : (rewriteFile file c).1 = .ok ()) :
    updateEnvValues c.updates file = .ok (rewriteFile file c).2 := by
  unfold rewriteFile at h ⊢
  split
  · next hnil =>
      rw [hnil]
      rfl
  · next hnil =>
      rw [if_neg hnil] at h
      split at h
      · cases h
      · cases h
      · cases h
      · next hu => exact hu

theorem rewriteFile_works {c : Rewrite} (hd : c.disk = .works) :
    (rewriteFile file c).1 = .ok () ↔ ∃ file', updateEnvValues c.updates file = .ok file' := by
  constructor
  · exact fun h => ⟨_, rewriteFile_ok h⟩
  · rintro ⟨file', hu⟩
    unfold rewriteFile
    split
    · rfl
    · rw [hd, hu]

/-! ## A run of updates -/

/-- What one more call does to the file. -/
structure EnvLaw (file : Option String) (c : Rewrite) : Prop where
  /-- An error leaves the file, unless the disk reports it after the file was replaced. -/
  unchanged : ∀ e, (rewriteFile file c).1 = .error e → c.disk ≠ .failsAfter → (rewriteFile file c).2 = file
  /-- An accepted update is refused for another identity's name, and for nothing else. -/
  accepted : c.disk = .works → Accepted c.updates → ((rewriteFile file c).1 = .ok () ↔ ¬ NamesAnother c.updates file)
  loads : Legible c.updates → ∀ environ, ∃ after, loadLocalEnv none ⟨environ, (rewriteFile file c).2⟩ = .ok after
  /-- A load finds what the update asked for, and under every other key what a load found before. -/
  values : Legible c.updates → (rewriteFile file c).1 = .ok () → ∀ name name' environ environ' before after,
    loadLocalEnv name ⟨environ, file⟩ = .ok before →
    loadLocalEnv name' ⟨environ', (rewriteFile file c).2⟩ = .ok after →
    ∀ key, isBoundKey key = true → after.get key = stands c.updates key (before.get key)
  comments : Legible c.updates → (rewriteFile file c).1 = .ok () →
    comments (rewriteFile file c).2 = Loca.comments file

/-- What one step preserves. -/
theorem Holds.step (h : Holds file bs) {c : Rewrite} (hl : Legible c.updates) :
    ∃ bs', Holds (rewriteFile file c).2 bs' := by
  rcases rewriteFile_file file c with hsame | hu
  · rw [hsame]
    exact ⟨bs, h⟩
  · obtain ⟨bs', hf', -⟩ := updateEnvValues_stands hl h hu
    exact ⟨bs', hf'⟩

theorem Holds.law (h : Holds file bs) (c : Rewrite) : EnvLaw file c where
  unchanged := by
    intro e he hd
    rcases rewriteFile_cases file c with ⟨-, -, hsame⟩ | hok
    · exact hsame hd
    · rw [hok] at he
      cases he
  accepted hd ha := (rewriteFile_works hd).trans (h.update_iff ha.checked)
  loads := by
    intro hl environ
    obtain ⟨bs', hf'⟩ := h.step hl
    exact exists_loadLocalEnv (a := ⟨environ, (rewriteFile file c).2⟩) hf'
  values := by
    intro hl hok name name' environ environ' before after hbefore hafter key hk
    obtain ⟨bs', hf', hget⟩ := updateEnvValues_stands hl h (rewriteFile_ok hok)
    rw [@loadLocalEnv_get _ ⟨environ', _⟩ _ _ hf' hafter _ hk, hget,
      @loadLocalEnv_get _ ⟨environ, file⟩ _ _ h hbefore _ hk]
  comments hl hok := h.comments hl (rewriteFile_ok hok)

end

/-! Bob's file, written by hand with a comment, then given a token; then it is asked to be Ada's. -/

instance (updates : List (String × Option String)) : Decidable (Legible updates) :=
  decidable_of_iff ((updates.map Prod.fst).Nodup ∧ ∀ u ∈ updates, ∀ value ∈ u.2, Literal value)
    ⟨fun h => ⟨h.1, h.2⟩, fun h => ⟨h.keys, h.values⟩⟩

def named (name : String) : Rewrite := ⟨[("LOCA_NAME", some name)], .works⟩

end Loca
