/-
# `Loca.Store.Memory` — the memory of a loca

`store/memory.rs`.  A loca's memory has an owner, a short text that is replaced and a long one
that only grows.  The long text is kept twice: as one column, by string arithmetic on the row,
and as the rows of its entries.  `Ledger` says that both tell the same, within the caps, and every
write keeps it; `long_memory_is_a_ledger` reads the bounded view and the page walk off it.

The functions take the database a connection is open on; without one there is no memory, and
reads and writes say so.  `fails` stands for a statement of the transaction that fails, which
rolls it back, `readFails` for the read that follows the commit of a short write.  That read is
the one place where an answer and the database part (`short_write_stands_unread`).
-/
import Loca.Base.Check
import Loca.Base.Joined
import Loca.Base.Run
import Loca.Base.Table
import Loca.Store.Schema

namespace Loca

open Check Joined Table Text

def shortMemoryMaxBytes : Nat := 4 * 1024
def longMemoryEntryMaxBytes : Nat := 8 * 1024
def longMemorySoftBytes : Nat := 32 * 1024
def longMemoryHardBytes : Nat := 64 * 1024

/-- The greatest integer of the database. -/
def i64Max : Nat := 2 ^ 63 - 1

inductive MemoryWriteError
  | ownerUnassigned | notOwner | shortTooLarge | entryTooLarge | longTooLarge | storage
  deriving DecidableEq, Repr

inductive MemoryReadError
  | notConfigured | invariantViolation | storage
  deriving DecidableEq, Repr

structure MemoryActor where
  name : String
  principalId : Option String
  allowLegacyName : Bool
  deriving DecidableEq, Repr

structure LocaMemory where
  room : String
  owner : Option String
  short : String
  long : String
  shortUpdatedAt : Option Nat
  longUpdatedAt : Option Nat
  overBudget : Bool
  version : Nat
  deriving DecidableEq, Repr

structure LocaMemorySnapshot where
  memory : LocaMemory
  provenanceInconsistent : Bool
  longTruncated : Bool
  longOmittedBytes : Nat
  longOmittedEntries : Nat
  longUninjectableEntryIds : List Nat
  deriving DecidableEq, Repr

structure LocaMemoryEntry where
  id : Nat
  room : String
  text : String
  decidedBy : Option String
  decidedAt : Option Nat
  overBudget : Bool
  deriving DecidableEq, Repr

structure LocaMemoryEntryProvenance where
  id : Nat
  text : String
  decidedBy : Option String
  decidedAt : Option Nat
  deriving DecidableEq, Repr

structure LocaMemoryEntryPage where
  entries : List LocaMemoryEntryProvenance
  nextAfterId : Option Nat
  deriving DecidableEq, Repr

/-! ## Reads -/

def Db.memoryOf (room : String) (db : Db) : Option MemoryRow := db.memory.find? fun r => r.room = room

/-- The rows of a room's long memory. -/
def Db.longEntries (room : String) (db : Db) : List MemoryEntryRow :=
  db.memoryEntries.filter fun e => e.room = room

def locaMemoryVersion (room : String) (db : Db) : Nat := ((db.memoryOf room).map MemoryRow.version).getD 0

def MemoryRow.toMemory (r : MemoryRow) : LocaMemory :=
  ⟨r.room, r.owner, r.short, r.long, r.shortUpdatedAt, r.longUpdatedAt,
    longMemorySoftBytes < byteLen r.long, r.version⟩

def locaMemory (room : String) (db : Db) : Option LocaMemory := (db.memoryOf room).map MemoryRow.toMemory

/-- The entries as one text. -/
def flattened (entries : List MemoryEntryRow) : String := String.intercalate "\n\n" (entries.map MemoryEntryRow.text)

/-- What the bounded view has selected so far, newest first. -/
structure Selection where
  selected : List String
  selectedBytes : Nat
  suffixClosed : Bool
  uninjectableIds : List Nat

/-- The next older entry. -/
def Selection.next (s : Selection) (e : MemoryEntryRow) : Selection :=
  if longMemoryEntryMaxBytes < byteLen e.text then { s with uninjectableIds := s.uninjectableIds ++ [e.id] }
  else if s.suffixClosed then s
  else
    let candidateBytes := s.selectedBytes + (if s.selected = [] then 0 else 2) + byteLen e.text
    if candidateBytes ≤ longMemoryEntryMaxBytes then
      { s with selected := s.selected ++ [e.text], selectedBytes := candidateBytes }
    else { s with suffixClosed := true }

def select (entries : List MemoryEntryRow) : Selection := entries.foldl Selection.next ⟨[], 0, false, []⟩

/-- The second read of a snapshot: the entries, newest first. -/
def entriesDesc (room : String) (db : Db) : List MemoryEntryRow :=
  (orderBy MemoryEntryRow.id (db.longEntries room)).reverse

/-- The snapshot, from the row that was read first and the entries that were read then. -/
def snapshotOf (memory : LocaMemory) (entries : List MemoryEntryRow) : LocaMemorySnapshot :=
  let s := select entries
  let long := String.intercalate "\n\n" s.selected.reverse
  let longOmittedBytes := byteLen memory.long - byteLen long
  { memory := { memory with long := long }
    provenanceInconsistent := flattened entries.reverse ≠ memory.long
    longTruncated := 0 < longOmittedBytes
    longOmittedBytes
    longOmittedEntries := entries.length - s.selected.length
    longUninjectableEntryIds := s.uninjectableIds }

def locaMemorySnapshot (room : String) (db : Db) : Option LocaMemorySnapshot :=
  (locaMemory room db).map fun m => snapshotOf m (entriesDesc room db)

def MemoryEntryRow.provenance (e : MemoryEntryRow) : LocaMemoryEntryProvenance :=
  ⟨e.id, e.text, if isBlank e.decidedBy then none else some e.decidedBy,
    if e.decidedAt = 0 then none else some e.decidedAt⟩

/-- `loca_memory_entries`; an integer that the database cannot hold is not bound. -/
def locaMemoryEntries (room : String) (afterId limit : Nat) (db : Db) :
    Except MemoryReadError LocaMemoryEntryPage := do
  let row ← found (db.memoryOf room) .notConfigured
  require (flattened (orderBy MemoryEntryRow.id (db.longEntries room)) = row.long) .invariantViolation
  require (afterId ≤ i64Max ∧ limit + 1 ≤ i64Max) .storage
  let entries := (orderBy MemoryEntryRow.id ((db.longEntries room).filter fun e => afterId < e.id)).take (limit + 1)
  let page := entries.take limit
  pure ⟨page.map MemoryEntryRow.provenance,
    if limit < entries.length then page.getLast?.map MemoryEntryRow.id else none⟩

/-- `list_long_memory_entries`: the query's parameters, and their defaults and bounds. -/
def listLongMemoryEntries (room : String) (afterId limit : Option String) (db : Db) :
    Except MemoryReadError LocaMemoryEntryPage :=
  locaMemoryEntries room ((afterId.bind parseNat).getD 0) (max 1 (min ((limit.bind parseNat).getD 50) 200)) db

/-! ## Writes -/

def setMemoryOwner (room : String) (owner principalId : Option String) (fails : Bool) (db : Db) :
    Except MemoryWriteError Unit × Db :=
  if fails then (.error .storage, db)
  else (.ok (), { db with
    memory := insertOrUpdate MemoryRow.room ⟨room, owner, principalId, "", "", none, none, 1⟩
      (fun r => { r with owner := owner, ownerPrincipalId := principalId, version := r.version + 1 }) db.memory })

def requireMemoryOwner (room : String) (actor : MemoryActor) (db : Db) : Except MemoryWriteError Unit :=
  match (db.memoryOf room).map fun r => (r.owner, r.ownerPrincipalId) with
  | none | some (none, _) => .error .ownerUnassigned
  | some (some name, principal) =>
      match principal with
      | some p => require (actor.principalId = some p) .notOwner
      | none => require (actor.allowLegacyName = true ∧ name = actor.name) .notOwner

/-- The transaction of a short write. -/
def putShort (room : String) (actor : MemoryActor) (text : String) (now : Nat) (fails : Bool) (db : Db) :
    Except MemoryWriteError Db := do
  require (fails = false) .storage
  requireMemoryOwner room actor db
  require (byteLen text ≤ shortMemoryMaxBytes) .shortTooLarge
  pure { db with
    memory := updateWhere (fun r => r.room = room)
      (fun r => { r with short := text, shortUpdatedAt := some now, version := r.version + 1 }) db.memory }

/-- `write_short_memory`: the memory is read back after the commit. -/
def writeShortMemory (room : String) (actor : MemoryActor) (text : String) (now : Nat) (fails readFails : Bool)
    (db : Db) : Except MemoryWriteError LocaMemory × Db :=
  match putShort room actor text now fails db with
  | .error e => (.error e, db)
  | .ok db => (if readFails then .error .storage else found (locaMemory room db) .storage, db)

/-- The next id of an `AUTOINCREMENT` column whose rows are never deleted. -/
def nextEntryId (db : Db) : Nat := (db.memoryEntries.map MemoryEntryRow.id).max?.getD 0 + 1

/-- The transaction of `append_long_memory`. -/
def appendLongMemory (room : String) (actor : MemoryActor) (text : String) (now : Nat) (fails : Bool) (db : Db) :
    Except MemoryWriteError (LocaMemoryEntry × Db) := do
  require (fails = false) .storage
  requireMemoryOwner room actor db
  require (byteLen text ≤ longMemoryEntryMaxBytes) .entryTooLarge
  let row ← found (db.memoryOf room) .storage
  let currentBytes := byteLen row.long
  let nextBytes := currentBytes + (if 0 < currentBytes then 2 else 0) + byteLen text
  require (nextBytes ≤ longMemoryHardBytes) .longTooLarge
  let id := nextEntryId db
  require (id ≤ i64Max) .storage
  pure (⟨id, room, text, some actor.name, some now, longMemorySoftBytes < nextBytes⟩, { db with
    memoryEntries := db.memoryEntries ++ [⟨id, room, text, actor.name, now⟩]
    memory := updateWhere (fun r => r.room = room)
      (fun r => { r with
        long := if r.long = "" then text else r.long ++ "\n\n" ++ text
        longUpdatedAt := some now
        version := r.version + 1 }) db.memory })

/-! ## The memory as a machine -/

inductive MemoryCall
  | setOwner (room : String) (owner principalId : Option String) (fails : Bool)
  | writeShort (room : String) (actor : MemoryActor) (text : String) (now : Nat) (fails readFails : Bool)
  | appendLong (room : String) (actor : MemoryActor) (text : String) (now : Nat) (fails : Bool)

inductive MemoryAnswer
  | owner
  | short (m : LocaMemory)
  | entry (e : LocaMemoryEntry)
  | refused (e : MemoryWriteError)
  deriving DecidableEq, Repr

def MemoryCall.room : MemoryCall → String
  | .setOwner room .. | .writeShort room .. | .appendLong room .. => room

def MemoryCall.run (db : Db) : MemoryCall → MemoryAnswer × Db
  | .setOwner room owner principalId fails =>
      match setMemoryOwner room owner principalId fails db with
      | (.ok _, db) => (.owner, db)
      | (.error e, db) => (.refused e, db)
  | .writeShort room actor text now fails readFails =>
      match writeShortMemory room actor text now fails readFails db with
      | (.ok m, db) => (.short m, db)
      | (.error e, db) => (.refused e, db)
  | .appendLong room actor text now fails =>
      match appendLongMemory room actor text now fails db with
      | .ok (e, db) => (.entry e, db)
      | .error e => (.refused e, db)

/-- From a database without memories. -/
def memoryMachine : Sys.Machine Db MemoryCall MemoryAnswer where
  init db := db.memory = [] ∧ db.memoryEntries = []
  step := MemoryCall.run

/-- The callers trim a text and refuse an empty one. -/
def MemoryCall.Spoken : MemoryCall → Prop
  | .appendLong _ _ text _ _ => text ≠ ""
  | _ => True

abbrev spokenCall (_ : Db) (c : MemoryCall) : Prop := c.Spoken

/-! ## What the rows say -/

section Rows

variable {room other : String} {db : Db}

/-- An update of a room's row is found under that room, and nowhere else. -/
theorem memoryOf_update (room : String) {f : MemoryRow → MemoryRow} (hf : ∀ r, (f r).room = r.room) (db : Db)
    (entries : List MemoryEntryRow) (other : String) :
    ({ db with memoryEntries := entries, memory := updateWhere (fun r => r.room = room) f db.memory } : Db).memoryOf other =
      if other = room then (db.memoryOf room).map f else db.memoryOf other := by
  unfold Db.memoryOf
  rw [find?_updateWhere fun r _ => by rw [hf]]
  cases hfind : db.memory.find? fun r => r.room = other with
  | none =>
      split
      · next h =>
        rw [← h, hfind]
        rfl
      · rfl
  | some r =>
      have hr : r.room = other := by simpa using List.find?_some hfind
      split
      · next h =>
        rw [← h, hfind]
        simp [hr]
      · next h => simp [hr, h]

/-- What is stored in order is read in order. -/
theorem orderBy_longEntries (h : db.memoryEntries.Pairwise fun a b => a.id < b.id) (room : String) :
    orderBy MemoryEntryRow.id (db.longEntries room) = db.longEntries room := by
  have hle : (db.longEntries room).Pairwise fun a b => a.id ≤ b.id := (h.filter _).imp fun hab => hab.le
  exact hle.insertionSort_eq

theorem lt_nextEntryId {e : MemoryEntryRow} (he : e ∈ db.memoryEntries) : e.id < nextEntryId db :=
  Nat.lt_succ_of_le (List.le_max?_getD_of_mem (List.mem_map_of_mem he))

theorem flattened_concat (entries : List MemoryEntryRow) (e : MemoryEntryRow) :
    flattened (entries ++ [e]) = if entries = [] then e.text else flattened entries ++ "\n\n" ++ e.text := by
  unfold flattened
  rw [List.map_append, List.map_singleton, intercalate_concat]
  by_cases h : entries = []
  · rw [if_pos h, h]
    rfl
  · rw [if_neg h, if_neg fun hm => h (List.map_eq_nil_iff.mp hm)]

theorem flattened_eq_empty {entries : List MemoryEntryRow} (h : ∀ e ∈ entries, e.text ≠ "") :
    flattened entries = "" ↔ entries = [] := by
  unfold flattened
  rw [intercalate_eq_empty "\n\n" fun x hx => by
    obtain ⟨e, he, rfl⟩ := List.mem_map.mp hx
    exact h e he]
  exact List.map_eq_nil_iff

end Rows

/-! ## The ledger -/

/-- The column and the rows of every long memory tell the same, within the caps. -/
structure Ledger (db : Db) : Prop where
  ordered : db.memoryEntries.Pairwise fun a b => a.id < b.id
  bounded : ∀ e ∈ db.memoryEntries, 0 < e.id ∧ e.id ≤ i64Max
  entries : ∀ e ∈ db.memoryEntries, e.text ≠ "" ∧ byteLen e.text ≤ longMemoryEntryMaxBytes
  long : ∀ room row, db.memoryOf room = some row →
    row.long = flattened (db.longEntries room) ∧ byteLen row.long ≤ longMemoryHardBytes
  unset : ∀ room, db.memoryOf room = none → db.longEntries room = []

namespace Ledger

variable {db db' : Db} {room : String}

/-- The entries are the same, and so is every long text. -/
theorem keep (h : Ledger db) (he : db'.memoryEntries = db.memoryEntries)
    (hsome : ∀ room row', db'.memoryOf room = some row' →
      (∃ row, db.memoryOf room = some row ∧ row'.long = row.long) ∨ db.memoryOf room = none ∧ row'.long = "")
    (hnone : ∀ room, db'.memoryOf room = none → db.memoryOf room = none) : Ledger db' := by
  have hlong : ∀ room, db'.longEntries room = db.longEntries room := fun room => by
    unfold Db.longEntries
    rw [he]
  refine ⟨he ▸ h.ordered, he ▸ h.bounded, he ▸ h.entries, fun room row' hrow => ?_, fun room hrow => ?_⟩
  · rcases hsome room row' hrow with ⟨row, hr, heq⟩ | ⟨hr, heq⟩
    · rw [hlong, heq]
      exact h.long room row hr
    · rw [hlong, heq, h.unset room hr]
      exact ⟨rfl, Nat.zero_le _⟩
  · rw [hlong]
    exact h.unset room (hnone room hrow)

end Ledger

/-- One write of `room` took effect: its version is one more, and no other room has changed. -/
structure CountedOnce (room : String) (db db' : Db) : Prop where
  version : locaMemoryVersion room db' = locaMemoryVersion room db + 1
  others : ∀ other, other ≠ room → db'.memoryOf other = db.memoryOf other ∧ db'.longEntries other = db.longEntries other

section Writes

variable {room : String} {db db' : Db} {actor : MemoryActor} {text : String} {now : Nat} {fails : Bool}

theorem setMemoryOwner_row (room : String) (owner principalId : Option String) (db : Db) (other : String) :
    (setMemoryOwner room owner principalId false db).2.memoryOf other =
      if other = room then some (((db.memoryOf room).map fun r =>
        { r with owner := owner, ownerPrincipalId := principalId, version := r.version + 1 }).getD
          ⟨room, owner, principalId, "", "", none, none, 1⟩)
      else db.memoryOf other := by
  have hput := @find?_insertOrUpdate _ _ _ MemoryRow.room ⟨room, owner, principalId, "", "", none, none, 1⟩
    (fun r => { r with owner := owner, ownerPrincipalId := principalId, version := r.version + 1 }) db.memory
    (fun _ => rfl) other
  unfold setMemoryOwner Db.memoryOf
  rw [if_neg Bool.false_ne_true]
  refine hput.trans ?_
  split
  · next h => rw [h]
  · rfl

theorem setMemoryOwner_ledger (h : Ledger db) (owner principalId : Option String) :
    Ledger (setMemoryOwner room owner principalId false db).2 := by
  refine h.keep rfl (fun other row' hrow => ?_) fun other hrow => ?_
  · rw [setMemoryOwner_row] at hrow
    split at hrow
    · next heq =>
      subst heq
      cases hr : db.memoryOf other with
      | none =>
          rw [hr] at hrow
          cases hrow
          exact .inr ⟨rfl, rfl⟩
      | some row =>
          rw [hr] at hrow
          cases hrow
          exact .inl ⟨row, rfl, rfl⟩
    · exact .inl ⟨row', hrow, rfl⟩
  · rw [setMemoryOwner_row] at hrow
    split at hrow
    · cases hrow
    · exact hrow

theorem setMemoryOwner_counted (room : String) (owner principalId : Option String) (db : Db) :
    CountedOnce room db (setMemoryOwner room owner principalId false db).2 := by
  refine ⟨?_, fun other hne => ⟨?_, rfl⟩⟩
  · unfold locaMemoryVersion
    rw [setMemoryOwner_row, if_pos rfl]
    cases db.memoryOf room <;> rfl
  · rw [setMemoryOwner_row, if_neg hne]

/-- An owner has a row to be the owner of. -/
theorem requireMemoryOwner_ok {u : Unit} (h : requireMemoryOwner room actor db = .ok u) :
    ∃ row, db.memoryOf room = some row := by
  unfold requireMemoryOwner at h
  cases hr : db.memoryOf room with
  | none =>
      rw [hr] at h
      cases h
  | some row => exact ⟨row, rfl⟩

theorem putShort_ok (h : putShort room actor text now fails db = .ok db') :
    (∃ row, db.memoryOf room = some row) ∧ byteLen text ≤ shortMemoryMaxBytes ∧
      db' = { db with
        memory := updateWhere (fun r => r.room = room)
          (fun r => { r with short := text, shortUpdatedAt := some now, version := r.version + 1 }) db.memory } := by
  simp only [putShort, bind_ok, require_ok, pure_ok, exists_const] at h
  obtain ⟨-, u, howner, hlen, rfl⟩ := h
  exact ⟨requireMemoryOwner_ok howner, hlen, rfl⟩

theorem putShort_row (h : putShort room actor text now fails db = .ok db') (other : String) :
    db'.memoryOf other = if other = room then (db.memoryOf room).map fun r =>
        { r with short := text, shortUpdatedAt := some now, version := r.version + 1 }
      else db.memoryOf other := by
  obtain ⟨-, -, rfl⟩ := putShort_ok h
  exact memoryOf_update room (by exact fun _ => rfl) db db.memoryEntries other

theorem putShort_ledger (hl : Ledger db) (h : putShort room actor text now fails db = .ok db') : Ledger db' := by
  have hrow := putShort_row h
  obtain ⟨-, -, rfl⟩ := putShort_ok h
  refine hl.keep rfl (fun other row' hr => ?_) fun other hr => ?_
  · rw [hrow] at hr
    split at hr
    · next heq =>
      obtain ⟨row, hrow, rfl⟩ := Option.map_eq_some_iff.mp hr
      exact .inl ⟨row, heq ▸ hrow, rfl⟩
    · exact .inl ⟨row', hr, rfl⟩
  · rw [hrow] at hr
    split at hr
    · next heq => exact heq ▸ Option.map_eq_none_iff.mp hr
    · exact hr

theorem putShort_counted (h : putShort room actor text now fails db = .ok db') : CountedOnce room db db' := by
  have hrow := putShort_row h
  obtain ⟨⟨row, hr⟩, -, rfl⟩ := putShort_ok h
  refine ⟨?_, fun other hne => ⟨?_, rfl⟩⟩
  · unfold locaMemoryVersion
    rw [hrow, if_pos rfl, hr]
    rfl
  · rw [hrow, if_neg hne]

/-- What an accepted entry has passed, and what it leaves. -/
theorem appendLongMemory_ok {e : LocaMemoryEntry} (h : appendLongMemory room actor text now fails db = .ok (e, db')) :
    ∃ row, db.memoryOf room = some row ∧ byteLen text ≤ longMemoryEntryMaxBytes ∧
      byteLen row.long + (if 0 < byteLen row.long then 2 else 0) + byteLen text ≤ longMemoryHardBytes ∧
      nextEntryId db ≤ i64Max ∧ db' = { db with
        memoryEntries := db.memoryEntries ++ [⟨nextEntryId db, room, text, actor.name, now⟩]
        memory := updateWhere (fun r => r.room = room)
          (fun r => { r with
            long := if r.long = "" then text else r.long ++ "\n\n" ++ text
            longUpdatedAt := some now
            version := r.version + 1 }) db.memory } := by
  simp only [appendLongMemory, bind_ok, require_ok, found_ok, pure_ok, exists_const, Prod.mk.injEq] at h
  obtain ⟨-, u, -, hlen, row, hrow, hhard, hid, -, rfl⟩ := h
  exact ⟨row, hrow, hlen, hhard, hid, rfl⟩

theorem appendLongMemory_row {e : LocaMemoryEntry} (h : appendLongMemory room actor text now fails db = .ok (e, db'))
    (other : String) : db'.memoryOf other = if other = room then (db.memoryOf room).map fun r =>
        { r with
          long := if r.long = "" then text else r.long ++ "\n\n" ++ text
          longUpdatedAt := some now
          version := r.version + 1 }
      else db.memoryOf other := by
  obtain ⟨row, -, -, -, -, rfl⟩ := appendLongMemory_ok h
  exact memoryOf_update room (by exact fun _ => rfl) db _ other

theorem appendLongMemory_entries {e : LocaMemoryEntry}
    (h : appendLongMemory room actor text now fails db = .ok (e, db')) (other : String) :
    db'.longEntries other = db.longEntries other ++
      if room = other then [⟨nextEntryId db, room, text, actor.name, now⟩] else [] := by
  obtain ⟨row, -, -, -, -, rfl⟩ := appendLongMemory_ok h
  unfold Db.longEntries
  rw [List.filter_append]
  congr 1
  split
  · next heq => exact List.filter_cons_of_pos (decide_eq_true heq)
  · next heq => exact List.filter_cons_of_neg (by simpa using heq)

theorem appendLongMemory_counted {e : LocaMemoryEntry}
    (h : appendLongMemory room actor text now fails db = .ok (e, db')) : CountedOnce room db db' := by
  have hrow := appendLongMemory_row h
  have hentries := appendLongMemory_entries h
  obtain ⟨row, hr, -⟩ := appendLongMemory_ok h
  refine ⟨?_, fun other hne => ⟨?_, ?_⟩⟩
  · unfold locaMemoryVersion
    rw [hrow, if_pos rfl, hr]
    rfl
  · rw [hrow, if_neg hne]
  · rw [hentries, if_neg hne.symm, List.append_nil]

/-- The column grows by the entry, and so do the rows. -/
theorem appendLongMemory_ledger (hl : Ledger db) (htext : text ≠ "") {e : LocaMemoryEntry}
    (h : appendLongMemory room actor text now fails db = .ok (e, db')) : Ledger db' := by
  have hrow := appendLongMemory_row h
  have hentries := appendLongMemory_entries h
  obtain ⟨row, hr, hlen, hhard, hid, rfl⟩ := appendLongMemory_ok h
  obtain ⟨hlong, -⟩ := hl.long room row hr
  have hroom : ∀ e ∈ db.longEntries room, e.text ≠ "" := fun e he => (hl.entries e (List.mem_filter.mp he).1).1
  have hempty : row.long = "" ↔ db.longEntries room = [] := hlong ▸ flattened_eq_empty hroom
  refine ⟨?_, fun e he => ?_, fun e he => ?_, fun other row' hr' => ?_, fun other hr' => ?_⟩
  · refine List.pairwise_append.mpr ⟨hl.ordered, List.pairwise_singleton _ _, fun a ha b hb => ?_⟩
    rw [List.mem_singleton.mp hb]
    exact lt_nextEntryId ha
  · rcases List.mem_append.mp he with he | he
    · exact hl.bounded e he
    · rw [List.mem_singleton.mp he]
      exact ⟨Nat.succ_pos _, hid⟩
  · rcases List.mem_append.mp he with he | he
    · exact hl.entries e he
    · rw [List.mem_singleton.mp he]
      exact ⟨htext, hlen⟩
  · rw [hrow] at hr'
    split at hr'
    · next heq =>
      subst heq
      rw [hr] at hr'
      cases hr'
      rw [hentries, if_pos rfl, flattened_concat, ← hlong]
      dsimp only
      by_cases hnil : row.long = ""
      · rw [if_pos hnil, if_pos (hempty.mp hnil)]
        rw [hnil] at hhard
        exact ⟨rfl, (Nat.le_add_left _ _).trans hhard⟩
      · rw [if_neg hnil, if_neg fun h => hnil (hempty.mpr h)]
        have hpos : 0 < byteLen row.long := Nat.pos_of_ne_zero fun h => hnil (byteLen_eq_zero.mp h)
        rw [if_pos hpos] at hhard
        refine ⟨rfl, ?_⟩
        rw [byteLen_append, byteLen_append]
        exact hhard
    · next hne =>
      rw [hentries, if_neg (Ne.symm hne), List.append_nil]
      exact hl.long other row' hr'
  · rw [hrow] at hr'
    split at hr'
    · rw [hr] at hr'
      cases hr'
    · next hne =>
      rw [hentries, if_neg (Ne.symm hne), List.append_nil]
      exact hl.unset other hr'

end Writes

/-! ## The bounded view -/

/-- The texts of the entries, oldest first. -/
def Db.longTexts (room : String) (db : Db) : List String := (db.longEntries room).map MemoryEntryRow.text

/-- The selection is a first part of what it was made from; it stops where the next text is too much. -/
structure Selects (texts : List String) (s : Selection) (n : Nat) : Prop where
  le : n ≤ texts.length
  selected : s.selected = texts.take n
  bytes : s.selectedBytes = joinedBytes 2 (texts.take n)
  fits : joinedBytes 2 (texts.take n) ≤ longMemoryEntryMaxBytes
  injectable : s.uninjectableIds = []
  open_all : s.suffixClosed = false → n = texts.length
  closed : s.suffixClosed = true → n < texts.length ∧ longMemoryEntryMaxBytes < joinedBytes 2 (texts.take (n + 1))

theorem select_selects {l : List MemoryEntryRow} (h : ∀ e ∈ l, byteLen e.text ≤ longMemoryEntryMaxBytes) :
    ∃ n, Selects (l.map MemoryEntryRow.text) (select l) n := by
  induction l using List.reverseRecOn with
  | nil => exact ⟨0, le_refl 0, rfl, rfl, Nat.zero_le _, rfl, fun _ => rfl, fun h => (by cases h)⟩
  | append_singleton l e ih =>
      obtain ⟨n, hs⟩ := ih fun e he => h e (List.mem_append_left _ he)
      have he := h e (List.mem_append_right _ (List.mem_singleton.mpr rfl))
      have hsel : select (l ++ [e]) = (select l).next e := by
        unfold select
        rw [List.foldl_append, List.foldl_cons, List.foldl_nil]
      have hle := hs.le
      have hlen : (l.map MemoryEntryRow.text ++ [e.text]).length = (l.map MemoryEntryRow.text).length + 1 :=
        List.length_append
      rw [hsel, List.map_append, List.map_singleton]
      unfold Selection.next
      rw [if_neg (Nat.not_lt.mpr he)]
      cases hclosed : (select l).suffixClosed with
      | true =>
          obtain ⟨hlt, hover⟩ := hs.closed hclosed
          rw [if_pos rfl]
          refine ⟨n, by omega, ?_, ?_, ?_, hs.injectable, fun ho => absurd (ho.symm.trans hclosed) (by decide),
            fun _ => ⟨by omega, ?_⟩⟩
          · rw [List.take_append_of_le_length hle]
            exact hs.selected
          · rw [List.take_append_of_le_length hle]
            exact hs.bytes
          · rw [List.take_append_of_le_length hle]
            exact hs.fits
          · rw [List.take_append_of_le_length hlt]
            exact hover
      | false =>
          have hn := hs.open_all hclosed
          have hall : (select l).selected = l.map MemoryEntryRow.text := by rw [hs.selected, hn, List.take_length]
          have hbytes : (select l).selectedBytes + (if (select l).selected = [] then 0 else 2) + byteLen e.text =
              joinedBytes 2 (l.map MemoryEntryRow.text ++ [e.text]) := by
            rw [joinedBytes_concat, hs.bytes, hall, hn, List.take_length]
          rw [if_neg Bool.false_ne_true]
          dsimp only
          rw [hbytes]
          split
          · next hfits =>
            refine ⟨n + 1, by omega, ?_, ?_, ?_, hs.injectable, fun _ => by omega,
              fun hc => (by cases hc)⟩
            · rw [hall, List.take_of_length_le (by omega)]
            · rw [List.take_of_length_le (by omega)]
            · rw [List.take_of_length_le (by omega)]
              exact hfits
          · next hover =>
            refine ⟨n, by omega, ?_, ?_, ?_, hs.injectable, fun hc => (by cases hc), fun _ => ⟨by omega, ?_⟩⟩
            · rw [List.take_append_of_le_length hle]
              exact hs.selected
            · rw [List.take_append_of_le_length hle]
              exact hs.bytes
            · rw [List.take_append_of_le_length hle]
              exact hs.fits
            · rw [List.take_of_length_le (by omega)]
              exact Nat.lt_of_not_le hover

/-- The snapshot of a room: the join of the longest suffix that fits, and what it leaves out. -/
structure BoundedView (texts : List String) (long : String) (s : LocaMemorySnapshot) : Prop where
  consistent : s.provenanceInconsistent = false
  injectable : s.longUninjectableEntryIds = []
  view : ∃ omitted kept, texts = omitted ++ kept ∧ s.memory.long = String.intercalate "\n\n" kept ∧
    byteLen s.memory.long ≤ longMemoryEntryMaxBytes ∧
    (∀ omitted' kept', texts = omitted' ++ kept' →
      byteLen (String.intercalate "\n\n" kept') ≤ longMemoryEntryMaxBytes → kept'.length ≤ kept.length) ∧
    s.longOmittedEntries = omitted.length
  bytes : s.longOmittedBytes + byteLen s.memory.long = byteLen long
  truncated : s.longTruncated = true ↔ 0 < s.longOmittedBytes

theorem separator_bytes : byteLen "\n\n" = 2 := by decide

theorem snapshotOf_view {entries : List MemoryEntryRow} {m : LocaMemory}
    (hlen : ∀ e ∈ entries, byteLen e.text ≤ longMemoryEntryMaxBytes) (hlong : m.long = flattened entries) :
    BoundedView (entries.map MemoryEntryRow.text) m.long (snapshotOf m entries.reverse) := by
  obtain ⟨n, hs⟩ := select_selects (l := entries.reverse) fun e he => hlen e (List.mem_reverse.mp he)
  rw [List.map_reverse] at hs
  generalize hT : entries.map MemoryEntryRow.text = texts at hs ⊢
  have hflat : m.long = String.intercalate "\n\n" texts := by rw [hlong, ← hT]; rfl
  have hview : (snapshotOf m entries.reverse).memory.long = String.intercalate "\n\n" (texts.reverse.take n).reverse := by
    show String.intercalate "\n\n" (select entries.reverse).selected.reverse = _
    rw [hs.selected]
  have hviewBytes : byteLen (snapshotOf m entries.reverse).memory.long = joinedBytes 2 (texts.reverse.take n) := by
    rw [hview, byteLen_intercalate, separator_bytes, joinedBytes_reverse]
  refine ⟨?_, hs.injectable, ⟨(texts.reverse.drop n).reverse, (texts.reverse.take n).reverse, ?_, hview, ?_, ?_, ?_⟩,
    ?_, ?_⟩
  · show decide (flattened entries.reverse.reverse ≠ m.long) = false
    rw [List.reverse_reverse, hlong]
    exact decide_eq_false fun h => h rfl
  · rw [← List.reverse_append, List.take_append_drop, List.reverse_reverse]
  · rw [hviewBytes]
    exact hs.fits
  · intro omitted' kept' heq hfits
    have htake : kept'.reverse = texts.reverse.take kept'.length := by
      rw [heq, List.reverse_append, ← @List.length_reverse _ kept', List.take_left]
    rw [byteLen_intercalate, separator_bytes, ← joinedBytes_reverse, htake] at hfits
    rw [List.length_reverse, List.length_take, Nat.min_eq_left hs.le]
    cases hclosed : (select entries.reverse).suffixClosed with
    | true => exact fitting_le (hs.closed hclosed).2 hfits
    | false =>
        rw [hs.open_all hclosed, List.length_reverse, heq, List.length_append]
        exact Nat.le_add_left _ _
  · show entries.reverse.length - (select entries.reverse).selected.length = _
    rw [hs.selected, List.length_reverse, List.length_reverse, List.length_drop, List.length_take,
      Nat.min_eq_left hs.le, List.length_reverse, ← hT, List.length_map]
  · show byteLen m.long - byteLen (snapshotOf m entries.reverse).memory.long +
      byteLen (snapshotOf m entries.reverse).memory.long = byteLen m.long
    refine Nat.sub_add_cancel ?_
    rw [hviewBytes, hflat, byteLen_intercalate, separator_bytes, ← joinedBytes_reverse 2 texts]
    exact joinedBytes_le (List.take_sublist n _)
  · exact decide_eq_true_iff

/-! ## Page by page -/

/-- The pages of `loca_memory_entries`, each read from the `next_after_id` of the one before; at
most `fuel` of them. -/
def followEntries (room : String) (limit : Nat) (db : Db) : Nat → Nat → List LocaMemoryEntryProvenance
  | 0, _ => []
  | fuel + 1, afterId =>
      match locaMemoryEntries room afterId limit db with
      | .error _ => []
      | .ok page => page.entries ++
          match page.nextAfterId with
          | none => []
          | some id => followEntries room limit db fuel id

section Pages

variable {db : Db} {room : String}

theorem locaMemoryEntries_eq (h : Ledger db) {row : MemoryRow} (hrow : db.memoryOf room = some row) {afterId limit : Nat}
    (ha : afterId ≤ i64Max) (hl : limit < i64Max) :
    locaMemoryEntries room afterId limit db =
      let rest := (db.longEntries room).filter fun e => afterId < e.id
      .ok ⟨(rest.take limit).map MemoryEntryRow.provenance,
        if limit < rest.length then (rest.take limit).getLast?.map MemoryEntryRow.id else none⟩ := by
  have hrest : orderBy MemoryEntryRow.id ((db.longEntries room).filter fun e => afterId < e.id) =
      (db.longEntries room).filter fun e => afterId < e.id := by
    have hle : ((db.longEntries room).filter fun e => afterId < e.id).Pairwise fun a b => a.id ≤ b.id :=
      ((h.ordered.filter _).filter _).imp fun hab => hab.le
    exact hle.insertionSort_eq
  unfold locaMemoryEntries
  rw [hrow, found_some, ok_bind, orderBy_longEntries h.ordered, (h.long room row hrow).1, hrest]
  have hreq : require (flattened (db.longEntries room) = flattened (db.longEntries room))
      MemoryReadError.invariantViolation = .ok () := if_pos rfl
  have hbind : require (afterId ≤ i64Max ∧ limit + 1 ≤ i64Max) MemoryReadError.storage = .ok () := if_pos ⟨ha, hl⟩
  rw [hreq, ok_bind, hbind, ok_bind]
  dsimp only
  rw [List.take_take, Nat.min_eq_left (Nat.le_succ limit), List.length_take]
  have hmore : limit < min (limit + 1) ((db.longEntries room).filter fun e => afterId < e.id).length ↔
      limit < ((db.longEntries room).filter fun e => afterId < e.id).length := by omega
  simp only [hmore]
  rfl

/-- Page by page comes every entry past the cursor, once and in order. -/
theorem followEntries_eq (h : Ledger db) {row : MemoryRow} (hrow : db.memoryOf room = some row) {limit : Nat}
    (hpos : 0 < limit) (hl : limit < i64Max) (fuel : Nat) : ∀ afterId, afterId ≤ i64Max →
      ((db.longEntries room).filter fun e => afterId < e.id).length < fuel →
      followEntries room limit db fuel afterId =
        ((db.longEntries room).filter fun e => afterId < e.id).map MemoryEntryRow.provenance := by
  induction fuel with
  | zero => exact fun afterId _ hf => absurd hf (Nat.not_lt_zero _)
  | succ fuel ih =>
      intro afterId ha hf
      unfold followEntries
      rw [locaMemoryEntries_eq h hrow ha hl]
      have hsorted : ((db.longEntries room).filter fun e => afterId < e.id).Pairwise fun a b => a.id < b.id :=
        (h.ordered.filter _).filter _
      generalize hrest : ((db.longEntries room).filter fun e => afterId < e.id) = rest at hf hsorted ⊢
      dsimp only
      split
      · next hmore =>
        split at hmore
        · next hlt =>
          rw [Option.map_eq_none_iff, List.getLast?_eq_none_iff, List.take_eq_nil_iff] at hmore
          rcases hmore with h0 | rfl
          · omega
          · exact absurd hlt (Nat.not_lt_zero _)
        · next hle => rw [List.take_of_length_le (Nat.not_lt.mp hle), List.append_nil]
      · next id hmore =>
        split at hmore
        · next hlt =>
          obtain ⟨last, hlast, rfl⟩ := Option.map_eq_some_iff.mp hmore
          obtain ⟨init, hinit⟩ := List.getLast?_eq_some_iff.mp hlast
          have hmem : last ∈ rest.take limit := hinit ▸ List.mem_append_right _ (List.mem_singleton.mpr rfl)
          have hpage : (rest.take limit).Pairwise fun a b => a.id < b.id := hsorted.sublist (List.take_sublist _ _)
          have hmax : ∀ e ∈ rest.take limit, e.id ≤ last.id := by
            intro e he
            rw [hinit] at hpage he
            rcases List.mem_append.mp he with he | he
            · exact ((List.pairwise_append.mp hpage).2.2 e he last (List.mem_singleton.mpr rfl)).le
            · rw [List.mem_singleton.mp he]
          have hentry : last ∈ (db.longEntries room).filter fun e => afterId < e.id := hrest ▸ List.mem_of_mem_take hmem
          have hpast : afterId < last.id := by simpa using (List.mem_filter.mp hentry).2
          have hnext : (db.longEntries room).filter (fun e => last.id < e.id) = rest.drop limit := by
            have hcut := @filter_gt_append _ _ _ MemoryEntryRow.id (rest.take limit) (rest.drop limit) last.id
              (by rw [List.take_append_drop]; exact hsorted) (List.mem_map_of_mem hmem) hmax
            rw [List.take_append_drop, ← hrest, List.filter_filter] at hcut
            rw [← hrest, ← hcut]
            refine List.filter_congr fun e _ => ?_
            by_cases he : last.id < e.id
            · simp [he, hpast.trans he]
            · simp [he]
          have hid : last.id ≤ i64Max :=
            (h.bounded last (List.mem_filter.mp (List.mem_filter.mp hentry).1).1).2
          rw [ih last.id hid (by rw [hnext, List.length_drop]; omega), hnext, ← List.map_append, List.take_append_drop]
        · cases hmore

end Pages

/-! ## Every run -/

/-- A short write whose memory cannot be read back. -/
def MemoryCall.Unread : MemoryCall → Prop
  | .writeShort _ _ _ _ _ readFails => readFails = true
  | _ => False

/-- The call took effect. -/
structure Took (c : MemoryCall) (db db' : Db) : Prop where
  counted : CountedOnce c.room db db'
  ledger : Ledger db → c.Spoken → Ledger db'

/-- A call is refused without effect, or takes effect; one that takes effect is accepted, but
for a short write that cannot be read back. -/
theorem MemoryCall.run_cases (c : MemoryCall) (db : Db) :
    (∃ e, c.run db = (.refused e, db)) ∨
    (∃ a db', c.run db = (a, db') ∧ (∀ e, a ≠ .refused e) ∧ Took c db db') ∨
    (c.Unread ∧ ∃ db', c.run db = (.refused .storage, db') ∧ Took c db db') := by
  cases c with
  | setOwner room owner principalId fails =>
      cases fails with
      | true => exact .inl ⟨.storage, rfl⟩
      | false =>
          exact .inr (.inl ⟨.owner, _, rfl, fun _ h => (by cases h),
            setMemoryOwner_counted room owner principalId db, fun h _ => setMemoryOwner_ledger h owner principalId⟩)
  | writeShort room actor text now fails readFails =>
      have hrun : ∀ a db', writeShortMemory room actor text now fails readFails db = (a, db') →
          MemoryCall.run db (.writeShort room actor text now fails readFails) =
            (match a with | .ok m => .short m | .error e => .refused e, db') := by
        intro a db' hw
        unfold MemoryCall.run
        dsimp only
        rw [hw]
        cases a <;> rfl
      cases hput : putShort room actor text now fails db with
      | error e => exact .inl ⟨e, hrun (.error e) db (by unfold writeShortMemory; rw [hput])⟩
      | ok db' =>
          have htook : Took (.writeShort room actor text now fails readFails) db db' :=
            ⟨putShort_counted hput, fun h _ => putShort_ledger h hput⟩
          cases readFails with
          | true =>
              have hw : writeShortMemory room actor text now fails true db = (.error .storage, db') := by
                unfold writeShortMemory
                rw [hput]
                rfl
              exact .inr (.inr ⟨rfl, db', hrun _ _ hw, htook⟩)
          | false =>
              obtain ⟨⟨row, hrow⟩, -⟩ := putShort_ok hput
              have hback : ∃ m, locaMemory room db' = some m := by
                unfold locaMemory
                rw [putShort_row hput, if_pos rfl, hrow]
                exact ⟨_, rfl⟩
              obtain ⟨m, hm⟩ := hback
              have hw : writeShortMemory room actor text now fails false db = (.ok m, db') := by
                unfold writeShortMemory
                rw [hput]
                dsimp only
                rw [hm]
                rfl
              exact .inr (.inl ⟨.short m, db', hrun _ _ hw, fun _ h => (by cases h), htook⟩)
  | appendLong room actor text now fails =>
      unfold MemoryCall.run
      dsimp only
      cases happ : appendLongMemory room actor text now fails db with
      | error e => exact .inl ⟨e, rfl⟩
      | ok p =>
          exact .inr (.inl ⟨.entry p.1, p.2, rfl, fun _ h => (by cases h), appendLongMemory_counted happ,
            fun h hs => appendLongMemory_ledger h hs happ⟩)

theorem run_ledger {tr : List (MemoryCall × MemoryAnswer)} {db : Db} (r : Sys.Run memoryMachine spokenCall tr db) :
    Ledger db := by
  refine Sys.Run.invariant (I := Ledger) ?_ ?_ r
  · rintro db ⟨hm, he⟩
    have hnone : ∀ room, db.memoryOf room = none := fun room => by
      unfold Db.memoryOf
      rw [hm]
      rfl
    have hnil : ∀ e ∈ db.memoryEntries, False := fun e h => by
      rw [he] at h
      cases h
    refine ⟨he ▸ List.Pairwise.nil, fun e h => (hnil e h).elim, fun e h => (hnil e h).elim, fun room row hrow => ?_,
      fun room _ => List.filter_eq_nil_iff.mpr fun e h => (hnil e h).elim⟩
    cases (hnone room).symm.trans hrow
  · intro db c h hs
    show Ledger (c.run db).2
    rcases c.run_cases db with ⟨e, hc⟩ | ⟨a, db', hc, -, htook⟩ | ⟨-, db', hc, htook⟩
    · rw [hc]
      exact h
    · rw [hc]
      exact htook.ledger h hs
    · rw [hc]
      exact htook.ledger h hs

/-- The long memory of one room, and its views. -/
structure LedgerOf (room : String) (db : Db) : Prop where
  long : ∀ m, locaMemory room db = some m →
    m.long = String.intercalate "\n\n" (db.longTexts room) ∧ byteLen m.long ≤ longMemoryHardBytes
  entry : ∀ text ∈ db.longTexts room, byteLen text ≤ longMemoryEntryMaxBytes
  ordered : (db.longEntries room).Pairwise fun a b => a.id < b.id
  unset : locaMemory room db = none → db.longEntries room = []
  pages : ∀ m, locaMemory room db = some m → ∀ limit, 0 < limit → limit < i64Max →
    ∀ fuel, (db.longEntries room).length < fuel →
      followEntries room limit db fuel 0 = (db.longEntries room).map MemoryEntryRow.provenance
  /-- The route asks for a limit in these bounds, whatever it is asked for. -/
  route : ∀ afterId limit, ∃ n, 0 < n ∧ n ≤ 200 ∧
    listLongMemoryEntries room afterId limit db = locaMemoryEntries room ((afterId.bind parseNat).getD 0) n db
  snapshot : ∀ m, locaMemory room db = some m →
    ∃ s, locaMemorySnapshot room db = some s ∧ BoundedView (db.longTexts room) m.long s

theorem Ledger.of {db : Db} (h : Ledger db) (room : String) : LedgerOf room db := by
  have hrow : ∀ m, locaMemory room db = some m → ∃ row, db.memoryOf room = some row ∧ row.long = m.long := by
    intro m hm
    obtain ⟨row, hrow, rfl⟩ := Option.map_eq_some_iff.mp hm
    exact ⟨row, hrow, rfl⟩
  have hlong : ∀ m, locaMemory room db = some m →
      m.long = flattened (db.longEntries room) ∧ byteLen m.long ≤ longMemoryHardBytes := by
    intro m hm
    obtain ⟨row, hrow, hl⟩ := hrow m hm
    exact hl ▸ h.long room row hrow
  have hentry : ∀ e ∈ db.longEntries room, byteLen e.text ≤ longMemoryEntryMaxBytes :=
    fun e he => (h.entries e (List.mem_filter.mp he).1).2
  refine ⟨hlong, fun text ht => ?_, h.ordered.filter _, fun hn => h.unset room (Option.map_eq_none_iff.mp hn), ?_, ?_, ?_⟩
  · obtain ⟨e, he, rfl⟩ := List.mem_map.mp ht
    exact hentry e he
  · intro m hm limit hpos hl fuel hfuel
    obtain ⟨row, hr, -⟩ := hrow m hm
    have hall : (db.longEntries room).filter (fun e => 0 < e.id) = db.longEntries room :=
      List.filter_eq_self.mpr fun e he => decide_eq_true (h.bounded e (List.mem_filter.mp he).1).1
    have hpages := followEntries_eq h hr hpos hl fuel 0 (Nat.zero_le _)
    rw [hall] at hpages
    exact hpages hfuel
  · exact fun afterId limit => ⟨_, by omega, by omega, rfl⟩
  · intro m hm
    refine ⟨_, by unfold locaMemorySnapshot; rw [hm]; rfl, ?_⟩
    unfold entriesDesc
    rw [orderBy_longEntries h.ordered]
    exact snapshotOf_view hentry (hlong m hm).1

def scribe : MemoryActor := ⟨"ann", some "p-ann", false⟩

def scribeCalls : List MemoryCall :=
  [.setOwner "den" (some "ann") (some "p-ann") false, .appendLong "den" scribe "first" 10 false,
    .appendLong "den" ⟨"bob", some "p-bob", false⟩ "not mine" 11 false, .appendLong "den" scribe "second" 12 false]

def scribeDb : Db := (memoryMachine.exec scribeCalls [] {}).2

end Loca
