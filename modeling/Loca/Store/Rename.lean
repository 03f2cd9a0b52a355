/-
# `Loca.Store.Rename` — moving a loca to another name

`rename_room` of `store/rooms.rs`: one transaction that re-keys a list of tables, then the
outbox and the attentions, whose ids and signals carry the room's name inside a string.

The call is documented to move every durable record.  `RenamesWhole` says what that means
for the database before and after.  The list of tables is shorter than the schema, and the
two string rewrites do not always agree, so the call does not always do it: `rename_whole_iff`
gives the exact condition, `RenameSafe`.
-/
import Loca.Base.Check
import Loca.Base.Table
import Loca.Base.Text
import Loca.Store.Schema

namespace Loca

open Check Table Text

inductive RenameError
  | existingLoca
  /-- A primary key would occur twice. -/
  | constraint
  deriving DecidableEq, Repr

/-- A row type with a room column. -/
class RoomKeyed (ρ : Type) where
  room : ρ → String
  put : ρ → String → ρ
  put_room : ∀ r, put r (room r) = r
  room_put : ∀ r x, room (put r x) = x

instance : RoomKeyed MessageRow :=
  ⟨MessageRow.room, fun r x => { r with room := x }, fun _ => rfl, fun _ _ => rfl⟩
instance : RoomKeyed ReactionRow :=
  ⟨ReactionRow.room, fun r x => { r with room := x }, fun _ => rfl, fun _ _ => rfl⟩
instance : RoomKeyed NoteRow :=
  ⟨NoteRow.room, fun r x => { r with room := x }, fun _ => rfl, fun _ _ => rfl⟩
instance : RoomKeyed NoteRevisionRow :=
  ⟨NoteRevisionRow.room, fun r x => { r with room := x }, fun _ => rfl, fun _ _ => rfl⟩
instance : RoomKeyed Task :=
  ⟨Task.room, fun r x => { r with room := x }, fun _ => rfl, fun _ _ => rfl⟩
instance : RoomKeyed Goal :=
  ⟨Goal.room, fun r x => { r with room := x }, fun _ => rfl, fun _ _ => rfl⟩
instance : RoomKeyed WaitState :=
  ⟨WaitState.room, fun r x => { r with room := x }, fun _ => rfl, fun _ _ => rfl⟩
instance : RoomKeyed CareMarkRow :=
  ⟨CareMarkRow.room, fun r x => { r with room := x }, fun _ => rfl, fun _ _ => rfl⟩
instance : RoomKeyed AttentionRow :=
  ⟨AttentionRow.room, fun r x => { r with room := x }, fun _ => rfl, fun _ _ => rfl⟩
instance : RoomKeyed RoomRow :=
  ⟨RoomRow.room, fun r x => { r with room := x }, fun _ => rfl, fun _ _ => rfl⟩
instance : RoomKeyed InviteRow :=
  ⟨fun r => r.invite.room, fun r x => { r with invite := { r.invite with room := x } },
    fun _ => rfl, fun _ _ => rfl⟩
instance : RoomKeyed JournalEntry :=
  ⟨JournalEntry.room, fun r x => { r with room := x }, fun _ => rfl, fun _ _ => rfl⟩
instance : RoomKeyed BanRow :=
  ⟨BanRow.room, fun r x => { r with room := x }, fun _ => rfl, fun _ _ => rfl⟩
instance : RoomKeyed OperatorRow :=
  ⟨OperatorRow.room, fun r x => { r with room := x }, fun _ => rfl, fun _ _ => rfl⟩
instance : RoomKeyed MemoryRow :=
  ⟨MemoryRow.room, fun r x => { r with room := x }, fun _ => rfl, fun _ _ => rfl⟩
instance : RoomKeyed MemoryEntryRow :=
  ⟨MemoryEntryRow.room, fun r x => { r with room := x }, fun _ => rfl, fun _ _ => rfl⟩
instance : RoomKeyed AttachmentPendingRow :=
  ⟨AttachmentPendingRow.room, fun r x => { r with room := x }, fun _ => rfl, fun _ _ => rfl⟩
instance : RoomKeyed AttachmentRefRow :=
  ⟨AttachmentRefRow.room, fun r x => { r with room := x }, fun _ => rfl, fun _ _ => rfl⟩
instance : RoomKeyed WikiRow :=
  ⟨WikiRow.room, fun r x => { r with room := x }, fun _ => rfl, fun _ _ => rfl⟩
instance : RoomKeyed WikiPageRow :=
  ⟨WikiPageRow.room, fun r x => { r with room := x }, fun _ => rfl, fun _ _ => rfl⟩
instance : RoomKeyed WikiHistoryRow :=
  ⟨WikiHistoryRow.room, fun r x => { r with room := x }, fun _ => rfl, fun _ _ => rfl⟩
instance : RoomKeyed WikiBatchRow :=
  ⟨WikiBatchRow.room, fun r x => { r with room := x }, fun _ => rfl, fun _ _ => rfl⟩
instance : RoomKeyed WikiReceiptRow :=
  ⟨WikiReceiptRow.room, fun r x => { r with room := x }, fun _ => rfl, fun _ _ => rfl⟩
instance : RoomKeyed WikiRuntimeRow :=
  ⟨WikiRuntimeRow.room, fun r x => { r with room := x }, fun _ => rfl, fun _ _ => rfl⟩
instance : RoomKeyed ContextSelectionRow :=
  ⟨ContextSelectionRow.room, fun r x => { r with room := x }, fun _ => rfl, fun _ _ => rfl⟩
instance : RoomKeyed ContextReceiptRow :=
  ⟨ContextReceiptRow.room, fun r x => { r with room := x }, fun _ => rfl, fun _ _ => rfl⟩

section Keyed

variable {ρ : Type} [RoomKeyed ρ]

/-- `SELECT EXISTS(SELECT 1 FROM t WHERE room = ?1)`. -/
def anyFor (t : List ρ) (room : String) : Bool :=
  t.any fun r => RoomKeyed.room r = room

/-- `UPDATE t SET room = new WHERE room = old`. -/
def setRoom (old new : String) (t : List ρ) : List ρ :=
  updateWhere (fun r => RoomKeyed.room r = old) (fun r => RoomKeyed.put r new) t

/-- Every row under another room name. -/
def rekey (f : String → String) (t : List ρ) : List ρ :=
  t.map fun r => RoomKeyed.put r (f (RoomKeyed.room r))

end Keyed

/-- `exists`: does one of the listed tables have a row for the room? -/
def roomExists (db : Db) (room : String) : Bool :=
  anyFor db.messages room || anyFor db.reactions room || anyFor db.notes room ||
  anyFor db.noteRevisions room || anyFor db.tasks room || anyFor db.goals room ||
  anyFor db.waits room || anyFor db.careMarks room || anyFor db.attentions room ||
  anyFor db.rooms room || anyFor db.invites room || anyFor db.journal room ||
  anyFor db.bans room

/-- The loop over `TABLES`. -/
def renameTables (old new : String) (db : Db) : Db :=
  { db with
    messages := setRoom old new db.messages
    reactions := setRoom old new db.reactions
    notes := setRoom old new db.notes
    noteRevisions := setRoom old new db.noteRevisions
    tasks := setRoom old new db.tasks
    goals := setRoom old new db.goals
    waits := setRoom old new db.waits
    careMarks := setRoom old new db.careMarks
    attentions := setRoom old new db.attentions
    rooms := setRoom old new db.rooms
    invites := setRoom old new db.invites
    journal := setRoom old new db.journal
    bans := setRoom old new db.bans }

/-- The attention id under the new name: the old prefix is swapped, any other id stays. -/
def renameId (old new id : String) : String :=
  match stripPrefix (attentionPrefix old) id with
  | some suffix => attentionPrefix new ++ suffix
  | none => id

/-- The outbox row as the rename writes it, if it writes it. -/
def renameOutboxRow (old new : String) (r : OutboxRow) : Option OutboxRow :=
  let nextId := renameId old new r.attentionId
  if r.signal.room = old ∨ r.signal.attentionId ≠ nextId ∨ r.deliveryRoom = old then
    some { r with
      attentionId := nextId
      deliveryRoom := if r.deliveryRoom = old then new else r.deliveryRoom
      signal := { r.signal with
        room := if r.signal.room = old then new else r.signal.room
        attentionId := nextId } }
  else none

/-- The updates are collected first and then written by id. -/
def renameOutbox (old new : String) (outbox : List OutboxRow) : List OutboxRow :=
  (outbox.filterMap (renameOutboxRow old new)).foldl (fun t u =>
    updateWhere (fun r => r.id = u.id) (fun r =>
      { r with attentionId := u.attentionId, deliveryRoom := u.deliveryRoom, signal := u.signal }) t)
    outbox

/-- The new id and signal of an attention that has already moved to the new room, if its
signal still names the old one. -/
def renameAttentionRow (old new : String) (a : AttentionRow) : Option (String × CareSignal) :=
  if a.signal.room = old then
    let nextId := renameId old new a.id
    some (nextId, { a.signal with
      room := new
      attentionId := if a.signal.attentionId = a.id then nextId else a.signal.attentionId })
  else none

/-- `UPDATE attentions SET id, signal WHERE id`, one row after the other; `id` is the
primary key. -/
def writeAttentions : List (String × String × CareSignal) → List AttentionRow →
    Except RenameError (List AttentionRow)
  | [], t => .ok t
  | (id, nextId, signal) :: rest, t => do
      require (nextId = id ∨ ∀ r ∈ t, r.id ≠ nextId) .constraint
      writeAttentions rest
        (updateWhere (fun r => r.id = id) (fun r => { r with id := nextId, signal }) t)

def renameRoom (old new : String) (db : Db) : Except RenameError (Bool × Db) :=
  if roomExists db old then do
    require (roomExists db new = false) .existingLoca
    let db := renameTables old new db
    let careOutbox := renameOutbox old new db.careOutbox
    let updates := (db.attentions.filter fun a => a.room = new).filterMap fun a =>
      (renameAttentionRow old new a).map fun u => (a.id, u)
    let attentions ← writeAttentions updates db.attentions
    return (true, { db with careOutbox, attentions })
  else return (false, db)

/-! ## What a rename is for -/

/-- The new name of a room. -/
def newName (old new room : String) : String := if room = old then new else room

/-- The database with every room column of every table under the new name; attentions and
outbox aside, whose content names the room as well. -/
def Db.underName (f : String → String) (db : Db) : Db :=
  { db with
    messages := rekey f db.messages
    reactions := rekey f db.reactions
    notes := rekey f db.notes
    noteRevisions := rekey f db.noteRevisions
    tasks := rekey f db.tasks
    goals := rekey f db.goals
    waits := rekey f db.waits
    careMarks := rekey f db.careMarks
    rooms := rekey f db.rooms
    invites := rekey f db.invites
    journal := rekey f db.journal
    bans := rekey f db.bans
    operators := rekey f db.operators
    memory := rekey f db.memory
    memoryEntries := rekey f db.memoryEntries
    attachmentPending := rekey f db.attachmentPending
    attachmentRefs := rekey f db.attachmentRefs
    wikis := { db.wikis with
      wiki := rekey f db.wikis.wiki
      pages := rekey f db.wikis.pages
      history := rekey f db.wikis.history
      batches := rekey f db.wikis.batches
      receipts := rekey f db.wikis.receipts }
    wikiRuntimes := rekey f db.wikiRuntimes
    contextSelections := rekey f db.contextSelections
    contextReceipts := rekey f db.contextReceipts }

/-- The same signal, up to the room and the attention it names. -/
def CareSignal.sameBut (s s' : CareSignal) : Prop :=
  { s' with room := s.room, attentionId := s.attentionId } = s

/-- A row of the outbox that concerns the loca: delivered there, or about one of its
attentions. -/
def OutboxRow.concerns (db : Db) (room : String) (r : OutboxRow) : Prop :=
  r.deliveryRoom = room ∨ ∃ a ∈ db.attentions, a.id = r.attentionId ∧ a.room = room

structure AttentionMoved (old new : String) (a a' : AttentionRow) : Prop where
  room : a'.room = newName old new a.room
  third : a.room ≠ old → a' = a
  signalRoom : a.room = old → a'.signal.room = newName old new a.signal.room
  content : a.signal.sameBut a'.signal ∧ a'.owner = a.owner ∧ a'.createdAt = a.createdAt ∧
    a'.deliveredAt = a.deliveredAt ∧ a'.claimedBy = a.claimedBy ∧ a'.claimedAt = a.claimedAt ∧
    a'.resolvedAt = a.resolvedAt

structure OutboxMoved (old new : String) (db db' : Db) (r r' : OutboxRow) : Prop where
  room : r'.deliveryRoom = newName old new r.deliveryRoom
  signalRoom : r'.signal.room = newName old new r.signal.room
  third : ¬ r.concerns db old → r' = r
  content : r.signal.sameBut r'.signal ∧ r'.id = r.id ∧ r'.owner = r.owner ∧
    r'.ownerPrincipalId = r.ownerPrincipalId ∧ r'.createdAt = r.createdAt ∧ r'.ackedAt = r.ackedAt
  linked : (∃ a ∈ db.attentions, a.id = r.attentionId) ↔
    ∃ a ∈ db'.attentions, a.id = r'.attentionId

/-- The whole loca has moved: every record of the old name is under the new one with its
content, nothing else has changed, and the outbox names the attentions it named. -/
structure RenamesWhole (old new : String) (db db' : Db) : Prop where
  tables : db' = { db.underName (newName old new) with
    careOutbox := db'.careOutbox, attentions := db'.attentions }
  attentions : List.Forall₂ (AttentionMoved old new) db.attentions db'.attentions
  outbox : List.Forall₂ (OutboxMoved old new db db') db.careOutbox db'.careOutbox

/-! ## What the rename writes -/

/-- The care tables as their writers keep them: primary keys, and an outbox row carries the
attention id of its signal. -/
structure CareLedger (db : Db) : Prop where
  attentionKey : (db.attentions.map AttentionRow.id).Nodup
  outboxKey : (db.careOutbox.map OutboxRow.id).Nodup
  outboxId : ∀ r ∈ db.careOutbox, r.signal.attentionId = r.attentionId

theorem renameId_append (old new suffix : String) :
    renameId old new (attentionPrefix old ++ suffix) = attentionPrefix new ++ suffix := by
  simp [renameId, stripPrefix_append]

theorem renameId_other {old new id : String} (h : hasPrefix (attentionPrefix old) id = false) :
    renameId old new id = id := by
  simp [renameId, stripPrefix, h]

theorem attentionPrefix_append_inj {old new suffix : String}
    (h : attentionPrefix new ++ suffix = attentionPrefix old ++ suffix) : new = old := by
  have hl := congrArg String.toList h
  simp only [attentionPrefix, String.toList_append] at hl
  have := List.append_cancel_right (List.append_cancel_right hl)
  exact String.toList_inj.mp (List.append_cancel_left this)

theorem renameId_ne {old new id : String} (hne : old ≠ new)
    (h : hasPrefix (attentionPrefix old) id = true) : renameId old new id ≠ id := by
  obtain ⟨suffix, rfl⟩ := hasPrefix_iff.mp h
  rw [renameId_append]
  exact fun he => hne (attentionPrefix_append_inj he).symm

theorem renameId_injective {old new id id' : String} (h : hasPrefix (attentionPrefix old) id = true)
    (h' : hasPrefix (attentionPrefix old) id' = true)
    (he : renameId old new id = renameId old new id') : id = id' := by
  obtain ⟨s, rfl⟩ := hasPrefix_iff.mp h
  obtain ⟨s', rfl⟩ := hasPrefix_iff.mp h'
  rw [renameId_append, renameId_append] at he
  have hl := congrArg String.toList he
  simp only [String.toList_append] at hl
  rw [String.toList_inj.mp (List.append_cancel_left hl)]

/-- An attention row after the rename. -/
def movedAttention (old new : String) (a : AttentionRow) : AttentionRow :=
  if a.room = old then
    match renameAttentionRow old new { a with room := new } with
    | some (id, signal) => { a with room := new, id, signal }
    | none => { a with room := new }
  else a

/-- An outbox row after the rename. -/
def movedOutbox (old new : String) (r : OutboxRow) : OutboxRow :=
  (renameOutboxRow old new r).getD r

theorem renameOutbox_eq {old new : String} {outbox : List OutboxRow}
    (h : (outbox.map OutboxRow.id).Nodup) :
    renameOutbox old new outbox = outbox.map (movedOutbox old new) := by
  have hkey : ∀ r u, renameOutboxRow old new r = some u → u.id = r.id := by
    intro r u hu
    simp only [renameOutboxRow] at hu
    split at hu
    · cases hu; rfl
    · cases hu
  have hput : ∀ r u, renameOutboxRow old new r = some u →
      { r with attentionId := u.attentionId, deliveryRoom := u.deliveryRoom, signal := u.signal } =
        u := by
    intro r u hu
    simp only [renameOutboxRow] at hu
    split at hu
    · cases hu; rfl
    · cases hu
  exact foldl_updateWhere hkey hput outbox h

/-- The writing loop, when no primary key stood in its way: each listed row has its new id
and signal, and the ids are distinct again. -/
theorem writeAttentions_ok {g : AttentionRow → Option (String × CareSignal)} {t t' : List AttentionRow}
    (hnd : (t.map AttentionRow.id).Nodup)
    (h : writeAttentions (t.filterMap fun a => (g a).map fun u => (a.id, u)) t = .ok t') :
    t' = t.map (fun a => match g a with
      | some (id, signal) => { a with id, signal }
      | none => a) := by
  suffices hgen : ∀ (post done : List AttentionRow), ((done ++ post).map AttentionRow.id).Nodup →
      writeAttentions (post.filterMap fun a => (g a).map fun u => (a.id, u)) (done ++ post) = .ok t' →
      t' = done ++ post.map (fun a => match g a with
        | some (id, signal) => { a with id, signal }
        | none => a) by
    simpa using hgen t [] (by simpa using hnd) h
  intro post
  induction post with
  | nil =>
      intro done _ h
      cases h
      simp
  | cons a post ih =>
      intro done hnd h
      cases hg : g a with
      | none =>
          have := ih (done ++ [a]) (by simpa using hnd) (by simpa [hg] using h)
          simpa [hg] using this
      | some u =>
          obtain ⟨id, signal⟩ := u
          obtain ⟨h₁, h₂⟩ := key_ne_of_nodup hnd
          simp only [List.filterMap_cons, hg, Option.map_some, writeAttentions, bind_ok,
            require_ok, exists_const] at h
          obtain ⟨hfree, h⟩ := h
          rw [updateWhere_at (by simp) h₁ h₂] at h
          have hids : ((done ++ [{ a with id, signal }] ++ post).map AttentionRow.id).Nodup := by
            rcases hfree with rfl | hfree
            · simpa using hnd
            · simp only [List.map_append, List.map_cons, List.append_assoc,
                List.cons_append, List.nil_append] at hnd ⊢
              rw [List.nodup_middle, List.nodup_cons] at hnd ⊢
              refine ⟨?_, hnd.2⟩
              intro hm
              rw [← List.map_append] at hm
              obtain ⟨x, hx, hxid⟩ := List.mem_map.mp hm
              refine hfree x ?_ hxid
              rcases List.mem_append.mp hx with hx | hx
              · exact List.mem_append_left _ hx
              · exact List.mem_append_right _ (List.mem_cons_of_mem _ hx)
          have := ih (done ++ [{ a with id, signal }]) hids (by simpa using h)
          simpa [hg] using this

theorem setRoom_eq {ρ : Type} [RoomKeyed ρ] (old new : String) (t : List ρ) :
    setRoom old new t = rekey (newName old new) t := by
  unfold setRoom updateWhere rekey newName
  apply List.map_congr_left
  intro r _
  by_cases h : RoomKeyed.room r = old
  · simp [h]
  · simp [h, RoomKeyed.put_room]

/-- A table that the rename left as it was is under the new name if it had no row of the
old one. -/
theorem eq_rekey_iff {ρ : Type} [RoomKeyed ρ] {old new : String} (hne : old ≠ new) (t : List ρ) :
    t = rekey (newName old new) t ↔ ∀ r ∈ t, RoomKeyed.room r ≠ old := by
  constructor
  · intro h r hr
    rw [h] at hr
    obtain ⟨x, -, rfl⟩ := List.mem_map.mp hr
    rw [RoomKeyed.room_put, newName]
    split
    · exact fun he => hne he.symm
    · assumption
  · intro h
    unfold rekey
    conv_lhs => rw [← List.map_id t]
    apply List.map_congr_left
    intro r hr
    simp [newName, h r hr, RoomKeyed.put_room]

theorem roomExists_false {db : Db} {room : String} (h : roomExists db room = false) :
    ∀ a ∈ db.attentions, a.room ≠ room := by
  simp only [roomExists, anyFor, Bool.or_eq_false_iff, List.any_eq_false, decide_eq_true_eq] at h
  exact h.1.1.1.1.2

/-- What a successful rename wrote. -/
theorem renameRoom_ok {old new : String} {db db' : Db} (hl : CareLedger db)
    (h : renameRoom old new db = .ok (true, db')) :
    old ≠ new ∧ db' = { renameTables old new db with
      careOutbox := db.careOutbox.map (movedOutbox old new)
      attentions := db.attentions.map (movedAttention old new) } := by
  unfold renameRoom at h
  split at h
  · next hold =>
    simp only [bind_ok, require_ok, pure_ok, Prod.mk.injEq, true_and, exists_const] at h
    obtain ⟨hnew, attentions, hw, rfl⟩ := h
    have hne : old ≠ new := by
      rintro rfl
      rw [hold] at hnew
      cases hnew
    have hfree := roomExists_false hnew
    refine ⟨hne, ?_⟩
    have hmoved : (renameTables old new db).attentions =
        db.attentions.map fun a => { a with room := newName old new a.room } :=
      setRoom_eq old new db.attentions
    have hnd : ((renameTables old new db).attentions.map AttentionRow.id).Nodup := by
      rw [hmoved, List.map_map]
      exact hl.attentionKey
    rw [List.filterMap_filter] at hw
    have hout := writeAttentions_ok (g := fun a => if a.room = new then renameAttentionRow old new a
      else none) hnd (by
        rw [← hw]
        congr 1
        apply List.filterMap_congr
        intro a _
        by_cases ha : a.room = new <;> simp [ha])
    have hatt : attentions = db.attentions.map (movedAttention old new) := by
      rw [hout, hmoved, List.map_map]
      apply List.map_congr_left
      intro a ha
      simp only [Function.comp, movedAttention, newName]
      by_cases hr : a.room = old
      · simp [hr]
      · have hrn := hfree a ha
        simp [hr, hrn]
    rw [hatt, show renameOutbox old new (renameTables old new db).careOutbox =
      db.careOutbox.map (movedOutbox old new) from renameOutbox_eq hl.outboxKey]
  · simp at h

/-! ## When the whole loca moves -/

/-- An attention that keeps its id: of another room, or with a signal that names another
room, or with an id that does not carry the old name. -/
def KeepsId (old : String) (a : AttentionRow) : Prop :=
  ¬(a.room = old ∧ a.signal.room = old ∧ hasPrefix (attentionPrefix old) a.id = true)

/-- No row of a table that the rename leaves out is keyed by the room. -/
structure UnlistedFree (room : String) (db : Db) : Prop where
  operators : ∀ r ∈ db.operators, r.room ≠ room
  memory : ∀ r ∈ db.memory, r.room ≠ room
  memoryEntries : ∀ r ∈ db.memoryEntries, r.room ≠ room
  attachmentPending : ∀ r ∈ db.attachmentPending, r.room ≠ room
  attachmentRefs : ∀ r ∈ db.attachmentRefs, r.room ≠ room
  wiki : ∀ r ∈ db.wikis.wiki, r.room ≠ room
  wikiPages : ∀ r ∈ db.wikis.pages, r.room ≠ room
  wikiHistory : ∀ r ∈ db.wikis.history, r.room ≠ room
  wikiBatches : ∀ r ∈ db.wikis.batches, r.room ≠ room
  wikiReceipts : ∀ r ∈ db.wikis.receipts, r.room ≠ room
  wikiRuntimes : ∀ r ∈ db.wikiRuntimes, r.room ≠ room
  contextSelections : ∀ r ∈ db.contextSelections, r.room ≠ room
  contextReceipts : ∀ r ∈ db.contextReceipts, r.room ≠ room

/-- The condition on the database before the call. -/
structure RenameSafe (old new : String) (db : Db) : Prop where
  unlisted : UnlistedFree old db
  /-- An outbox row that does not concern the loca does not carry its name either. -/
  foreign : ∀ r ∈ db.careOutbox, ¬ r.concerns db old →
    r.signal.room ≠ old ∧ hasPrefix (attentionPrefix old) r.attentionId = false
  /-- An outbox row is not parted from an attention that keeps its id. -/
  parted : ∀ r ∈ db.careOutbox, hasPrefix (attentionPrefix old) r.attentionId = true →
    ∀ a ∈ db.attentions, a.id = r.attentionId → KeepsId old a →
      ∃ b ∈ db.attentions, KeepsId old b ∧ b.id = renameId old new r.attentionId
  /-- A row that names no attention is not given one, by its own new id or by that of an
  attention. -/
  captured : ∀ r ∈ db.careOutbox, (∀ a ∈ db.attentions, a.id ≠ r.attentionId) →
    if hasPrefix (attentionPrefix old) r.attentionId then
      ∀ b ∈ db.attentions, KeepsId old b → b.id ≠ renameId old new r.attentionId
    else ∀ b ∈ db.attentions, ¬ KeepsId old b → renameId old new b.id ≠ r.attentionId

theorem renameTables_underName {old new : String} {db db' : Db} (hne : old ≠ new)
    (h : db' = { renameTables old new db with
      careOutbox := db'.careOutbox, attentions := db'.attentions }) :
    db' = { db.underName (newName old new) with
      careOutbox := db'.careOutbox, attentions := db'.attentions } ↔ UnlistedFree old db := by
  rw [h]
  simp only [renameTables, Db.underName, setRoom_eq, Db.ext_iff, WikiTables.ext_iff, true_and,
    eq_rekey_iff hne]
  constructor
  · rintro ⟨h₁, h₂, h₃, h₄, h₅, ⟨h₆, h₇, h₈, h₉, h₁₀⟩, h₁₁, h₁₂, h₁₃⟩
    exact ⟨h₁, h₂, h₃, h₄, h₅, h₆, h₇, h₈, h₉, h₁₀, h₁₁, h₁₂, h₁₃⟩
  · rintro ⟨h₁, h₂, h₃, h₄, h₅, h₆, h₇, h₈, h₉, h₁₀, h₁₁, h₁₂, h₁₃⟩
    exact ⟨h₁, h₂, h₃, h₄, h₅, ⟨h₆, h₇, h₈, h₉, h₁₀⟩, h₁₁, h₁₂, h₁₃⟩

theorem movedAttention_id (old new : String) (a : AttentionRow) :
    (movedAttention old new a).id =
      if a.room = old ∧ a.signal.room = old then renameId old new a.id else a.id := by
  by_cases hr : a.room = old
  · by_cases hs : a.signal.room = old <;> simp [movedAttention, renameAttentionRow, hr, hs]
  · simp [movedAttention, hr]

/-- Attentions always move as they should. -/
theorem attentionMoved (old new : String) (a : AttentionRow) :
    AttentionMoved old new a (movedAttention old new a) := by
  unfold movedAttention renameAttentionRow
  by_cases hr : a.room = old
  · rw [if_pos hr]
    by_cases hs : a.signal.room = old
    · simp only [hs, if_true]
      exact ⟨by simp [newName, hr], fun h => absurd hr h, fun _ => by simp [newName, hs], rfl, rfl,
        rfl, rfl, rfl, rfl, rfl⟩
    · simp only [hs, if_false]
      exact ⟨by simp [newName, hr], fun h => absurd hr h, fun _ => by simp [newName, hs], rfl, rfl,
        rfl, rfl, rfl, rfl, rfl⟩
  · rw [if_neg hr]
    exact ⟨by simp [newName, hr], fun _ => rfl, fun h => absurd h hr, rfl, rfl, rfl, rfl, rfl, rfl,
      rfl⟩

/-- An outbox row that carries its signal's attention id: what the rename makes of it. -/
theorem movedOutbox_eq {old new : String} {r : OutboxRow}
    (hid : r.signal.attentionId = r.attentionId) :
    movedOutbox old new r = { r with
      attentionId := renameId old new r.attentionId
      deliveryRoom := newName old new r.deliveryRoom
      signal := { r.signal with
        room := newName old new r.signal.room
        attentionId := renameId old new r.attentionId } } := by
  unfold movedOutbox renameOutboxRow
  by_cases hc : r.signal.room = old ∨ r.signal.attentionId ≠ renameId old new r.attentionId ∨
      r.deliveryRoom = old
  · rw [if_pos hc]
    rfl
  · rw [if_neg hc]
    simp only [not_or, not_not] at hc
    obtain ⟨h₁, h₂, h₃⟩ := hc
    have h₄ : renameId old new r.attentionId = r.attentionId := h₂.symm.trans hid
    simp only [Option.getD_none, newName, h₁, h₃, if_false]
    rw [← h₂]
    conv_lhs => rw [show r = { r with attentionId := r.signal.attentionId } by rw [hid]]

theorem movedOutbox_self {old new : String} {r : OutboxRow}
    (hid : r.signal.attentionId = r.attentionId) (hs : r.signal.room ≠ old)
    (hp : hasPrefix (attentionPrefix old) r.attentionId = false) (hd : r.deliveryRoom ≠ old) :
    movedOutbox old new r = r := by
  simp [movedOutbox, renameOutboxRow, renameId_other hp, hid, hs, hd]

/-- The row stays linked exactly when it is neither parted from its attention nor given one. -/
theorem linked_iff {old new : String} {attentions : List AttentionRow} {id : String}
    (hkey : (attentions.map AttentionRow.id).Nodup) :
    ((∃ a ∈ attentions, a.id = id) ↔
      ∃ a ∈ attentions.map (movedAttention old new), a.id = renameId old new id) ↔
    (hasPrefix (attentionPrefix old) id = true → ∀ a ∈ attentions, a.id = id → KeepsId old a →
      ∃ b ∈ attentions, KeepsId old b ∧ b.id = renameId old new id) ∧
    ((∀ a ∈ attentions, a.id ≠ id) →
      if hasPrefix (attentionPrefix old) id then
        ∀ b ∈ attentions, KeepsId old b → b.id ≠ renameId old new id
      else ∀ b ∈ attentions, ¬ KeepsId old b → renameId old new b.id ≠ id) := by
  -- the id of an attention afterwards, by whether it keeps its id
  have hkeep : ∀ a, KeepsId old a → (movedAttention old new a).id = a.id := by
    intro a hk
    rw [movedAttention_id]
    split
    · next h =>
      by_cases hp : hasPrefix (attentionPrefix old) a.id = true
      · exact absurd ⟨h.1, h.2, hp⟩ hk
      · exact renameId_other (Bool.eq_false_iff.mpr hp)
    · rfl
  have hmove : ∀ a, ¬ KeepsId old a → hasPrefix (attentionPrefix old) a.id = true ∧
      (movedAttention old new a).id = renameId old new a.id := by
    intro a hk
    have h := not_not.mp hk
    exact ⟨h.2.2, by rw [movedAttention_id, if_pos ⟨h.1, h.2.1⟩]⟩
  have hafter : (∃ a ∈ attentions.map (movedAttention old new), a.id = renameId old new id) ↔
      ∃ a ∈ attentions, (movedAttention old new a).id = renameId old new id := by
    simp
  rw [hafter]
  by_cases hp : hasPrefix (attentionPrefix old) id = true
  · simp only [hp, if_true, forall_const]
    constructor
    · intro hiff
      refine ⟨?_, ?_⟩
      · intro a ha haid hk
        obtain ⟨b, hb, hbid⟩ := hiff.mp ⟨a, ha, haid⟩
        by_cases hkb : KeepsId old b
        · exact ⟨b, hb, hkb, (hkeep b hkb).symm.trans hbid⟩
        · rw [(hmove b hkb).2] at hbid
          have hab := renameId_injective (hmove b hkb).1 hp hbid
          exact absurd (eq_of_key hkey ha hb (haid.trans hab.symm) ▸ hk) hkb
      · intro hno b hb hk hbid
        obtain ⟨a, ha, haid⟩ := hiff.mpr ⟨b, hb, (hkeep b hk).trans hbid⟩
        exact hno a ha haid
    · rintro ⟨h₁, h₂⟩
      constructor
      · rintro ⟨a, ha, haid⟩
        by_cases hk : KeepsId old a
        · obtain ⟨b, hb, hkb, hbid⟩ := h₁ a ha haid hk
          exact ⟨b, hb, (hkeep b hkb).trans hbid⟩
        · exact ⟨a, ha, by rw [(hmove a hk).2, haid]⟩
      · rintro ⟨b, hb, hbid⟩
        by_contra hno
        by_cases hkb : KeepsId old b
        · exact h₂ (fun a ha haid => hno ⟨a, ha, haid⟩) b hb hkb ((hkeep b hkb).symm.trans hbid)
        · rw [(hmove b hkb).2] at hbid
          exact hno ⟨b, hb, renameId_injective (hmove b hkb).1 hp hbid⟩
  · have hpf := Bool.eq_false_iff.mpr hp
    rw [renameId_other hpf]
    simp only [hpf, Bool.false_eq_true, if_false, false_implies, true_and]
    constructor
    · intro hiff hno b hb hk hbid
      obtain ⟨a, ha, haid⟩ := hiff.mpr ⟨b, hb, by rw [(hmove b hk).2, hbid]⟩
      exact hno a ha haid
    · intro h₂
      constructor
      · rintro ⟨a, ha, haid⟩
        refine ⟨a, ha, (hkeep a ?_).trans haid⟩
        intro hk
        rw [haid] at hk
        exact hp hk.2.2
      · rintro ⟨b, hb, hbid⟩
        by_cases hk : KeepsId old b
        · exact ⟨b, hb, (hkeep b hk).symm.trans hbid⟩
        · by_contra hno
          rw [(hmove b hk).2] at hbid
          exact h₂ (fun a ha haid => hno ⟨a, ha, haid⟩) b hb hk hbid

/-- The rename moves the whole loca exactly when no unlisted table has a row for it and the
rewritten ids agree. -/
theorem rename_whole_iff {old new : String} {db db' : Db} (hl : CareLedger db)
    (h : renameRoom old new db = .ok (true, db')) :
    RenamesWhole old new db db' ↔ RenameSafe old new db := by
  obtain ⟨hne, hdb'⟩ := renameRoom_ok hl h
  have hatt : db'.attentions = db.attentions.map (movedAttention old new) := by rw [hdb']
  have hout : db'.careOutbox = db.careOutbox.map (movedOutbox old new) := by rw [hdb']
  have htables : db' = { renameTables old new db with
      careOutbox := db'.careOutbox, attentions := db'.attentions } := by
    rw [hatt, hout]
    exact hdb'
  have hunlisted := renameTables_underName hne htables
  -- row by row
  have hrows : List.Forall₂ (OutboxMoved old new db db') db.careOutbox db'.careOutbox ↔
      ∀ r ∈ db.careOutbox, OutboxMoved old new db db' r (movedOutbox old new r) := by
    rw [hout, List.forall₂_map_right_iff, List.forall₂_same]
  have hrow : ∀ r ∈ db.careOutbox, (OutboxMoved old new db db' r (movedOutbox old new r) ↔
      (¬ r.concerns db old →
        r.signal.room ≠ old ∧ hasPrefix (attentionPrefix old) r.attentionId = false) ∧
      ((∃ a ∈ db.attentions, a.id = r.attentionId) ↔
        ∃ a ∈ db.attentions.map (movedAttention old new), a.id = renameId old new r.attentionId)) := by
    intro r hr
    have heq := @movedOutbox_eq old new r (hl.outboxId r hr)
    constructor
    · intro hm
      refine ⟨?_, ?_⟩
      · intro hc
        have hsame := hm.third hc
        rw [heq] at hsame
        refine ⟨?_, ?_⟩
        · intro hs
          have := congrArg (fun x => x.signal.room) hsame
          simp only [newName, hs, if_true] at this
          exact hne this.symm
        · by_contra hp
          exact renameId_ne hne (Bool.not_eq_false _ ▸ hp) (congrArg OutboxRow.attentionId hsame)
      · have := hm.linked
        rw [hatt, heq] at this
        exact this
    · rintro ⟨hforeign, hlink⟩
      have hthird : ¬ r.concerns db old → movedOutbox old new r = r := fun hc =>
        movedOutbox_self (hl.outboxId r hr) (hforeign hc).1 (hforeign hc).2 fun hd => hc (.inl hd)
      rw [heq] at hthird ⊢
      exact ⟨rfl, rfl, hthird, ⟨rfl, rfl, rfl, rfl, rfl, rfl⟩, by rw [hatt]; exact hlink⟩
  constructor
  · rintro ⟨ht, -, ho⟩
    have ho := hrows.mp ho
    refine ⟨hunlisted.mp ht, ?_, ?_, ?_⟩
    · intro r hr
      exact ((hrow r hr).mp (ho r hr)).1
    · intro r hr
      exact ((linked_iff hl.attentionKey).mp ((hrow r hr).mp (ho r hr)).2).1
    · intro r hr
      exact ((linked_iff hl.attentionKey).mp ((hrow r hr).mp (ho r hr)).2).2
  · rintro ⟨hu, hforeign, hparted, hcaptured⟩
    refine ⟨hunlisted.mpr hu, ?_, hrows.mpr ?_⟩
    · rw [hatt, List.forall₂_map_right_iff, List.forall₂_same]
      exact fun a _ => attentionMoved old new a
    · intro r hr
      refine (hrow r hr).mpr ⟨hforeign r hr, ?_⟩
      exact (linked_iff hl.attentionKey).mpr ⟨hparted r hr, hcaptured r hr⟩

/-- A loca with one message and one line of memory. -/
def sampleMemoryDb : Db :=
  { messages := [⟨1, "old", "ann", "user", none, "hello", none, 1, "say", none, none, none⟩]
    memory := [⟨"old", none, none, "draft", "", some 1, none, 1⟩] }

/-- The rename succeeds and the memory stays behind. -/
theorem rename_leaves_memory :
    ∃ db', renameRoom "old" "new" sampleMemoryDb = .ok (true, db') ∧
      ¬ RenamesWhole "old" "new" sampleMemoryDb db' := by
  refine ⟨_, rfl, ?_⟩
  intro h
  have hm := congrArg Db.memory h.tables
  revert hm
  decide

/-- A loca with a message, an open attention and its delivery. -/
def sampleCareDb : Db :=
  let signal : CareSignal :=
    ⟨"delivery_1", "attention:old:goal:1:5", "old", "", .goalReminder, .lead, some "ann", none, none,
      none, [], "stalled goal", "care", [], 1, 5, false, .running⟩
  { messages := [⟨1, "old", "ann", "user", none, "hello", none, 1, "say", none, none, none⟩]
    attentions := [⟨"attention:old:goal:1:5", "old", signal, some "ann", 5, none, none, none, none⟩]
    careOutbox := [⟨"delivery_1", "attention:old:goal:1:5", "old", "ann", none, signal, 5, none⟩] }

theorem rename_whole_sample :
    ∃ db', renameRoom "old" "new" sampleCareDb = .ok (true, db') ∧
      RenamesWhole "old" "new" sampleCareDb db' := by
  refine ⟨_, rfl, (rename_whole_iff ⟨by decide, by decide, by decide⟩ rfl).mpr ?_⟩
  refine ⟨?_, ?_, ?_, ?_⟩
  · constructor <;> decide
  · intro r hr hc
    rw [List.mem_singleton.mp hr] at hc
    exact absurd (.inl rfl) hc
  · intro r hr _ a ha _ hk
    rw [List.mem_singleton.mp ha] at hk
    exact absurd ⟨rfl, rfl, by decide⟩ hk
  · intro r hr hno
    rw [List.mem_singleton.mp hr] at hno
    exact absurd rfl (hno _ (List.mem_singleton.mpr rfl))

end Loca
