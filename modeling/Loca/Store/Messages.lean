/-
# `Loca.Store.Messages` — the message archive and its transactions

`store/messages.rs` and the attachment claims of `store/attachment_index.rs`.  A message
is stored by one of four transactions; what differs is the state that goes with it.  All
of them insert the row (the id is the primary key, and an operation id is unique per room
and principal), retire the room's silence condition and claim the cited files.
-/
import Loca.Store.Rooms

namespace Loca

open Check Table

/-- The operation a client may retry: its principal and the id it chose. -/
abbrev Operation := String × String

def MessageRow.operation (r : MessageRow) : Option Operation :=
  match r.principal, r.opId with
  | some principal, some opId => some (principal, opId)
  | _, _ => none

def MessageRow.ofMessage (m : Message) (operation : Option Operation) : MessageRow where
  id := m.id
  room := m.room
  sender := m.sender
  senderType := senderTypeStr m.senderType
  target := m.target
  text := m.text
  replyTo := m.replyTo
  ts := m.ts
  kind := kindStr m.kind
  principal := operation.map Prod.fst
  opId := operation.map Prod.snd
  attachments := attachmentsToJson m.attachments

/-- A stored message is read back as it was, without the author it answers. -/
@[simp] theorem MessageRow.toMessage_ofMessage (m : Message) (o : Option Operation) :
    (MessageRow.ofMessage m o).toMessage = { m with replyToSender := none } := by
  simp [MessageRow.toMessage, MessageRow.ofMessage]

@[simp] theorem MessageRow.operation_ofMessage (m : Message) (o : Option Operation) :
    (MessageRow.ofMessage m o).operation = o := by
  cases o <;> rfl

/-! ## Reading -/

def messageOwner (room : String) (id : Nat) (db : Db) : Option String :=
  (db.messages.find? fun r => r.room = room && r.id = id).map MessageRow.sender

def messageByOperation (room : String) (operation : Operation) (db : Db) : Option Message :=
  (db.messages.find? fun r => r.room = room && r.operation = some operation).map MessageRow.toMessage

/-- One ordered page of a room's archive. -/
def messagesAfter (room : String) (afterId limit : Nat) (db : Db) : List Message :=
  ((orderBy MessageRow.id (db.messages.filter fun r => r.room = room && afterId < r.id)).take
    limit).map MessageRow.toMessage

def maxMessageId (db : Db) : Nat := (db.messages.map MessageRow.id).foldr max 0

def resolveRoomAttachment (room id : String) (db : Db) : Option Attachment :=
  match db.attachmentPending.find? fun r => r.sha = id && r.room = room with
  | some r => some ⟨id, id, r.name, r.mime, r.size⟩
  | none => (db.attachmentRefs.find? fun r => r.sha = id && r.room = room).map
      fun r => ⟨id, id, r.name, r.mime, r.size⟩

/-! ## Storing -/

def insertMessageRow (m : Message) (operation : Option Operation) (db : Db) :
    Except StoreError Db := do
  require (∀ r ∈ db.messages, r.id ≠ m.id) .constraint
  require (∀ r ∈ db.messages, operation.isSome → ¬(r.room = m.room ∧ r.operation = operation))
    .constraint
  pure { db with messages := db.messages ++ [MessageRow.ofMessage m operation] }

/-- Is the file still there for this room: uploaded, or cited before? -/
def fileClaimable (room sha : String) (db : Db) : Bool :=
  (db.attachmentPending.any fun r => r.sha = sha && r.room = room) ||
    db.attachmentRefs.any fun r => r.room = room && r.sha = sha

def claimAttachment (m : Message) (db : Db) (a : Attachment) : Except StoreError Db := do
  require (fileClaimable m.room a.sha256 db = true) .changedRows
  let refs ← found (insertNew (fun r => (r.room, r.messageId, r.sha))
    ⟨m.room, m.id, a.sha256, a.name, a.mime, a.size, m.ts⟩ db.attachmentRefs) .constraint
  pure { db with
    attachmentRefs := refs
    attachmentPending := deleteWhere (fun r => r.sha = a.sha256 && r.room = m.room)
      db.attachmentPending }

def writeAttachmentRefs (m : Message) (db : Db) : Except StoreError Db :=
  m.attachments.foldlM (claimAttachment m) db

/-- What every message transaction does. -/
def writeMessage (m : Message) (operation : Option Operation) (db : Db) : Except StoreError Db := do
  let db ← insertMessageRow m operation db
  writeAttachmentRefs m (db.withCare (db.care.resetSilenceCare m.room m.ts))

def insertMessage (m : Message) (operation : Option Operation) (db : Db) : Except StoreError Db := do
  requireUnsealedRoom m.room db
  writeMessage m operation db

def insertMessageWithRoom (m : Message) (mode : ChatMode) (settings : RoomSettings)
    (operation : Option Operation) (db : Db) : Except StoreError Db := do
  let db ← writeRoomState m.room mode settings db
  writeMessage m operation db

/-- The optional room state of the two transactions below. -/
def writeRoomState? (room : String) (state : Option (ChatMode × RoomSettings)) (db : Db) :
    Except StoreError Db :=
  match state with
  | none => pure db
  | some (mode, settings) => writeRoomState room mode settings db

def insertMessageWithCare (m : Message) (state : Option (ChatMode × RoomSettings))
    (operation : Option Operation) (deliveryRoom : String) (signals : List CareSignal) (db : Db) :
    Except StoreError Db := do
  requireUnsealedRoom m.room db
  let db ← writeRoomState? m.room state db
  let db ← writeMessage m operation db
  pure (db.withCare (signals.foldl (CareTables.writeCare deliveryRoom) db.care))

def writeWait (wait : WaitState) (db : Db) : Db :=
  { db with waits := upsert (fun r => (r.room, r.waiter)) wait db.waits }

def insertMessageWithWaitWake (m : Message) (state : Option (ChatMode × RoomSettings))
    (operation : Option Operation) (deliveryRoom waiter : String) (now : Nat) (wait : WaitState)
    (wake : CareSignal) (db : Db) : Except StoreError Db := do
  requireUnsealedRoom m.room db
  let db ← writeRoomState? m.room state db
  let db ← writeMessage m operation db
  let db := writeWait wait (db.withCare (db.care.resolveWaitAttentions m.room waiter now))
  pure (db.withCare (db.care.writeCare deliveryRoom wake))

/-! ## What a stored message has passed and changed -/

theorem writeRoomState_ok {room : String} {mode : ChatMode} {settings : RoomSettings} {db db' : Db} :
    writeRoomState room mode settings db = .ok db' ↔ isSealed room db = false ∧
      db' = { db with
        rooms := insertOrUpdate RoomRow.room ⟨room, mode, settings, none⟩
          (fun r => { r with mode := mode, settings := settings }) db.rooms } := by
  simp only [writeRoomState, requireUnsealedRoom, bind_ok, require_ok, pure_ok, exists_const]
  exact and_congr_right fun _ => eq_comm

theorem writeAttachmentRefs_ok {m : Message} {db db' : Db} (h : writeAttachmentRefs m db = .ok db') :
    ∃ refs pending, db' = { db with attachmentRefs := refs, attachmentPending := pending } := by
  unfold writeAttachmentRefs at h
  generalize m.attachments = attachments at h
  -- the files are claimed one after the other, each claim touching only these two tables
  induction attachments generalizing db with
  | nil =>
      cases h
      exact ⟨db'.attachmentRefs, db'.attachmentPending, rfl⟩
  | cons a attachments ih =>
      rw [List.foldlM_cons, bind_ok] at h
      obtain ⟨db₁, h₁, h⟩ := h
      simp only [claimAttachment, bind_ok, require_ok, found_ok, pure_ok, exists_const] at h₁
      obtain ⟨-, refs, -, rfl⟩ := h₁
      obtain ⟨refs', pending', rfl⟩ := ih h
      exact ⟨refs', pending', rfl⟩

theorem writeMessage_ok {m : Message} {operation : Option Operation} {db db' : Db}
    (h : writeMessage m operation db = .ok db') :
    (∀ r ∈ db.messages, r.id ≠ m.id) ∧
    (∀ r ∈ db.messages, operation.isSome → ¬(r.room = m.room ∧ r.operation = operation)) ∧
    ∃ refs pending, db' = { db.withCare (db.care.resetSilenceCare m.room m.ts) with
      messages := db.messages ++ [MessageRow.ofMessage m operation]
      attachmentRefs := refs
      attachmentPending := pending } := by
  simp only [writeMessage, insertMessageRow, bind_ok, require_ok, pure_ok, exists_const] at h
  obtain ⟨db₁, ⟨hid, hop, rfl⟩, h⟩ := h
  obtain ⟨refs, pending, rfl⟩ := writeAttachmentRefs_ok h
  exact ⟨hid, hop, refs, pending, rfl⟩

end Loca
