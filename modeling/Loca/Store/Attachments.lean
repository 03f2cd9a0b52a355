/-
# `Loca.Store.Attachments` — uploads, citations and the sweep

`store/attachment_index.rs` over the content-addressed files of `store/attachments.rs`.  The
bytes lie in files named by their hash; three tables say which of them are there
(`attachment_blobs`), wait to be sent (`attachment_pending`) and are cited by a message
(`attachment_refs`).  Nothing counts references: what may be served and what may be deleted is
read off the tables.

The hash is a parameter.  A file store is a map from hashes to bytes; a put leaves an intact
file alone, a read checks the hash, deleting a missing file is no error.  Every statement and
every file operation may fail, and a failed one does nothing.

Times are unsigned, and the database keeps them as signed numbers: `signed` is that reading.
-/
import Mathlib.Algebra.Order.Ring.Int
import Mathlib.Algebra.Order.Ring.Nat
import Loca.Base.Assoc
import Loca.Store.Messages

namespace Loca

open Check Table

/-- The bytes of a file.  No buffer holds `2 ^ 63` of them. -/
structure Bytes where
  data : List UInt8
  bound : data.length < 2 ^ 63
  deriving DecidableEq, Repr

def Bytes.size (b : Bytes) : Nat := b.data.length

/-- The calls of an attachment operation that may fail. -/
inductive AttachCall
  | blobExists | roomHas | sumBuilding | sumRoom | putFile | insertBlob | insertPending
  | write
  | deletePending | orphans
  | orphan (sha : String)
  | deleteFile (sha : String)
  | deleteBlob (sha : String)
  | readRef | readFile
  deriving DecidableEq, Repr

inductive AttachError | quotaRoom | quotaBuilding | storage
  deriving DecidableEq, Repr

/-- `sha_hex` and the two quotas. -/
structure BlobConfig where
  sha : Bytes → String
  roomMax : Nat
  buildingMax : Nat

/-- The database and the files beside it. -/
structure Shelf where
  db : Db
  files : Assoc String Bytes

/-! ## Numbers -/

/-- A `u64` read as an `i64`. -/
def signed (x : Nat) : Int := if x < 2 ^ 63 then x else x - 2 ^ 64

/-- `(now as i64).saturating_sub(ttl as i64)`. -/
def cutoff (now ttl : UInt64) : Int :=
  max (-2 ^ 63) (min (2 ^ 63 - 1) (signed now.toNat - signed ttl.toNat))

/-- `SELECT COALESCE(SUM(size),0)`; a sum that does not fit is an error. -/
def sumI64 (sizes : List Nat) : Option Nat := if sizes.sum < 2 ^ 63 then some sizes.sum else none

/-- `u64::saturating_add`. -/
def saturatingAdd (a b : Nat) : Nat := min (2 ^ 64 - 1) (a + b)

/-! ## Uploading -/

/-- `BlobStore::put`. -/
def putBlob (cfg : BlobConfig) (bytes : Bytes) (files : Assoc String Bytes) : Assoc String Bytes :=
  if (files.get (cfg.sha bytes)).any fun b => cfg.sha b = cfg.sha bytes then files
  else files.put (cfg.sha bytes) bytes

/-- The files of a room, cited or waiting, each once with its size. -/
def roomFiles (room : String) (db : Db) : List (String × Nat) :=
  ((db.attachmentRefs.filter fun r => r.room = room).map (fun r => (r.sha, r.size)) ++
    (db.attachmentPending.filter fun r => r.room = room).map fun r => (r.sha, r.size)).dedup

/-- Does a size fit beside what is used? -/
def withinQuota (fault : Bool) (sizes : List Nat) (size max : Nat) (e : AttachError) :
    Except AttachError Unit := do
  let used ← found (if fault then none else sumI64 sizes) AttachError.storage
  require (saturatingAdd used size ≤ max) e

/-- A file that is already there costs the building nothing. -/
def withinBuilding (cfg : BlobConfig) (fails : AttachCall → Bool) (bytes : Bytes) (db : Db) :
    Except AttachError Unit :=
  if hasKey AttachmentBlobRow.sha (cfg.sha bytes) db.attachmentBlobs then pure ()
  else withinQuota (fails .sumBuilding) (db.attachmentBlobs.map AttachmentBlobRow.size) bytes.size
    cfg.buildingMax .quotaBuilding

/-- One that is already in the room costs the room nothing. -/
def withinRoom (cfg : BlobConfig) (fails : AttachCall → Bool) (room : String) (bytes : Bytes) (db : Db) :
    Except AttachError Unit :=
  if fileClaimable room (cfg.sha bytes) db then pure ()
  else withinQuota (fails .sumRoom) ((roomFiles room db).map Prod.snd) bytes.size cfg.roomMax .quotaRoom

/-- What an upload passes before anything is written. -/
def admitUpload (cfg : BlobConfig) (fails : AttachCall → Bool) (room : String) (bytes : Bytes) (db : Db) :
    Except AttachError Unit := do
  require (fails .blobExists = false ∧ fails .roomHas = false) .storage
  withinBuilding cfg fails bytes db
  withinRoom cfg fails room bytes db

/-- `put_pending_attachment`: the file first, then its rows. -/
def putPendingAttachment (cfg : BlobConfig) (fails : AttachCall → Bool)
    (room uploader name mime : String) (bytes : Bytes) (now : UInt64) (s : Shelf) :
    Except AttachError Attachment × Shelf :=
  let sha := cfg.sha bytes
  match admitUpload cfg fails room bytes s.db with
  | .error e => (.error e, s)
  | .ok () =>
    if fails .putFile then (.error .storage, s)
    else
      let s := { s with files := putBlob cfg bytes s.files }
      if fails .insertBlob then (.error .storage, s)
      else
        let s := { s with db := { s.db with
          attachmentBlobs := insertIgnore AttachmentBlobRow.sha ⟨sha, mime, bytes.size, now.toNat⟩
            s.db.attachmentBlobs } }
        if fails .insertPending then (.error .storage, s)
        else
          (.ok ⟨sha, sha, name, mime, bytes.size⟩, { s with db := { s.db with
            attachmentPending := upsert (fun r => (r.sha, r.room))
              ⟨sha, room, uploader, name, mime, bytes.size, now.toNat⟩ s.db.attachmentPending } })

/-! ## Citing, serving, deleting -/

/-- The four transactions that store a message. -/
inductive MessageWrite
  | plain
  | withRoom (mode : ChatMode) (settings : RoomSettings)
  | withCare (state : Option (ChatMode × RoomSettings)) (deliveryRoom : String) (signals : List CareSignal)
  | withWaitWake (state : Option (ChatMode × RoomSettings)) (deliveryRoom waiter : String) (now : Nat)
      (wait : WaitState) (wake : CareSignal)

def MessageWrite.run (m : Message) (operation : Option Operation) (db : Db) :
    MessageWrite → Except StoreError Db
  | .plain => insertMessage m operation db
  | .withRoom mode settings => insertMessageWithRoom m mode settings operation db
  | .withCare state deliveryRoom signals => insertMessageWithCare m state operation deliveryRoom signals db
  | .withWaitWake state deliveryRoom waiter now wait wake =>
      insertMessageWithWaitWake m state operation deliveryRoom waiter now wait wake db

structure BlobServe where
  bytes : Bytes
  mime : String
  name : String
  deriving DecidableEq, Repr

/-- `BlobStore::read`. -/
def readBlob (cfg : BlobConfig) (id : String) (files : Assoc String Bytes) : Option Bytes :=
  (files.get id).filter fun b => cfg.sha b = id

/-- A read that may fail, and then finds nothing. -/
def readUnless {α : Type} (fault : Bool) (o : Option α) : Option α := if fault then none else o

/-- `read_room_attachment`: a file is served in the rooms that cite it. -/
def readRoomAttachment (cfg : BlobConfig) (fails : AttachCall → Bool) (room id : String) (s : Shelf) :
    Option BlobServe :=
  (readUnless (fails .readRef) (s.db.attachmentRefs.find? fun r => r.room = room && r.sha = id)).bind
    fun r => (readUnless (fails .readFile) (readBlob cfg id s.files)).map fun bytes =>
      ⟨bytes, r.mime, r.name⟩

/-- Deleting messages takes their references along (`ON DELETE CASCADE`). -/
def deleteMessages (p : MessageRow → Bool) (db : Db) : Db :=
  { db with
    messages := deleteWhere p db.messages
    attachmentRefs := deleteWhere (fun r => db.messages.any fun m => p m && m.id = r.messageId)
      db.attachmentRefs }

/-! ## The sweep -/

/-- Does a row of the index have neither a message nor an upload behind it? -/
def orphaned (db : Db) (sha : String) : Bool :=
  !(db.attachmentRefs.any fun r => r.sha = sha) && !db.attachmentPending.any fun r => r.sha = sha

/-- The file first; the row goes only when the file is gone. -/
def sweepBlob (fails : AttachCall → Bool) (acc : Nat × Shelf) (sha : String) : Nat × Shelf :=
  if fails (.deleteFile sha) then acc
  else (acc.1 + 1,
    { files := acc.2.files.del sha
      db := if fails (.deleteBlob sha) then acc.2.db
        else { acc.2.db with
          attachmentBlobs := deleteWhere (fun b => b.sha = sha) acc.2.db.attachmentBlobs } })

/-- The first wave: uploads that were never sent. -/
def dropExpired (fails : AttachCall → Bool) (now ttl : UInt64) (db : Db) : Db :=
  if fails .deletePending then db
  else { db with
    attachmentPending := deleteWhere (fun r => signed r.createdAt < cutoff now ttl) db.attachmentPending }

/-- The hashes the second wave visits. -/
def orphanShas (fails : AttachCall → Bool) (db : Db) : List String :=
  if fails .orphans then []
  else ((db.attachmentBlobs.map AttachmentBlobRow.sha).filter fun sha => orphaned db sha).filter
    fun sha => !fails (.orphan sha)

/-- `sweep_attachments`; how many files it deleted. -/
def sweepAttachments (fails : AttachCall → Bool) (now ttl : UInt64) (s : Shelf) : Nat × Shelf :=
  let db := dropExpired fails now ttl s.db
  (orphanShas fails db).foldl (sweepBlob fails) (0, { s with db := db })

end Loca
