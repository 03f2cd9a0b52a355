/-
# `Loca.Store.Schema` — the tables

The SQLite schema of `crates/server/src/store.rs`, one row type per table, columns in
the source's order.  A text column that holds one of a few fixed words is kept as text
where a query compares it with a literal (`messages.kind`, `bans.kind`), and is an
inductive type where it is only written and read back.  A column that holds the JSON of
a record holds the record: `serde_json` writes and reads these types without loss.

`Db` is the whole database.  The key of each table stands next to its row type.
-/
import Loca.Protocol

namespace Loca

/-! ## Messages -/

structure MessageRow where
  id : Nat
  room : String
  sender : String
  senderType : String
  target : Option String
  text : String
  replyTo : Option Nat
  ts : Nat
  kind : String
  principal : Option String
  opId : Option String
  /-- `NULL` for a message without attachments. -/
  attachments : Option (List Attachment)
  deriving DecidableEq, Repr

structure ReactionRow where
  room : String
  messageId : Nat
  principal : String
  reactor : String
  emoji : String
  createdAt : Nat
  deriving DecidableEq, Repr

def senderTypeStr : SenderType → String
  | .agent => "agent"
  | .user => "user"

def parseSenderType (s : String) : SenderType :=
  if s = "agent" then .agent else .user

def kindStr : MessageKind → String
  | .announce => "announce"
  | .say => "say"

def parseKind (s : String) : MessageKind :=
  if s = "announce" then .announce else .say

def attachmentsToJson (a : List Attachment) : Option (List Attachment) :=
  if a.isEmpty then none else some a

def attachmentsFromJson (raw : Option (List Attachment)) : List Attachment :=
  raw.getD []

@[simp] theorem parseSenderType_str (t : SenderType) : parseSenderType (senderTypeStr t) = t := by
  cases t <;> rfl

@[simp] theorem parseKind_str (k : MessageKind) : parseKind (kindStr k) = k := by
  cases k <;> rfl

@[simp] theorem attachmentsFromJson_to (a : List Attachment) :
    attachmentsFromJson (attachmentsToJson a) = a := by
  cases a <;> rfl

/-- The message a `messages` row is read back as; the reply author is not persisted. -/
def MessageRow.toMessage (r : MessageRow) : Message where
  id := r.id
  room := r.room
  sender := r.sender
  senderType := parseSenderType r.senderType
  target := r.target
  text := r.text
  kind := parseKind r.kind
  replyTo := r.replyTo
  replyToSender := none
  ts := r.ts
  attachments := attachmentsFromJson r.attachments

/-! ## Living state: notes, work, waits, care -/

structure NoteRow where
  room : String
  note : Note
  deriving DecidableEq, Repr

structure NoteRevisionRow where
  room : String
  key : String
  rev : Nat
  title : String
  body : String
  updatedBy : String
  updatedAt : Nat
  deriving DecidableEq, Repr

structure CareMarkRow where
  room : String
  signalKey : String
  lastSignalAt : Nat
  signalCount : Nat
  deriving DecidableEq, Repr

structure OutboxRow where
  id : String
  attentionId : String
  deliveryRoom : String
  owner : String
  ownerPrincipalId : Option String
  signal : CareSignal
  createdAt : Nat
  ackedAt : Option Nat
  deriving DecidableEq, Repr

structure AttentionRow where
  id : String
  room : String
  signal : CareSignal
  owner : Option String
  createdAt : Nat
  deliveredAt : Option Nat
  claimedBy : Option String
  claimedAt : Option Nat
  resolvedAt : Option Nat
  deriving DecidableEq, Repr

/-- The ids of a room's condition attentions begin with this. -/
def attentionPrefix (room : String) : String := "attention:" ++ room ++ ":"

/-! ## Rooms and who belongs to them -/

structure RoomRow where
  room : String
  mode : ChatMode
  settings : RoomSettings
  sealedAt : Option Nat
  deriving DecidableEq, Repr

structure InviteRow where
  invite : Invite
  revokedAt : Option Nat
  deriving DecidableEq, Repr

structure BanRow where
  room : String
  name : String
  kind : String
  banAt : Nat
  deriving DecidableEq, Repr

structure MemberRow where
  membership : Membership
  revokedAt : Option Nat
  deriving DecidableEq, Repr

/-- The columns of `credentials` that tie a member token to its principal. -/
structure CredentialRow where
  legacySource : String
  principalId : String
  deriving DecidableEq, Repr

inductive BuildingRole | master | smaster | member
  deriving DecidableEq, Repr

structure OperatorRow where
  id : Nat
  room : String
  principalId : String
  appointedByPrincipalId : String
  appointedByRole : BuildingRole
  appointedAt : Nat
  revokedAt : Option Nat
  deriving DecidableEq, Repr

structure PrincipalRow where
  id : String
  displayName : String
  kind : String
  buildingRole : BuildingRole
  createdAt : Nat
  disabledAt : Option Nat
  deriving DecidableEq, Repr

/-! ## Loca memory -/

structure MemoryRow where
  room : String
  owner : Option String
  ownerPrincipalId : Option String
  short : String
  long : String
  shortUpdatedAt : Option Nat
  longUpdatedAt : Option Nat
  version : Nat
  deriving DecidableEq, Repr

structure MemoryEntryRow where
  id : Nat
  room : String
  text : String
  decidedBy : String
  decidedAt : Nat
  deriving DecidableEq, Repr

/-! ## Attachments -/

structure AttachmentBlobRow where
  sha : String
  mime : String
  size : Nat
  createdAt : Nat
  deriving DecidableEq, Repr

structure AttachmentPendingRow where
  sha : String
  room : String
  uploader : String
  name : String
  mime : String
  size : Nat
  createdAt : Nat
  deriving DecidableEq, Repr

structure AttachmentRefRow where
  room : String
  messageId : Nat
  sha : String
  name : String
  mime : String
  size : Nat
  createdAt : Nat
  deriving DecidableEq, Repr

/-! ## The wiki -/

structure WikiPage where
  slug : String
  title : String
  body : String
  sources : List Nat
  revision : Nat
  deriving DecidableEq, Repr

structure WikiCommit where
  expectedRevision : Nat
  reviewedThrough : Nat
  reason : String
  pages : List WikiPage
  deriving DecidableEq, Repr

structure WikiRow where
  room : String
  editorPrincipal : String
  enabled : Bool
  intervalMessages : Nat
  revision : Nat
  reviewedThrough : Nat
  reviewedAt : Option Nat
  editedAt : Option Nat
  deriving DecidableEq, Repr

structure WikiPageRow where
  room : String
  slug : String
  title : String
  body : String
  sources : List Nat
  revision : Nat
  deriving DecidableEq, Repr

structure WikiHistoryRow where
  room : String
  slug : String
  revision : Nat
  title : String
  body : String
  sources : List Nat
  editorPrincipal : String
  reason : String
  editedAt : Nat
  deriving DecidableEq, Repr

inductive BatchStatus | queued | running | blocked | completed | cancelled
  deriving DecidableEq, Repr

/-- `status IN ('queued','running','blocked')`. -/
def BatchStatus.active : BatchStatus → Bool
  | .queued | .running | .blocked => true
  | .completed | .cancelled => false

structure WikiBatchRow where
  id : Nat
  room : String
  editorPrincipal : String
  afterId : Nat
  throughId : Nat
  status : BatchStatus
  reason : String
  createdAt : Nat
  epoch : Nat
  attempts : Nat
  leaseExpiresAt : Nat
  deriving DecidableEq, Repr

structure WikiLeaseRow where
  batchId : Nat
  epoch : Nat
  startedAt : Nat
  deriving DecidableEq, Repr

/-- `request` is the JSON of the accepted commit. -/
structure WikiReceiptRow where
  room : String
  batchId : Nat
  epoch : Nat
  editorPrincipal : String
  request : WikiCommit
  revision : Nat
  deriving DecidableEq, Repr

structure WikiRuntimeRow where
  room : String
  principal : String
  runtime : String
  readyAt : Nat
  deriving DecidableEq, Repr

structure ContextSelectionRow where
  room : String
  principal : String
  slugs : List String
  reason : String
  version : Nat
  requestedAt : Nat
  deriving DecidableEq, Repr

structure ContextReceiptRow where
  room : String
  principal : String
  contextId : String
  packetId : String
  revision : Nat
  selectionVersion : Nat
  acceptedAt : Nat
  deriving DecidableEq, Repr

/-- The tables of `wiki.rs` and `wiki_maintenance.rs`.  `batchSeq` is the highest batch
id ever handed out (`AUTOINCREMENT`). -/
@[ext]
structure WikiTables where
  wiki : List WikiRow := []
  pages : List WikiPageRow := []
  history : List WikiHistoryRow := []
  batches : List WikiBatchRow := []
  batchSeq : Nat := 0
  leases : List WikiLeaseRow := []
  receipts : List WikiReceiptRow := []
  deriving DecidableEq, Repr

/-! ## The database -/

@[ext]
structure Db where
  messages : List MessageRow := []
  reactions : List ReactionRow := []
  notes : List NoteRow := []
  noteRevisions : List NoteRevisionRow := []
  tasks : List Task := []
  goals : List Goal := []
  waits : List WaitState := []
  careMarks : List CareMarkRow := []
  careOutbox : List OutboxRow := []
  attentions : List AttentionRow := []
  rooms : List RoomRow := []
  invites : List InviteRow := []
  journal : List JournalEntry := []
  bans : List BanRow := []
  members : List MemberRow := []
  credentials : List CredentialRow := []
  principals : List PrincipalRow := []
  operators : List OperatorRow := []
  operatorSeq : Nat := 0
  memory : List MemoryRow := []
  memoryEntries : List MemoryEntryRow := []
  attachmentBlobs : List AttachmentBlobRow := []
  attachmentPending : List AttachmentPendingRow := []
  attachmentRefs : List AttachmentRefRow := []
  wikis : WikiTables := {}
  wikiRuntimes : List WikiRuntimeRow := []
  contextSelections : List ContextSelectionRow := []
  contextReceipts : List ContextReceiptRow := []
  deriving DecidableEq, Repr

end Loca
