/-
# `Loca.Store.Care` — attentions, deliveries and marks on disk

`store/attention.rs`, with the prefix updates that the message, task, goal and wait
transactions share.  Three tables: `attentions` is the ledger, `care_outbox` the
deliveries, `care_marks` the reminder counters of a room.

The ledger's rows are found by id, and ids are strings made of a room name, a condition
and names, joined by colons.  A condition is retired with an update over all ids at or
under its key (`underKey`), without looking at the room column.

Every function here is total on the three tables and leaves the rest of the database
alone (`Db.withCare`).
-/
import Loca.Base.Table
import Loca.Base.Text
import Loca.Store.Schema

namespace Loca

open Table Text

/-- The three tables of care. -/
@[ext]
structure CareTables where
  marks : List CareMarkRow
  outbox : List OutboxRow
  attentions : List AttentionRow
  deriving DecidableEq, Repr

def Db.care (db : Db) : CareTables := ⟨db.careMarks, db.careOutbox, db.attentions⟩

def Db.withCare (db : Db) (c : CareTables) : Db :=
  { db with careMarks := c.marks, careOutbox := c.outbox, attentions := c.attentions }

/-! ## Keys -/

/-- The id of a room's condition `key`. -/
def attentionKey (room key : String) : String := attentionPrefix room ++ key

/-- `id = p OR substr(id, 1, length(p) + 1) = p || ':'`. -/
def underKey (p id : String) : Bool := id = p || hasPrefix (p ++ ":") id

def taskKey (id : Nat) : String := "task:" ++ toString id
def goalKey (id : Nat) : String := "goal:" ++ toString id
def waitKey (waiter : String) : String := "wait:" ++ waiter

/-! ## Retiring a condition -/

/-- `resolved_at = COALESCE(resolved_at, at)`. -/
def AttentionRow.resolve (now : Nat) (r : AttentionRow) : AttentionRow :=
  { r with resolvedAt := some (r.resolvedAt.getD now) }

/-- `acked_at = COALESCE(acked_at, at)`. -/
def OutboxRow.ack (now : Nat) (r : OutboxRow) : OutboxRow :=
  { r with ackedAt := some (r.ackedAt.getD now) }

namespace CareTables

/-- Resolve the attentions at or under a key and acknowledge their deliveries. -/
def resolveUnder (p : String) (now : Nat) (c : CareTables) : CareTables :=
  { c with
    attentions := updateWhere (fun r => underKey p r.id) (AttentionRow.resolve now) c.attentions
    outbox := updateWhere (fun r => underKey p r.attentionId) (OutboxRow.ack now) c.outbox }

/-- `DELETE FROM care_marks WHERE room = ?1 AND signal_key = ?2`. -/
def deleteMark (room key : String) (c : CareTables) : CareTables :=
  { c with marks := deleteWhere (fun r => r.room = room && r.signalKey = key) c.marks }

/-- Progress on a condition: its mark goes and its attentions are resolved. -/
def resetCare (room key : String) (now : Nat) (c : CareTables) : CareTables :=
  resolveUnder (attentionKey room key) now (deleteMark room key c)

def resetSilenceCare (room : String) (now : Nat) (c : CareTables) : CareTables :=
  resetCare room "silence" now c

/-- The unresolved wait-cycle attentions of the room that name the waiter. -/
def cycleIds (room waiter : String) (c : CareTables) : List String :=
  (c.attentions.filter fun r => r.room = room && r.resolvedAt.isNone &&
    r.signal.reason = .waitCycle && r.signal.participants.contains waiter).map AttentionRow.id

/-- One turn of the loop over the cycle ids. -/
def resolveCycle (room : String) (now : Nat) (c : CareTables) (id : String) : CareTables :=
  let c := match stripPrefix (attentionPrefix room) id with
    | some signalKey => deleteMark room signalKey c
    | none => c
  { c with
    attentions := updateWhere (fun r => r.id = id) (AttentionRow.resolve now) c.attentions
    outbox := updateWhere (fun r => r.attentionId = id) (OutboxRow.ack now) c.outbox }

/-- `resolve_wait_attentions`: the waiter's overdue reminders, then the cycles. -/
def resolveWaitAttentions (room waiter : String) (now : Nat) (c : CareTables) : CareTables :=
  (cycleIds room waiter c).foldl (resolveCycle room now)
    (resolveUnder (attentionKey room (waitKey waiter)) now c)

end CareTables

/-! ## Filing a signal -/

/-- The condition's id; a signal without one stands for itself. -/
def CareSignal.stableId (s : CareSignal) : String :=
  if s.attentionId = "" then s.id else s.attentionId

/-- The ledger row of a new signal. -/
def CareSignal.newRow (s : CareSignal) : AttentionRow :=
  ⟨s.stableId, s.originRoom, s, s.owner, s.signalAt, none, none, none, none⟩

/-- Neither claimed nor resolved. -/
def AttentionRow.isOpen (r : AttentionRow) : Bool := r.claimedAt.isNone && r.resolvedAt.isNone

namespace CareTables

/-- The delivery of a signal to its owner, once. -/
def deliver (deliveryRoom : String) (s : CareSignal) (outbox : List OutboxRow) : List OutboxRow :=
  match s.owner with
  | none => outbox
  | some owner => insertIgnore OutboxRow.id
      ⟨s.id, s.stableId, deliveryRoom, owner, s.ownerPrincipalId, s, s.signalAt, none⟩ outbox

/-- `write_care`: a claim or a resolution freezes the row, and nothing is delivered. -/
def writeCare (deliveryRoom : String) (c : CareTables) (s : CareSignal) : CareTables :=
  if hasKey AttentionRow.id s.stableId c.attentions then
    if c.attentions.any fun r => r.id = s.stableId && r.isOpen then
      { c with
        attentions := updateWhere (fun r => r.id = s.stableId && r.isOpen)
          (fun r => { r with signal := s, owner := s.owner }) c.attentions
        outbox := deliver deliveryRoom s c.outbox }
    else c
  else
    { c with
      attentions := c.attentions ++ [s.newRow]
      outbox := deliver deliveryRoom s c.outbox }

/-- `INSERT OR REPLACE INTO care_marks`. -/
def writeMark (room key : String) (lastSignalAt signalCount : Nat) (c : CareTables) : CareTables :=
  { c with
    marks := upsert (fun r => (r.room, r.signalKey))
      ⟨room, key, lastSignalAt, signalCount⟩ c.marks }

def enqueueCareWithMark (room key : String) (lastSignalAt signalCount : Nat)
    (deliveryRoom : String) (s : CareSignal) (c : CareTables) : CareTables :=
  writeCare deliveryRoom (writeMark room key lastSignalAt signalCount c) s

def enqueueEveryoneCare (room key : String) (lastSignalAt signalCount : Nat)
    (signals : List CareSignal) (c : CareTables) : CareTables :=
  signals.foldl (fun c s => writeCare s.room c s) (writeMark room key lastSignalAt signalCount c)

/-! ## Reading and settling one attention -/

/-- The row under an id. -/
def row (id : String) (c : CareTables) : Option AttentionRow :=
  c.attentions.find? fun r => r.id = id

/-- A room's reminder counter. -/
def mark (room key : String) (c : CareTables) : Option CareMarkRow :=
  c.marks.find? fun r => r.room = room && r.signalKey = key

end CareTables

/-- `attention_from_row`. -/
def attentionFromRow (r : AttentionRow) : Attention where
  id := r.signal.stableId
  room := r.signal.originRoom
  reason := r.signal.reason
  subject := r.signal.subject
  audience := r.signal.audience
  owner := r.signal.owner
  group := r.signal.group
  participants := r.signal.participants
  createdBy := r.signal.createdBy
  createdAt := r.createdAt
  attempt := r.signal.attempt
  escalated := r.signal.escalated
  status := if r.resolvedAt.isSome then .resolved else if r.claimedAt.isSome then .claimed else .opened
  deliveredAt := r.deliveredAt
  claimedBy := r.claimedBy
  claimedAt := r.claimedAt
  resolvedAt := r.resolvedAt

namespace CareTables

def attention (id : String) (c : CareTables) : Option Attention := (c.row id).map attentionFromRow

/-- `SELECT … FROM attentions WHERE room = ?1 ORDER BY created_at, id`. -/
def attentionsOf (room : String) (c : CareTables) : List Attention :=
  (orderBy AttentionRow.createdAt (orderBy AttentionRow.id
    (c.attentions.filter fun r => r.room = room))).map attentionFromRow

/-- `attention_owner_principal_id`: the principal inside the signal. -/
def attentionOwnerPrincipalId (id : String) (c : CareTables) : Option (Option String) :=
  (c.row id).map fun r => r.signal.ownerPrincipalId

/-- `UPDATE attentions SET claimed_by, claimed_at WHERE id AND` open; whether a row changed. -/
def claimAttention (id actor : String) (now : Nat) (c : CareTables) : Bool × CareTables :=
  (c.attentions.any fun r => r.id = id && r.isOpen,
    { c with
      attentions := updateWhere (fun r => r.id = id && r.isOpen)
        (fun r => { r with claimedBy := some actor, claimedAt := some now }) c.attentions })

def resolveAttention (id : String) (now : Nat) (c : CareTables) : Bool × CareTables :=
  if c.attentions.any fun r => r.id = id && r.resolvedAt.isNone then
    (true, { c with
      attentions := updateWhere (fun r => r.id = id && r.resolvedAt.isNone)
        (fun r => { r with resolvedAt := some now }) c.attentions
      outbox := updateWhere (fun r => r.attentionId = id) (OutboxRow.ack now) c.outbox })
  else (false, c)

end CareTables

/-- Is the delivery for this session?  One bound to a principal is only that principal's, an
older one goes by the display name. -/
def OutboxRow.addressedTo (owner : String) (principal : Option String) (r : OutboxRow) : Bool :=
  match r.ownerPrincipalId with
  | none => r.owner = owner
  | some p => principal = some p

namespace CareTables

/-- The rows a session is sent again: not acknowledged, and their attention, where there is
one, not resolved. -/
def pendingRows (deliveryRoom owner : String) (principal : Option String) (c : CareTables) :
    List OutboxRow :=
  orderBy OutboxRow.createdAt (orderBy OutboxRow.id (c.outbox.filter fun r =>
    r.deliveryRoom = deliveryRoom && r.ackedAt.isNone &&
      ((c.row r.attentionId).all fun a => a.resolvedAt.isNone) && r.addressedTo owner principal))

def pendingCareScoped (deliveryRoom owner : String) (principal : Option String) (c : CareTables) :
    List CareSignal :=
  ((c.pendingRows deliveryRoom owner principal).map OutboxRow.signal).filter fun s =>
    s.room = deliveryRoom

/-- May this session acknowledge the delivery?  A delivery bound to a principal is only
that principal's; an older one goes by the display name. -/
def ackable (id owner : String) (principal : Option String) (r : OutboxRow) : Bool :=
  r.id = id && r.ackedAt.isNone && match r.ownerPrincipalId with
    | none => r.owner = owner
    | some p => principal = some p

def ackCareScoped (id owner : String) (principal : Option String) (now : Nat) (c : CareTables) :
    Bool × CareTables :=
  match c.outbox.find? (ackable id owner principal) with
  | none => (false, c)
  | some r => (true, { c with
      outbox := updateWhere (ackable id owner principal)
        (fun r => { r with ackedAt := some now }) c.outbox
      attentions := updateWhere (fun a => a.id = r.attentionId)
        (fun a => { a with deliveredAt := some (a.deliveredAt.getD now) }) c.attentions })

def attentionIdForDelivery (id : String) (c : CareTables) : Option String :=
  (c.outbox.find? fun r => r.id = id).map OutboxRow.attentionId

/-- `pause_room_attentions`: an archived room keeps its ledger and loses its reminders. -/
def pauseRoomAttentions (room : String) (now : Nat) (c : CareTables) : CareTables :=
  { c with
    outbox := updateWhere (fun r => c.attentions.any fun a => a.room = room && a.id = r.attentionId)
      (OutboxRow.ack now) c.outbox
    marks := deleteWhere (fun r => r.room = room) c.marks }

/-- `retire_room_attentions`: a sealed room's ledger is settled too. -/
def retireRoomAttentions (room : String) (now : Nat) (c : CareTables) : CareTables :=
  let c := pauseRoomAttentions room now c
  { c with attentions := updateWhere (fun r => r.room = room) (AttentionRow.resolve now) c.attentions }

end CareTables

end Loca
