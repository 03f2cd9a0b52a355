/-
# `Loca.Hub.Room` — what the server holds in memory

The room record and the Hub of `hub.rs`, and the attention lifecycle of
`hub/attention/lifecycle.rs` as far as it acts on one room.  A hash map is a finite map, a
hash set a list; a room's broadcast channel is left out and the frames pushed down the
channels are collected in `World.sent`, each with the room it went to.

`World` is the server: the Hub, the database behind it, and what has been sent.
-/
import Loca.Base.Assoc
import Loca.Store.Work

namespace Loca

open Text

/-! ## Rooms -/

structure CareMark where
  lastSignalAt : Nat
  signalCount : Nat
  deriving DecidableEq, Repr

/-- One seat: the label it wears, and its live connections. -/
structure Seat where
  name : String
  kind : SenderType
  connections : Nat
  deriving DecidableEq, Repr

structure Room where
  history : List Message
  /-- Recently accepted operations, and the order they came in. -/
  operations : Assoc Operation Message
  operationOrder : List Operation
  members : Assoc String Seat
  notes : Assoc String Note
  journal : List JournalEntry
  nextJournalId : Nat
  nextRev : Nat
  mode : ChatMode
  settings : RoomSettings
  postTimes : Assoc String (List Nat)
  muted : List String
  banned : List String
  lastMsgMs : Nat
  tasks : Assoc Nat Task
  nextTaskId : Nat
  goals : Assoc Nat Goal
  nextGoalId : Nat
  waits : Assoc String WaitState
  careMarks : Assoc String CareMark
  attentions : Assoc String Attention

/-- `Room::with`. -/
def Room.fresh (mode : ChatMode) (settings : RoomSettings) (nextRev : Nat) : Room where
  history := []
  operations := ∅
  operationOrder := []
  members := ∅
  notes := ∅
  journal := []
  nextJournalId := 1
  nextRev := nextRev
  mode := mode
  settings := settings
  postTimes := ∅
  muted := []
  banned := []
  lastMsgMs := 0
  tasks := ∅
  nextTaskId := 1
  goals := ∅
  nextGoalId := 1
  waits := ∅
  careMarks := ∅
  attentions := ∅

/-- Every seat's name and kind, by name. -/
def Room.memberList (r : Room) : List Member :=
  Table.orderBy Member.name (r.members.values.map fun s => ⟨s.name, s.kind⟩)

/-- Does this name sit here with a live connection? -/
def Room.seated (name : String) (r : Room) : Bool :=
  r.members.values.any fun s => s.name = name && 0 < s.connections

/-- The names with a live connection, each once, in order. -/
def Room.liveNames (r : Room) : List String :=
  (Table.orderBy id ((r.members.values.filter fun s => 0 < s.connections).map Seat.name)).dedup

/-- The tail of the history that goes with a signal. -/
def Room.careContext (r : Room) : List Message :=
  r.history.drop (r.history.length - r.settings.careContextMessages)

/-! ## Resolving attentions in memory -/

def Attention.resolve (now : Nat) (a : Attention) : Attention :=
  { a with status := .resolved, resolvedAt := some now }

/-- Resolve the unresolved attentions that `hit` picks. -/
def Room.resolveWhere (hit : String → Attention → Bool) (now : Nat) (r : Room) : Room :=
  { r with
    attentions := r.attentions.mapVal fun id a =>
      if hit id a && a.status ≠ .resolved then a.resolve now else a }

/-- The frames that go with it, one for each attention that changed. -/
def Room.resolvedFrames (hit : String → Attention → Bool) (now : Nat) (r : Room) :
    List ServerFrame :=
  (r.attentions.entries.filter fun e => hit e.1 e.2 && e.2.status ≠ .resolved).map
    fun e => .attention (e.2.resolve now)

/-- The attentions of one condition of a room. -/
def conditionHit (room key : String) (id : String) (_ : Attention) : Bool :=
  underKey (attentionKey room key) id

/-- The attentions that end with a participant's wait: its own reminders, and the cycles it
is part of. -/
def waitHit (room waiter : String) (id : String) (a : Attention) : Bool :=
  underKey (attentionKey room (waitKey waiter)) id ||
    (a.reason = .waitCycle && a.participants.contains waiter)

def Room.resolveConditionAttention (room key : String) (now : Nat) (r : Room) : Room :=
  r.resolveWhere (conditionHit room key) now

/-- Drop the marks of the wait cycles that are about to be resolved. -/
def Room.dropCycleMarks (room waiter : String) (r : Room) : Room :=
  { r with
    careMarks := (r.attentions.entries.filter fun e =>
      waitHit room waiter e.1 e.2 && e.2.status ≠ .resolved && e.2.reason = .waitCycle).foldl
        (fun marks e => match stripPrefix (attentionPrefix room) e.1 with
          | some signalKey => marks.del signalKey
          | none => marks) r.careMarks }

def Room.resolveWaitAttentions (room waiter : String) (now : Nat) (r : Room) : Room :=
  (r.dropCycleMarks room waiter).resolveWhere (waitHit room waiter) now

/-- Progress on a condition, as memory sees it. -/
def Room.resetCare (room key : String) (now : Nat) (r : Room) : Room :=
  Room.resolveConditionAttention room key now { r with careMarks := r.careMarks.del key }

/-- The attention a signal describes, when the ledger cannot be read. -/
def Attention.ofSignal (s : CareSignal) : Attention where
  id := s.stableId
  room := s.originRoom
  reason := s.reason
  subject := s.subject
  audience := s.audience
  owner := s.owner
  group := s.group
  participants := s.participants
  createdBy := s.createdBy
  createdAt := s.signalAt
  attempt := s.attempt
  escalated := s.escalated
  status := .opened
  deliveredAt := none
  claimedBy := none
  claimedAt := none
  resolvedAt := none

/-! ## The Hub -/

structure Hub where
  rooms : Assoc String Room
  deleted : List String
  nextId : Nat
  conditionGeneration : Nat
  invites : Assoc String Invite
  members : Assoc String Membership
  /-- Delivery id to attention id, for the deliveries of this process. -/
  careDeliveries : Assoc String String

/-- What is fixed while the server runs.  `lowercase` and `alphanumeric` are the Unicode
tables of the standard library. -/
structure Config where
  homeRoom : String
  reservedRoom : String
  caretakers : List String
  defaultSettings : RoomSettings
  /-- The root credential; empty leaves the Building open. -/
  adminToken : String
  masterName : String
  /-- Is there a database behind the store? -/
  persistent : Bool
  digests : Digests
  lowercase : String → String
  alphanumeric : Char → Bool

structure World where
  hub : Hub
  db : Db
  sent : List (String × ServerFrame)

/-- A call to the store that may fail, as the operations make them. -/
inductive StoreCall
  | messageByOperation
  | resolveRoomAttachment (id : String)
  | messageOwner
  /-- The operation's write transaction. -/
  | write
  /-- The attachments are looked up again after a failed write. -/
  | resolveAgain (id : String)
  | attention (id : String)
  /-- A reminder's transaction, by room and condition. -/
  | enqueue (room key : String)
  | saveRoom (room : String)
  | revokeInvites
  | principalId (member : String)
  /-- The appointment in force, read before it is revoked. -/
  | locaOperator (room : String)
  deriving DecidableEq, Repr

/-- What an operation takes from outside: the clock, random bytes, the health of the
adapters, and which calls to the store fail. -/
structure Env where
  now : Nat
  /-- `secure_token`: the random part of a token, by the room it is drawn for and its use. -/
  token : String → String → String
  /-- `runtime_health_for(name)` is there and ready. -/
  ready : String → Bool
  fails : StoreCall → Bool
  /-- The order in which the room map is met. -/
  order : List String

namespace World

def room? (name : String) (w : World) : Option Room := w.hub.rooms.get name

/-- The room an operation finds through `room_mut`: there, or created with the defaults. -/
def roomOr (w : World) (cfg : Config) (name : String) : Room :=
  (w.room? name).getD (Room.fresh .free cfg.defaultSettings 1)

def setRoom (name : String) (r : Room) (w : World) : World :=
  { w with hub := { w.hub with rooms := w.hub.rooms.put name r } }

def setDb (db : Db) (w : World) : World := { w with db := db }

/-- Push frames down one room's channel. -/
def send (name : String) (frames : List ServerFrame) (w : World) : World :=
  { w with sent := w.sent ++ frames.map fun f => (name, f) }

def isDeleted (cfg : Config) (name : String) (w : World) : Bool :=
  name ≠ cfg.homeRoom && w.hub.deleted.contains name

def isArchived (name : String) (w : World) : Bool :=
  ((w.room? name).map fun r => r.settings.archived).getD false

def mode (name : String) (w : World) : ChatMode := ((w.room? name).map Room.mode).getD .free

def settings (cfg : Config) (name : String) (w : World) : RoomSettings :=
  ((w.room? name).map Room.settings).getD cfg.defaultSettings

/-- `next_condition_generation`: past the clock, the previous value and every value so far. -/
def nextGeneration (now previous generation : Nat) : Nat :=
  max (max now (previous + 1)) (generation + 1)

/-- The ledger's entry for a signal, or what the signal says when it cannot be read. -/
def readAttention (env : Env) (db : Db) (s : CareSignal) : Attention :=
  if env.fails (.attention s.stableId) then .ofSignal s
  else (db.care.attention s.stableId).getD (.ofSignal s)

/-- A delivery of this process. -/
def noteDelivery (s : CareSignal) (w : World) : World :=
  { w with hub := { w.hub with careDeliveries := w.hub.careDeliveries.put s.id s.attentionId } }

/-! ## Looking at a world after a change -/

@[simp] theorem room?_setRoom_self (name : String) (r : Room) (w : World) :
    (w.setRoom name r).room? name = some r :=
  Assoc.get_put_self _ _ _

theorem room?_setRoom (name other : String) (r : Room) (w : World) :
    (w.setRoom name r).room? other = if other = name then some r else w.room? other :=
  Assoc.get_put _ _ _ _

@[simp] theorem db_setRoom (name : String) (r : Room) (w : World) : (w.setRoom name r).db = w.db :=
  rfl
@[simp] theorem sent_setRoom (name : String) (r : Room) (w : World) :
    (w.setRoom name r).sent = w.sent := rfl
@[simp] theorem room?_setDb (db : Db) (name : String) (w : World) :
    (w.setDb db).room? name = w.room? name := rfl
@[simp] theorem db_setDb (db : Db) (w : World) : (w.setDb db).db = db := rfl
@[simp] theorem room?_send (n name : String) (fs : List ServerFrame) (w : World) :
    (w.send n fs).room? name = w.room? name := rfl
@[simp] theorem db_send (n : String) (fs : List ServerFrame) (w : World) :
    (w.send n fs).db = w.db := rfl

theorem roomOr_of_some {cfg : Config} {name : String} {w : World} {r : Room}
    (h : w.room? name = some r) : w.roomOr cfg name = r := by
  simp [roomOr, h]

end World

end Loca
