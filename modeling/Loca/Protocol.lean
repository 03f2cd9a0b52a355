/-
# `Loca.Protocol` — the wire types

The records the server, the web client and the helpers exchange
(`crates/protocol/src/lib.rs`).  Field for field as the source has them; an unsigned
integer is a `Nat`, a string enumeration is an inductive type.  Only the frames that a
modelled operation broadcasts are listed in `ServerFrame`.
-/
import Mathlib.Init

namespace Loca

inductive SenderType | agent | user
  deriving DecidableEq, Repr

inductive MessageKind | say | announce
  deriving DecidableEq, Repr

/-- A file shared in a room; `id` equals `sha256`. -/
structure Attachment where
  id : String
  sha256 : String
  name : String
  mime : String
  size : Nat
  deriving DecidableEq, Repr

structure Message where
  id : Nat
  room : String
  sender : String
  senderType : SenderType
  target : Option String
  text : String
  kind : MessageKind
  replyTo : Option Nat
  /-- Resolved by the server at post time, never persisted. -/
  replyToSender : Option String
  ts : Nat
  attachments : List Attachment
  deriving DecidableEq, Repr

structure PostMessage where
  kind : MessageKind
  sender : String
  senderType : SenderType
  target : Option String
  text : String
  replyTo : Option Nat
  opId : Option String
  attachments : List String
  deriving DecidableEq, Repr

inductive ChatMode
  | free
  | restricted (allow : List String)
  | roundRobin (order : List String) (turn : Nat)
  | paused
  deriving DecidableEq, Repr

inductive ReminderRecipient
  | lead
  | all
  | person (name : String)
  deriving DecidableEq, Repr

structure RoomSettings where
  lead : Option String
  rateLimit : Nat
  rateWindowSecs : Nat
  live : Bool
  archived : Bool
  liveTimeoutSecs : Nat
  operators : List String
  turnMaxMessages : Nat
  turnIdleMs : Nat
  turnMaxWaitMs : Nat
  careWaitSecs : Nat
  careCooldownSecs : Nat
  careMaxAttempts : Nat
  careContextMessages : Nat
  careRecipient : ReminderRecipient
  careGoalSecs : Nat
  careTaskSecs : Nat
  careSilenceSecs : Nat
  deriving DecidableEq, Repr

/-- `impl Default for RoomSettings`. -/
def RoomSettings.default : RoomSettings where
  lead := none
  rateLimit := 10
  rateWindowSecs := 30
  live := false
  archived := false
  liveTimeoutSecs := 120
  operators := []
  turnMaxMessages := 4
  turnIdleMs := 5000
  turnMaxWaitMs := 15000
  careWaitSecs := 120
  careCooldownSecs := 300
  careMaxAttempts := 2
  careContextMessages := 8
  careRecipient := .lead
  careGoalSecs := 0
  careTaskSecs := 0
  careSilenceSecs := 0

/-- The arguments of `Hub::set_settings`; `none` keeps the current value. -/
structure SetSettings where
  rateLimit : Option Nat
  rateWindowSecs : Option Nat
  live : Option Bool
  archived : Option Bool
  liveTimeoutSecs : Option Nat
  operators : Option (List String)
  turnMaxMessages : Option Nat
  turnIdleMs : Option Nat
  turnMaxWaitMs : Option Nat
  careWaitSecs : Option Nat
  careCooldownSecs : Option Nat
  careMaxAttempts : Option Nat
  careContextMessages : Option Nat
  careRecipient : Option ReminderRecipient
  careGoalSecs : Option Nat
  careTaskSecs : Option Nat
  careSilenceSecs : Option Nat
  deriving DecidableEq, Repr

structure Note where
  key : String
  title : String
  body : String
  canWrite : List String
  updatedBy : String
  updatedAt : Nat
  rev : Nat
  deriving DecidableEq, Repr

structure CreateNote where
  key : String
  title : String
  body : String
  noteBy : String
  canWrite : List String
  deriving DecidableEq, Repr

structure UpdateNote where
  title : Option String
  body : Option String
  noteBy : String
  canWrite : Option (List String)
  deriving DecidableEq, Repr

structure JournalEntry where
  id : Nat
  room : String
  entryBy : String
  byType : SenderType
  text : String
  entryAt : Nat
  deriving DecidableEq, Repr

inductive TaskStatus | opened | taken | done | cancelled
  deriving DecidableEq, Repr

structure Task where
  id : Nat
  room : String
  title : String
  createdBy : String
  fromMessage : Option Nat
  assignedTo : Option String
  status : TaskStatus
  createdAt : Nat
  progressAt : Nat
  closedAt : Option Nat
  deriving DecidableEq, Repr

structure CreateTask where
  title : String
  fromMessage : Option Nat
  assignedTo : Option String
  taskBy : String
  deriving DecidableEq, Repr

structure UpdateTask where
  status : Option TaskStatus
  assignedTo : Option String
  taskBy : String
  deriving DecidableEq, Repr

inductive GoalCompletion | manual | allTasks
  deriving DecidableEq, Repr

inductive GoalStatus | active | achieved | cancelled
  deriving DecidableEq, Repr

structure Goal where
  id : Nat
  room : String
  outcome : String
  checkpoint : Option String
  staleAfterSecs : Option Nat
  createdBy : String
  completion : GoalCompletion
  taskIds : List Nat
  status : GoalStatus
  createdAt : Nat
  progressAt : Nat
  closedAt : Option Nat
  deriving DecidableEq, Repr

structure CreateGoal where
  outcome : String
  checkpoint : Option String
  staleAfterSecs : Option Nat
  completion : GoalCompletion
  taskIds : List Nat
  goalBy : String
  deriving DecidableEq, Repr

structure UpdateGoal where
  outcome : Option String
  checkpoint : Option String
  staleAfterSecs : Option (Option Nat)
  completion : Option GoalCompletion
  taskIds : Option (List Nat)
  status : Option GoalStatus
  goalBy : String
  deriving DecidableEq, Repr

structure WaitState where
  room : String
  waiter : String
  waitingFor : String
  reason : String
  since : Nat
  lastSignalAt : Option Nat
  signalCount : Nat
  deriving DecidableEq, Repr

structure SetWait where
  waitingFor : String
  reason : String
  waitBy : String
  deriving DecidableEq, Repr

inductive CareReason
  | manual | directSummon | waitOverdue | waitCycle | waitReplied
  | goalReminder | taskReminder | roomSilence
  deriving DecidableEq, Repr

inductive AttentionAudience
  | lead
  | person (name : String)
  | group (names : List String)
  deriving DecidableEq, Repr

inductive AttentionStatus | opened | claimed | resolved
  deriving DecidableEq, Repr

structure Attention where
  id : String
  room : String
  reason : CareReason
  subject : String
  audience : AttentionAudience
  owner : Option String
  group : Option String
  participants : List String
  createdBy : String
  createdAt : Nat
  attempt : Nat
  escalated : Bool
  status : AttentionStatus
  deliveredAt : Option Nat
  claimedBy : Option String
  claimedAt : Option Nat
  resolvedAt : Option Nat
  deriving DecidableEq, Repr

structure CreateAttention where
  subject : String
  audience : AttentionAudience
  attentionBy : String
  deriving DecidableEq, Repr

inductive ReminderState | running | overdue | stalled
  deriving DecidableEq, Repr

/-- A bounded attention event: `id` names one delivery attempt, `attentionId` the
condition it is about. -/
structure CareSignal where
  id : String
  attentionId : String
  room : String
  sourceRoom : String
  reason : CareReason
  audience : AttentionAudience
  owner : Option String
  ownerPrincipalId : Option String
  group : Option String
  target : Option String
  participants : List String
  subject : String
  createdBy : String
  context : List Message
  attempt : Nat
  signalAt : Nat
  escalated : Bool
  state : ReminderState
  deriving DecidableEq, Repr

/-- The loca the condition arose in: `source_room` for a re-homed envelope, else `room`. -/
def CareSignal.originRoom (s : CareSignal) : String :=
  if s.sourceRoom = "" then s.room else s.sourceRoom

inductive ModAction | mute | unmute | kick | ban | unban | release
  deriving DecidableEq, Repr

structure ModState where
  muted : List String
  banned : List String
  deriving DecidableEq, Repr

structure Invite where
  token : String
  room : String
  member : String
  name : String
  kind : String
  issuedAt : Nat
  issuedBy : String
  deriving DecidableEq, Repr

structure Membership where
  token : String
  name : String
  kind : String
  joinedAt : Nat
  admittedBy : String
  deriving DecidableEq, Repr

structure Member where
  name : String
  kind : SenderType
  deriving DecidableEq, Repr

/-- The frames the modelled operations push down a room's broadcast channel. -/
inductive ServerFrame
  | msg (message : Message)
  | members (members : List Member)
  | control (cmd : String)
  | note (note : Note)
  | noteWarn (key : String) (warnBy : String) (canWrite : List String)
  | mode (mode : ChatMode)
  | settings (settings : RoomSettings)
  | kicked (name : String) (banned : Bool)
  | evicted (name : String) (identity : String) (session : Nat)
  | moderation (state : ModState)
  | journal (entry : JournalEntry)
  | task (task : Task)
  | goal (goal : Goal)
  | care (signal : CareSignal)
  | attention (attention : Attention)
  | wait (waiter : String) (wait : Option WaitState)
  deriving DecidableEq, Repr

end Loca
