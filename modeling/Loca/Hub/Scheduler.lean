/-
# `Loca.Hub.Scheduler` — the care sweep

`tick_care` of `hub/attention/scheduler.rs` and the wait graph of `hub/work/wait.rs`.  One
sweep looks at every open room and produces at most one reminder per room: first a cycle
of waits, then an overdue wait, then the operator's reminders on tasks, the goal and
silence.  A reminder is written to disk as soon as it is chosen; when all rooms have been
looked at, the chosen ones are published.

A candidate that is skipped, and one that cannot be written, changes nothing, so each of
the three loops is a search for the first candidate that goes through.
-/
import Loca.Hub.Attention

namespace Loca

open Text

/-! ## The wait graph -/

/-- The cycle through `start` that the edges close, walking at most `fuel` steps; `path` is
the way so far. -/
def waitCycleFrom (waits : Assoc String WaitState) (start : String) :
    Nat → List String → String → List String
  | 0, _, _ => []
  | fuel + 1, path, current =>
    if path.contains current then []
    else
      match waits.get current with
      | none => []
      | some wait =>
        if wait.waitingFor = start then path ++ [current]
        else waitCycleFrom waits start fuel (path ++ [current]) wait.waitingFor

/-- `wait_cycle_after` for an edge that is there: nobody is met twice, so as many steps as
there are edges are enough. -/
def waitCycle (waits : Assoc String WaitState) (start : String) : List String :=
  waitCycleFrom waits start (waits.keys.length + 1) [] start

/-- `wait_cycles`: every cycle once, whoever it is entered from. -/
def waitCycles (r : Room) : List (List String) :=
  ((Table.orderBy id r.waits.keys).foldl (fun (seen, cycles) name =>
    let cycle := waitCycle r.waits name
    let identity := "\x00".intercalate (Table.orderBy id cycle)
    if cycle = [] ∨ identity ∈ seen then (seen, cycles)
    else (identity :: seen, cycles ++ [cycle])) (([], []) : List String × List (List String))).2

/-! ## Signals -/

structure CareDraft where
  attentionKey : String
  owner : Option String
  ownerPrincipalId : Option String
  group : Option String
  reason : CareReason
  target : Option String
  participants : List String
  subject : String
  attempt : Nat
  escalated : Bool

def goalCaretakerSubject (subject : String) (escalated : Bool) : String :=
  subject ++ if escalated then " · Lead remains unavailable · operator review needed"
    else " · Lead unavailable · loca-care holding continuity"

def reminderState (owner : Option String) (attempt : Nat) (escalated : Bool) : ReminderState :=
  if owner = some "loca-care" then .stalled
  else if escalated || 1 < attempt then .overdue
  else .running

/-- Whom a signal speaks to: one person when it is bound to a principal, else whoever the
room's reminders are for. -/
def CareDraft.audience (d : CareDraft) (r : Room) : AttentionAudience :=
  match d.ownerPrincipalId with
  | some _ => match d.owner with
    | some name => .person name
    | none => .lead
  | none => match r.settings.careRecipient with
    | .lead => .lead
    | .all => .group r.liveNames
    | .person name => .person name

/-- Only the caretaker's signals leave the room: they are delivered at home, and carry the
room they come from. -/
def CareDraft.rehomed (cfg : Config) (d : CareDraft) (room : String) : Bool :=
  d.owner = some "loca-care" && room ≠ cfg.homeRoom

def makeCareSignal (cfg : Config) (env : Env) (room : String) (r : Room) (d : CareDraft) :
    CareSignal where
  id := "delivery_" ++ env.token room d.attentionKey
  attentionId := attentionKey room d.attentionKey
  room := if d.rehomed cfg room then cfg.homeRoom else room
  sourceRoom := if d.rehomed cfg room then room else ""
  reason := d.reason
  audience := d.audience r
  owner := d.owner
  ownerPrincipalId := d.ownerPrincipalId
  group := d.group
  target := d.target
  participants := d.participants
  subject := d.subject
  createdBy := "care"
  context := r.careContext
  attempt := d.attempt
  signalAt := env.now
  escalated := d.escalated
  state := reminderState d.owner d.attempt d.escalated

/-- The ledger's entry, where it can be read. -/
def World.ledger (env : Env) (id : String) (w : World) : Option Attention :=
  if env.fails (.attention id) then none else w.db.care.attention id

/-- Claimed or resolved, in memory or on disk. -/
def World.ownedOrDone (env : Env) (r : Room) (id : String) (w : World) : Bool :=
  (r.attentions.get id).any (fun a => a.status ≠ .opened) ||
    (w.ledger env id).any fun a => a.status ≠ .opened

/-- The counter of a reminder, zero when there is none. -/
def Room.careMark (key : String) (r : Room) : CareMark := (r.careMarks.get key).getD ⟨0, 0⟩

/-- Is a reminder with this counter due?  Bounded nudges, then one escalation. -/
def CareMark.due (m : CareMark) (now : Nat) (s : RoomSettings) : Bool :=
  m.signalCount ≤ s.careMaxAttempts &&
    !(0 < m.lastSignalAt && now - m.lastSignalAt < s.careCooldownSecs * 1000)

def CareMark.next (m : CareMark) (now : Nat) : CareMark := ⟨now, m.signalCount + 1⟩

/-- A chosen reminder: the server after its transaction, and the signals to publish. -/
abbrev Chosen := World × List CareSignal

/-- Write a signal with its mark, on disk and in the room. -/
def signalWithMark (cfg : Config) (env : Env) (room key : String) (r : Room) (mark : CareMark)
    (s : CareSignal) (w : World) : Option Chosen :=
  match w.store cfg env (.enqueue room key) fun db => .ok (db.withCare
      (db.care.enqueueCareWithMark room key mark.lastSignalAt mark.signalCount s.room s)) with
  | .error _ => none
  | .ok w => some (w.setRoom room { r with careMarks := r.careMarks.put key mark }, [s])

/-! ## Cycles and overdue waits -/

def cycleKey (now : Nat) (cycle : List String) (r : Room) : String :=
  let since := cycle.filterMap fun name => (r.waits.get name).map WaitState.since
  "wait-cycle:" ++ "+".intercalate cycle ++ ":" ++
    toString (if since = [] then now else since.foldr max 0)

def tryCycle (cfg : Config) (env : Env) (room : String) (owner : Option String) (r : Room) (w : World)
    (cycle : List String) : Option Chosen :=
  let key := cycleKey env.now cycle r
  let mark := r.careMark key
  if mark.due env.now r.settings then
    let next := mark.next env.now
    let s := makeCareSignal cfg env room r ⟨key, owner, none, none, .waitCycle, none, cycle,
      "wait cycle: " ++ " → ".intercalate cycle, next.signalCount,
      r.settings.careMaxAttempts < next.signalCount⟩
    if w.ownedOrDone env r s.attentionId then none
    else signalWithMark cfg env room key r next s w
  else none

/-- Is a wait overdue, not reminded of lately, and not given up on? -/
def WaitState.due (wait : WaitState) (now : Nat) (s : RoomSettings) : Bool :=
  s.careWaitSecs * 1000 ≤ now - wait.since &&
    !(wait.lastSignalAt.any fun last => now - last < s.careCooldownSecs * 1000) &&
    wait.signalCount ≤ s.careMaxAttempts

def tryWait (cfg : Config) (env : Env) (room : String) (owner : Option String) (r : Room) (w : World)
    (name : String) : Option Chosen :=
  match r.waits.get name with
  | none => none
  | some wait =>
    if wait.due env.now r.settings then
      let updated := { wait with
        signalCount := wait.signalCount + 1, lastSignalAt := some env.now }
      let s := makeCareSignal cfg env room r ⟨waitKey name ++ ":" ++ toString wait.since, owner, none,
        none, .waitOverdue, some updated.waitingFor, [updated.waiter, updated.waitingFor],
        updated.waiter ++ " waits for " ++ updated.waitingFor ++ ": " ++ updated.reason,
        updated.signalCount, r.settings.careMaxAttempts < updated.signalCount⟩
      if w.ownedOrDone env r s.attentionId then none
      else match w.store cfg env (.enqueue room (waitKey name)) fun db =>
          .ok (enqueueCareWithWaits [updated] s.room s db) with
        | .error _ => none
        | .ok w => some (w.setRoom room { r with waits := r.waits.put name updated }, [s])
    else none

/-! ## Tasks, the goal, silence -/

/-- A reminder the operator has switched on and whose time has come. -/
structure Reminder where
  key : String
  attentionKey : String
  reason : CareReason
  target : Option String
  participants : List String
  subject : String

def taskReminder (t : Task) : Reminder :=
  ⟨taskKey t.id, taskKey t.id ++ ":" ++ toString (max t.progressAt t.createdAt), .taskReminder,
    t.assignedTo, t.assignedTo.toList,
    "task #" ++ toString t.id ++ " is still " ++ (if t.status = .taken then "taken" else "open") ++
      ": " ++ t.title⟩

def goalReminder (g : Goal) : Reminder :=
  ⟨goalKey g.id, goalKey g.id ++ ":" ++ toString (max g.progressAt g.createdAt), .goalReminder, none,
    [], "Goal: " ++ g.outcome⟩

def silenceReminder (r : Room) : Reminder :=
  ⟨"silence", "silence:" ++ toString r.lastMsgMs, .roomSilence, none, [],
    "operator-enabled room silence check"⟩

def Room.reminders (now : Nat) (r : Room) : List Reminder :=
  let tasks := if 0 < r.settings.careTaskSecs then
      (Table.orderBy Task.id (r.tasks.values.filter fun t =>
        (t.status = .opened || t.status = .taken) &&
          r.settings.careTaskSecs * 1000 ≤ now - max t.progressAt t.createdAt)).map taskReminder
    else []
  let goal := (r.goals.values.find? fun g => g.status = .active).toList.filter fun g =>
    let staleAfterSecs := g.staleAfterSecs.getD r.settings.careGoalSecs
    0 < staleAfterSecs && staleAfterSecs * 1000 ≤ now - max g.progressAt g.createdAt
  let silence := if 0 < r.settings.careSilenceSecs && 0 < r.lastMsgMs &&
      r.settings.careSilenceSecs * 1000 ≤ now - r.lastMsgMs then [silenceReminder r] else []
  tasks ++ goal.map goalReminder ++ silence

/-- Whom a reminder for everyone goes to: the roster at its first emission, later those of
its attentions that are still open. -/
def everyoneAudience (cfg : Config) (env : Env) (room : String) (r : Room) (mark : CareMark)
    (rem : Reminder) (w : World) : Option (List (String × String)) :=
  if mark.signalCount = 0 then w.everyoneRecipients cfg env room
  else
    let group := attentionKey room rem.attentionKey ++ ":"
    let still := r.attentions.entries.filterMap fun e =>
      if e.2.status = .opened then do
        let principal ← stripPrefix group e.1
        let name ← e.2.owner
        pure (principal, name)
      else none
    some (Table.orderBy Prod.fst (Table.orderBy Prod.snd still))

/-- The signal one member of everyone gets. -/
def everyoneSignal (cfg : Config) (env : Env) (room : String) (r : Room) (rem : Reminder)
    (attempt : Nat) (escalated : Bool) (principal name : String) : CareSignal :=
  makeCareSignal cfg env room r
    ⟨rem.attentionKey ++ ":" ++ principal, some name, some principal,
      some (attentionKey room rem.attentionKey), rem.reason, rem.target, rem.participants,
      if rem.reason = .goalReminder ∧ name = "loca-care" then
        goalCaretakerSubject rem.subject escalated else rem.subject,
      attempt, escalated⟩

def tryEveryone (cfg : Config) (env : Env) (room : String) (r : Room) (mark next : CareMark)
    (escalated : Bool) (rem : Reminder) (w : World) : Option Chosen := do
  let recipients ← everyoneAudience cfg env room r mark rem w
  let signals := ((recipients.filter fun e => w.recipientActive cfg env room e.1).map fun e =>
    everyoneSignal cfg env room r rem next.signalCount escalated e.1 e.2).filter fun s =>
      !w.ownedOrDone env r s.attentionId
  guard (signals ≠ [])
  match w.store cfg env (.enqueue room rem.key) fun db => .ok (db.withCare
      (db.care.enqueueEveryoneCare room rem.key next.lastSignalAt next.signalCount signals)) with
  | .error _ => none
  | .ok w => some (w.setRoom room { r with careMarks := r.careMarks.put rem.key next }, signals)

/-- The draft of a reminder to one owner. -/
def Reminder.draft (rem : Reminder) (owner : Option String) (attempt : Nat) (escalated : Bool) :
    CareDraft :=
  ⟨rem.attentionKey, owner, none, none, rem.reason, rem.target, rem.participants,
    if rem.reason = .goalReminder ∧ owner = some "loca-care" then
      goalCaretakerSubject rem.subject escalated else rem.subject,
    attempt, escalated⟩

def tryReminder (cfg : Config) (env : Env) (room : String) (owner : Option String) (r : Room) (w : World)
    (rem : Reminder) : Option Chosen :=
  let mark := r.careMark rem.key
  if mark.due env.now r.settings then
    let next := mark.next env.now
    let escalated := decide (r.settings.careMaxAttempts < next.signalCount)
    if r.settings.careRecipient = .all then tryEveryone cfg env room r mark next escalated rem w
    else
      let s := makeCareSignal cfg env room r (rem.draft owner next.signalCount escalated)
      if w.ownedOrDone env r s.attentionId then none
      else if owner = none then
        -- the room sees it once; no attempt is used up while nobody can be reached
        if (r.attentions.get s.attentionId).isSome || (w.ledger env s.attentionId).isSome then none
        else match w.store cfg env (.enqueue room rem.key) fun db =>
            .ok (db.withCare (db.care.writeCare s.room s)) with
          | .error _ => none
          | .ok w => some (w, [s])
      else signalWithMark cfg env room rem.key r next s w
  else none

/-! ## The sweep -/

/-- What the sweep chooses in one room. -/
def chooseReminder (cfg : Config) (env : Env) (room : String) (r : Room) (w : World) : Option Chosen :=
  let owner := w.careOwner cfg env room
  let cycles := if owner.isSome then waitCycles r else []
  let names := if owner.isSome then
      (Table.orderBy id r.waits.keys).filter fun name => !cycles.flatten.contains name
    else []
  match cycles.findSome? (tryCycle cfg env room owner r w) with
  | some chosen => some chosen
  | none =>
    match names.findSome? (tryWait cfg env room owner r w) with
    | some chosen => some chosen
    | none => (r.reminders env.now).findSome? (tryReminder cfg env room owner r w)

/-- One room of the first loop; `pending` collects what is to be published. -/
def sweepRoom (cfg : Config) (env : Env) (acc : World × List (String × CareSignal)) (room : String) :
    World × List (String × CareSignal) :=
  match acc.1.room? room with
  | none => acc
  | some r =>
    if r.settings.archived then acc
    else match chooseReminder cfg env room r acc.1 with
      | none => acc
      | some (w, signals) => (w, acc.2 ++ signals.map fun s => (room, s))

/-- `publish_care_signal`: mirror a written signal in its room and send it. -/
def publishCareSignal (cfg : Config) (env : Env) (w : World) (p : String × CareSignal) : World :=
  let source := p.1
  let s := p.2
  let resolved := ((w.room? source).bind fun r => r.attentions.get s.stableId).any
      (fun a => a.status = .resolved) ||
    (w.ledger env s.stableId).any fun a => a.status = .resolved
  if resolved then w
  else
    let w := if s.owner.isSome then w.noteDelivery s else w
    let a := World.readAttention env w.db s
    let w := match w.room? source with
      | some r => (w.setRoom source { r with attentions := r.attentions.put a.id a }).send source
          [.care s, .attention a]
      | none => w
    if s.owner = some "loca-care" ∧ source ≠ cfg.homeRoom then
      (w.setRoom cfg.homeRoom (w.roomOr cfg cfg.homeRoom)).send cfg.homeRoom [.care s]
    else w

def tickCare (cfg : Config) (env : Env) (w : World) : World :=
  let swept := (Assoc.inOrder env.order w.hub.rooms.keys).foldl (sweepRoom cfg env) (w, [])
  swept.2.foldl (publishCareSignal cfg env) swept.1

end Loca
