/-
# `Loca.Hub.Settings` — lead, mode, settings, notes and the journal

The operator's side of `hub.rs`: `set_lead`, `set_mode`, `set_settings`, `expire_live` and
the announcement of a join request, and the room's own documents: notes and the journal.
-/
import Loca.Hub.Work

namespace Loca

open Check

/-! ## Announcements -/

/-- A line the building itself says. -/
def announcement (room : String) (id now : Nat) (target : Option String) (text : String) : Message where
  id := id
  room := room
  sender := "loca"
  senderType := .user
  target := target
  text := text
  kind := .announce
  replyTo := none
  replyToSender := none
  ts := now
  attachments := []

/-- The history without a trim, as the announcements append to it. -/
def Room.announce (m : Message) (r : Room) : Room := { r with history := r.history ++ [m] }

def World.takeId (w : World) : World :=
  { w with hub := { w.hub with nextId := w.hub.nextId + 1 } }

inductive LeadError | activeGoal | storage
  deriving DecidableEq, Repr

/-- Name or clear the lead.  The message resets the room's silence on disk, not in memory. -/
def setLead (cfg : Config) (env : Env) (room : String) (lead : Option String) (actor : String)
    (w : World) : Except LeadError RoomSettings × World :=
  if w.isDeleted cfg room then (.ok (w.settings cfg room), w)
  else
    let r := w.roomOr cfg room
    if lead = none ∧ r.goals.values.any (fun g => g.status = .active) then (.error .activeGoal, w)
    else
      let settings := { r.settings with lead := lead }
      let m := announcement room w.hub.nextId env.now (some (lead.getD "all"))
        (actor ++ " set @lead " ++ lead.getD "none" ++ ".")
      let w := w.takeId
      match w.store cfg env .write (insertMessageWithRoom m r.mode settings none) with
      | .error _ => (.error .storage, w)
      | .ok w => (.ok settings, (w.setRoom room ({ r with settings := settings }.announce m)).send
          room [.settings settings, .msg m])

/-- A join request surfaces in the home loca even when it cannot be stored. -/
def announceJoinRequest (cfg : Config) (env : Env) (name kind : String) (w : World) : World :=
  let room := cfg.homeRoom
  let r := w.roomOr cfg room
  let m := announcement room w.hub.nextId env.now (some (r.settings.lead.getD "all"))
    (name ++ " (" ++ kind ++ ") wants to join — approve or deny it in Join requests.")
  let w := w.takeId
  let w := match w.store cfg env .write (insertMessageWithRoom m r.mode r.settings none) with
    | .error _ => w
    | .ok w => w
  (w.setRoom room (r.announce m)).send room [.msg m]

/-! ## Mode and settings -/

/-- An out-of-range turn starts over. -/
def ChatMode.normal : ChatMode → ChatMode
  | .roundRobin order turn => .roundRobin order (if turn < order.length then turn else 0)
  | mode => mode

def setMode (cfg : Config) (env : Env) (room : String) (mode : ChatMode) (clock : Nat) (w : World) :
    Except StoreError ChatMode × World :=
  if w.isDeleted cfg room then (.ok (w.mode room), w)
  else
    let r := w.roomOr cfg room
    let w := w.setRoom room r
    match w.store cfg env .write (saveRoom room mode.normal r.settings clock) with
    | .error e => (.error e, w)
    | .ok w => (.ok mode.normal,
        (w.setRoom room { r with mode := mode.normal }).send room [.mode mode.normal])

def clamp (lo hi x : Nat) : Nat := max lo (min hi x)

/-- The settings after the requested changes, each within its bounds. -/
def SetSettings.apply (req : SetSettings) (s : RoomSettings) : RoomSettings :=
  let turnIdleMs := (req.turnIdleMs.map (clamp 100 30000)).getD s.turnIdleMs
  let turnMaxWaitMs := (req.turnMaxWaitMs.map (clamp 100 60000)).getD s.turnMaxWaitMs
  { s with
    rateLimit := req.rateLimit.getD s.rateLimit
    rateWindowSecs := (req.rateWindowSecs.map (max 1)).getD s.rateWindowSecs
    live := req.live.getD s.live
    archived := req.archived.getD s.archived
    liveTimeoutSecs := req.liveTimeoutSecs.getD s.liveTimeoutSecs
    operators := req.operators.getD s.operators
    turnMaxMessages := (req.turnMaxMessages.map (clamp 1 16)).getD s.turnMaxMessages
    turnIdleMs := turnIdleMs
    turnMaxWaitMs := max turnMaxWaitMs turnIdleMs
    careWaitSecs := req.careWaitSecs.getD s.careWaitSecs
    careCooldownSecs := req.careCooldownSecs.getD s.careCooldownSecs
    careMaxAttempts := (req.careMaxAttempts.map (clamp 1 10)).getD s.careMaxAttempts
    careContextMessages := (req.careContextMessages.map (clamp 0 20)).getD s.careContextMessages
    careRecipient := req.careRecipient.getD s.careRecipient
    careGoalSecs := req.careGoalSecs.getD s.careGoalSecs
    careTaskSecs := req.careTaskSecs.getD s.careTaskSecs
    careSilenceSecs := req.careSilenceSecs.getD s.careSilenceSecs }

/-- The room after new settings: closing it drops its reminders, opening it live starts its
idle clock. -/
def Room.putSettings (req : SetSettings) (now : Nat) (r : Room) : Room :=
  let s := req.apply r.settings
  { r with
    careMarks := if !r.settings.archived && s.archived then ∅ else r.careMarks
    lastMsgMs := if req.live = some true then now else r.lastMsgMs
    settings := s }

def setSettings (cfg : Config) (env : Env) (room : String) (req : SetSettings) (clock : Nat)
    (w : World) : Except StoreError RoomSettings × World :=
  if w.isDeleted cfg room then (.error .roomSealed, w)
  else
    let r := w.roomOr cfg room
    let w := w.setRoom room r
    let s := req.apply r.settings
    match w.store cfg env .write (saveRoom room r.mode s clock) with
    | .error e => (.error e, w)
    | .ok w => (.ok s, (w.setRoom room (r.putSettings req env.now)).send room [.settings s])

/-- Has a live room been silent past its timeout? -/
def Room.liveExpired (now : Nat) (r : Room) : Bool :=
  r.settings.live && 0 < r.settings.liveTimeoutSecs && 0 < r.lastMsgMs &&
    r.settings.liveTimeoutSecs * 1000 < now - r.lastMsgMs

/-- One room of the `expire_live` loop.  The frames go out before the write, and a failed
write takes the change back. -/
def expireLiveRoom (cfg : Config) (env : Env) (clock : Nat) (w : World) (name : String) : World :=
  match w.room? name with
  | none => w
  | some r =>
    if r.liveExpired env.now then
      let s := { r.settings with live := false }
      let w := w.send name
        [.settings s, .control ("live-expired:" ++ toString r.settings.liveTimeoutSecs)]
      match w.store cfg env (.saveRoom name) (saveRoom name r.mode s clock) with
      | .error _ => w
      | .ok w => w.setRoom name { r with settings := s }
    else w

def expireLive (cfg : Config) (env : Env) (clock : Nat) (w : World) : World :=
  (Assoc.inOrder env.order w.hub.rooms.keys).foldl (expireLiveRoom cfg env clock) w

/-! ## Notes -/

inductive NoteError | exists_ | notFound | storage
  deriving DecidableEq, Repr

def createNote (cfg : Config) (env : Env) (room : String) (req : CreateNote) (w : World) :
    Except NoteError Note × World :=
  let r := w.roomOr cfg room
  if (r.notes.get req.key).isSome then (.error .exists_, w)
  else
    let note : Note := ⟨req.key, req.title, req.body, req.canWrite, req.noteBy, env.now, r.nextRev⟩
    match w.store cfg env .write (fun db => .ok (upsertNote room note db)) with
    | .error _ => (.error .storage, w)
    | .ok w => (.ok note, (w.setRoom room
        { r with nextRev := note.rev + 1, notes := r.notes.put req.key note }).send room [.note note])

/-- The note after an update; only the operator reassigns who may write. -/
def UpdateNote.apply (req : UpdateNote) (isOperator : Bool) (now rev : Nat) (n : Note) : Note :=
  { n with
    title := req.title.getD n.title
    body := req.body.getD n.body
    canWrite := if isOperator then req.canWrite.getD n.canWrite else n.canWrite
    updatedBy := req.noteBy
    updatedAt := now
    rev := rev }

/-- Permissions on notes are advisory: an unlisted writer is let through with a warning. -/
def updateNote (cfg : Config) (env : Env) (room key : String) (req : UpdateNote) (isOperator : Bool)
    (w : World) : Except NoteError Note × World :=
  match w.room? room with
  | none => (.error .notFound, w)
  | some r =>
    match r.notes.get key with
    | none => (.error .notFound, w)
    | some previous =>
      let updated := req.apply isOperator env.now r.nextRev previous
      let warn := if previous.canWrite.isEmpty || previous.canWrite.contains req.noteBy then []
        else [ServerFrame.noteWarn key req.noteBy previous.canWrite]
      match w.store cfg env .write (replaceNote room previous updated) with
      | .error _ => (.error .storage, w)
      | .ok w => (.ok updated, (w.setRoom room
          { r with nextRev := r.nextRev + 1, notes := r.notes.put key updated }).send room
            (.note updated :: warn))

def deleteNote (cfg : Config) (env : Env) (room key : String) (w : World) :
    Except StoreError Bool × World :=
  match w.room? room with
  | none => (.ok false, w)
  | some r =>
    match r.notes.get key with
    | none => (.ok false, w)
    | some _ =>
      match w.store cfg env .write (fun db => .ok (deleteNoteRow room key db)) with
      | .error e => (.error e, w)
      | .ok w => (.ok true, (w.setRoom room { r with notes := r.notes.del key }).send room
          [.control ("note-deleted:" ++ key)])

/-! ## The journal -/

def appendJournal (cfg : Config) (env : Env) (room entryBy : String) (byType : SenderType)
    (text : String) (w : World) : Except StoreError JournalEntry × World :=
  let r := w.roomOr cfg room
  let entry : JournalEntry := ⟨r.nextJournalId, room, entryBy, byType, text, env.now⟩
  match w.store cfg env .write (appendJournalRow entry) with
  | .error e => (.error e, w)
  | .ok w => (.ok entry, (w.setRoom room
      { r with nextJournalId := entry.id + 1, journal := r.journal ++ [entry] }).send room
        [.journal entry])

end Loca
