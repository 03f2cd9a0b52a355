/-
# `Loca.Hub.Build` — starting the server on a database

`Hub::build` of `hub.rs` and `load` of `store/rooms.rs`.  A room is restored when any
table has a row for it and it is not sealed; then come, in the source's order, the
migration of legacy operator names, the migration of legacy davets, the cleaning of the
reserved loca, the home room, bans and mutes, and the tombstones.

Smasters, sessions and pairing codes are restored too; nothing modelled here reads them.
A failed read at boot stops the server, so there is none below.
-/
import Loca.Hub.Doors
import Loca.Hub.Post

namespace Loca

open Table Text

/-! ## Reading the rooms back -/

/-- Every room some table speaks of, each once. -/
def knownRooms (db : Db) : List String :=
  (orderBy id (db.messages.map MessageRow.room ++ db.notes.map NoteRow.room ++
    db.tasks.map Task.room ++ db.goals.map Goal.room ++ db.waits.map WaitState.room ++
    db.careMarks.map CareMarkRow.room ++ db.attentions.map AttentionRow.room ++
    db.journal.map JournalEntry.room ++ db.rooms.map RoomRow.room ++
    (loadInvites db).map Invite.room)).dedup

/-- The rooms of `load`. -/
def loadedRooms (db : Db) : List String :=
  (knownRooms db).filter fun room => !(sealedRooms db).contains room

/-- The tail of the archive: the last messages, oldest first. -/
def loadHistory (room : String) (db : Db) : List Message :=
  let archive := orderBy MessageRow.id (db.messages.filter fun r => r.room = room)
  (archive.drop (archive.length - historyLimit)).map MessageRow.toMessage

def loadNotes (room : String) (db : Db) : List Note :=
  (db.notes.filter fun r => r.room = room).map NoteRow.note

/-- Mode and settings; a room without a row of its own has the built-in ones. -/
def loadState (room : String) (db : Db) : ChatMode × RoomSettings :=
  match db.rooms.find? fun r => r.room = room with
  | some r => (r.mode, r.settings)
  | none => (.free, RoomSettings.default)

def maxOf (l : List Nat) : Nat := l.foldr max 0

/-- `load_room`, and the tables `build` reads for each room. -/
def loadRoom (room : String) (db : Db) : Room :=
  let history := loadHistory room db
  let notes := loadNotes room db
  let tasks := loadTasks room db
  let goals := loadGoals room db
  let journal := loadJournal room db
  { Room.fresh (loadState room db).1 (loadState room db).2 (maxOf (notes.map Note.rev) + 1) with
    history := history
    notes := Assoc.ofRows Note.key notes
    tasks := Assoc.ofRows Task.id tasks
    nextTaskId := maxOf (tasks.map fun t => t.id + 1) |> max 1
    goals := Assoc.ofRows Goal.id goals
    nextGoalId := maxOf (goals.map fun g => g.id + 1) |> max 1
    waits := Assoc.ofRows WaitState.waiter (loadWaits room db)
    careMarks := (db.careMarks.filter fun r => r.room = room).foldl
      (fun m r => m.put r.signalKey ⟨r.lastSignalAt, r.signalCount⟩) ∅
    attentions := Assoc.ofRows Attention.id (db.care.attentionsOf room)
    lastMsgMs := (history.getLast?.map Message.ts).getD 0
    journal := journal
    nextJournalId := (journal.getLast?.map fun e => e.id + 1).getD 1 }

/-- The number an attention id ends in. -/
def lastNumber (id : String) : Option Nat :=
  ((id.toList.splitOnP fun c => c = ':').getLast?).bind fun part => parseNat (String.ofList part)

/-- The highest generation a restored room speaks of. -/
def roomGeneration (r : Room) : Nat :=
  maxOf ([(r.history.getLast?.map Message.ts).getD 0] ++ r.tasks.values.map Task.progressAt ++
    r.goals.values.map Goal.progressAt ++ r.waits.values.map WaitState.since ++
    r.attentions.values.map Attention.createdAt ++
    r.attentions.values.filterMap fun a => lastNumber a.id)

/-! ## The steps of `build` -/

/-- The server as `load` leaves it. -/
def restored (db : Db) : World :=
  let rooms := (loadedRooms db).foldl (fun (m : Assoc String Room) name =>
    m.put name (loadRoom name db)) ∅
  { hub :=
      { rooms := rooms
        deleted := []
        nextId := maxMessageId db + 1
        conditionGeneration := maxOf (rooms.values.map roomGeneration)
        invites := Assoc.ofRows Invite.token (loadInvites db)
        members := Assoc.ofRows Membership.token (loadMembers db)
        careDeliveries := ∅ }
    db := db
    sent := [] }

/-- Bind a room's single legacy operator name to a principal, when it names exactly one
human; whether the name may be dropped, and the database. -/
def bindOperator (env : Env) (room : String) (settings : RoomSettings) (db : Db) : Bool × Db :=
  if (locaOperator room db).isSome then (true, db)
  else match settings.operators, activeMasterPrincipal db with
    | [label], some master =>
      match activeHumanPrincipalsNamed label db with
      | [p] => match appointLocaOperator room p.id master.id env.now db with
        | .ok db => (true, db)
        | .error _ => (false, db)
      | _ => (false, db)
    | _, _ => (false, db)

/-- One room of the operator migration. -/
def migrateOperator (env : Env) (clock : Nat) (w : World) (room : String) : World :=
  match w.room? room with
  | none => w
  | some r =>
    if r.settings.operators = [] then w
    else match bindOperator env room r.settings w.db with
      | (false, db) => w.setDb db
      | (true, db) =>
        let settings := { r.settings with operators := [] }
        match commit true (env.fails (.saveRoom room)) (saveRoom room r.mode settings clock) db with
        | .error _ => w.setDb db
        | .ok db => (w.setDb db).setRoom room { r with settings := settings }

/-- One davet of the migration: it is tied to the membership of its name, made if need be. -/
def migrateInvite (cfg : Config) (env : Env) (w : World) (inv : Invite) : World :=
  let (w, member) := match w.hub.members.values.find? fun m => m.name = inv.name with
    | some m => (w, m.token)
    | none =>
      let m : Membership := ⟨"mb_" ++ env.token inv.token "membership", inv.name, inv.kind, env.now,
        "migration:legacy-invite"⟩
      ({ w with
          db := addMember cfg.digests m w.db
          hub := { w.hub with members := w.hub.members.put m.token m } }, m.token)
  let inv := { inv with member := member }
  { w with
    db := match insertInvite inv w.db with
      | .ok db => db
      | .error _ => w.db
    hub := { w.hub with invites := w.hub.invites.put inv.token inv } }

def migrateInvites (cfg : Config) (env : Env) (w : World) : World :=
  (w.hub.invites.values.filter fun i => i.member = "").foldl (migrateInvite cfg env) w

/-- Only caretakers hold davets for the reserved loca. -/
def cleanReserved (cfg : Config) (env : Env) (w : World) : World :=
  if cfg.reservedRoom = "" then w
  else (w.hub.invites.values.filter fun i => i.room = cfg.reservedRoom &&
      !cfg.caretakers.contains i.name).foldl (fun w i =>
    { w with
      db := revokeInvite i.token env.now w.db
      hub := { w.hub with invites := w.hub.invites.del i.token } }) w

/-- The home room always exists, and its journal is read even when it had no snapshot. -/
def ensureHome (cfg : Config) (w : World) : World :=
  let r := w.roomOr cfg cfg.homeRoom
  let journal := loadJournal cfg.homeRoom w.db
  w.setRoom cfg.homeRoom
    (if r.journal = [] then
      { r with
        journal := journal
        nextJournalId := (journal.getLast?.map fun e => e.id + 1).getD 1 }
    else r)

/-- Bans and mutes, each through `room_mut`. -/
def loadBan (cfg : Config) (w : World) (b : BanRow) : World :=
  let r := w.roomOr cfg b.room
  w.setRoom b.room
    (if b.kind = "ban" then { r with banned := insertName b.name r.banned }
    else if b.kind = "mute" then { r with muted := insertName b.name r.muted }
    else r)

def loadBans (cfg : Config) (w : World) : World := w.db.bans.foldl (loadBan cfg) w

def tombstone (w : World) : World :=
  { w with hub := { w.hub with deleted := sealedRooms w.db } }

/-- `Hub::build` on a persistent store. -/
def build (cfg : Config) (env : Env) (clock : Nat) (db : Db) : World :=
  let w := restored (ensureMasterPrincipal cfg.digests cfg.adminToken cfg.masterName env.now db)
  let w := (Assoc.inOrder env.order w.hub.rooms.keys).foldl (migrateOperator env clock) w
  tombstone (loadBans cfg (ensureHome cfg (cleanReserved cfg env (migrateInvites cfg env w))))

/-- `build` again on the same database; what was sent stays sent. -/
def restart (cfg : Config) (env : Env) (clock : Nat) (w : World) : World :=
  { build cfg env clock w.db with sent := w.sent }

end Loca
