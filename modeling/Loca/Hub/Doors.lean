/-
# `Loca.Hub.Doors` — opening, closing and entering a loca

The life of a room and of the seats in it: `create_loca`, `delete_room`, `subscribe`,
`join`, `leave`, `moderate` and the davets of `hub.rs`, with the list of rooms a caller
sees.  Deleting is sealing: the record stays on disk and the name is tombstoned.
-/
import Loca.Hub.Work

namespace Loca

open Check

def locaKapasite : Nat := 7

/-! ## Creating and deleting -/

structure RequestAuthority where
  principalId : Option String
  buildingRole : Option BuildingRole
  deriving DecidableEq, Repr

def RequestAuthority.isBuildingAdmin (a : RequestAuthority) : Bool :=
  a.buildingRole = some .master || a.buildingRole = some .smaster

inductive OperatorAssignmentError
  | authorityRequired | masterProtected | emptySeatRequired | principalNotFound | principalMustBeHuman
  | notFound | conflict | storage
  deriving DecidableEq, Repr

def mapLocaOperatorError : LocaOperatorError → OperatorAssignmentError
  | .principalNotFound | .appointerNotFound => .principalNotFound
  | .principalMustBeHuman => .principalMustBeHuman
  | .appointerNotAuthorized => .authorityRequired
  | .emptySeatRequired => .emptySeatRequired
  | .notFound => .notFound
  | .conflict => .conflict
  | .storage => .storage

/-- The founding transaction: with its founder as operator, or in the open sandbox alone. -/
def foundRoom (cfg : Config) (env : Env) (room : String) (actor : RequestAuthority) (clock : Nat)
    (db : Db) : Except OperatorAssignmentError Db :=
  if cfg.persistent ∧ cfg.adminToken ≠ "" then do
    let founder ← found actor.principalId .authorityRequired
    require (env.fails .write = false) .storage
    (createRoomWithOperator room cfg.defaultSettings founder env.now db).mapError mapLocaOperatorError
  else (commit cfg.persistent (env.fails .write) (saveRoom room .free cfg.defaultSettings clock) db).mapError
    fun _ => .storage

def createLoca (cfg : Config) (env : Env) (room : String) (actor : RequestAuthority) (clock : Nat)
    (w : World) : Except OperatorAssignmentError Unit × World :=
  if !actor.isBuildingAdmin then (.error .authorityRequired, w)
  else if w.isDeleted cfg room then (.error .conflict, w)
  else if (w.room? room).isSome then (.error .conflict, w)
  else match foundRoom cfg env room actor clock w.db with
    | .error e => (.error e, w)
    | .ok db => (.ok (), (w.setDb db).setRoom room (Room.fresh .free cfg.defaultSettings 1))

inductive DeleteReject | notArchived | storage
  deriving DecidableEq, Repr

/-- `delete_room`; whether the room existed. -/
def deleteRoom (cfg : Config) (env : Env) (room : String) (w : World) :
    Except DeleteReject Bool × World :=
  match w.room? room with
  | none => (.ok false, w)
  | some r =>
    if !r.settings.archived then (.error .notArchived, w)
    else match w.store cfg env .write (fun db => .ok (sealRoom room env.now db)) with
      | .error _ => (.error .storage, w)
      | .ok w => (.ok true, { w.send room [.control "room-closed"] with
          hub := { w.hub with
            rooms := w.hub.rooms.del room
            deleted := room :: w.hub.deleted } })

/-! ## Seats -/

/-- `subscribe`: the history to replay; the room is created for it. -/
def subscribe (cfg : Config) (room : String) (w : World) : List Message × World :=
  if w.isDeleted cfg room then ([], w)
  else ((w.roomOr cfg room).history, w.setRoom room (w.roomOr cfg room))

/-- The frames and the seats after an identity sits down. -/
def Room.seat (identity name : String) (kind : SenderType) (session : Nat) (r : Room) :
    List ServerFrame × Room :=
  match r.members.get identity with
  | none => ([], { r with members := r.members.put identity ⟨name, kind, 1⟩ })
  | some s =>
    if s.name = name ∧ s.kind = .user ∧ kind = .user then
      ([], { r with members := r.members.put identity { s with connections := s.connections + 1 } })
    else ([.evicted name identity session],
      { r with members := r.members.put identity ⟨name, kind, 1⟩ })

def join (cfg : Config) (room identity name : String) (kind : SenderType) (session : Nat) (w : World) :
    Bool × World :=
  if w.isDeleted cfg room then (false, w)
  else
    let r := w.roomOr cfg room
    if (r.members.get identity).isNone && locaKapasite ≤ r.members.keys.length then
      (false, w.setRoom room r)
    else
      let (frames, r) := r.seat identity name kind session
      (true, (w.setRoom room r).send room (frames ++ [.members r.memberList]))

/-- One connection of a seat closes; the last one frees it. -/
def Room.unseat (identity : String) (r : Room) : Room :=
  match r.members.get identity with
  | none => r
  | some s => { r with
      members := if s.connections ≤ 1 then r.members.del identity
        else r.members.put identity { s with connections := s.connections - 1 } }

def leave (room identity : String) (w : World) : World :=
  match w.room? room with
  | none => w
  | some r => (w.setRoom room (r.unseat identity)).send room [.members (r.unseat identity).memberList]

/-! ## Memberships and davets

A suspended member counts as no member; suspensions are not modelled. -/

def admitMember (cfg : Config) (env : Env) (name kind admittedBy : String) (w : World) :
    Except StoreError Membership × World :=
  match w.hub.members.values.find? fun m => m.name = name with
  | some m => (.ok m, w)
  | none =>
    let m : Membership := ⟨"mb_" ++ env.token name "membership", name, kind, env.now, admittedBy⟩
    match w.store cfg env .write (fun db => .ok (addMember cfg.digests m db)) with
    | .error e => (.error e, w)
    | .ok w => (.ok m, { w with hub := { w.hub with members := w.hub.members.put m.token m } })

inductive InviteError
  | sealed_ | missingRoom | memberNotFound | reserved | alreadyInvited | full | storage
  deriving DecidableEq, Repr

def inviteMemberToRoom (cfg : Config) (env : Env) (member room issuedBy : String) (w : World) :
    Except InviteError Invite × World :=
  if w.isDeleted cfg room then (.error .sealed_, w)
  else if cfg.adminToken ≠ "" ∧ (w.room? room).isNone then (.error .missingRoom, w)
  else match w.hub.members.get member with
    | none => (.error .memberNotFound, w)
    | some m =>
      let davets := w.hub.invites.values.filter fun i => i.room = room
      if room = cfg.reservedRoom ∧ cfg.caretakers.contains m.name = false then (.error .reserved, w)
      else if davets.any fun i => i.member = member then (.error .alreadyInvited, w)
      else if locaKapasite ≤ davets.length then (.error .full, w)
      else
        let inv : Invite := ⟨"dv_" ++ env.token room "davet", room, m.token, m.name, m.kind, env.now,
          issuedBy⟩
        match w.store cfg env .write (insertInvite inv) with
        | .error _ => (.error .storage, w)
        | .ok w => (.ok inv, { w with hub := { w.hub with
            invites := w.hub.invites.put inv.token inv } })

/-- `close_connections`. -/
def World.closeConnections (room name : String) (w : World) : World :=
  match w.room? room with
  | none => w
  | some _ => w.send room [.kicked name false]

def revokeDavet (cfg : Config) (env : Env) (token : String) (w : World) :
    Except StoreError Bool × World :=
  match w.hub.invites.get token with
  | none => (.ok false, w)
  | some inv =>
    match w.store cfg env .write (fun db => .ok (revokeInvite token env.now db)) with
    | .error e => (.error e, w)
    | .ok w => (.ok true, { w with hub := { w.hub with
        invites := w.hub.invites.del token } }.closeConnections inv.room inv.name)

def revokeMember (cfg : Config) (env : Env) (token : String) (w : World) :
    Except StoreError Bool × World :=
  if (w.hub.members.get token).isNone then (.ok false, w)
  else match w.store cfg env .write
      (fun db => .ok (revokeMemberCascade cfg.digests token env.now db)) with
    | .error e => (.error e, w)
    | .ok w =>
      let davets := w.hub.invites.values.filter fun i => i.member = token
      let w := { w with hub := { w.hub with
        invites := davets.foldl (fun invites i => invites.del i.token) w.hub.invites
        members := w.hub.members.del token } }
      (.ok true, davets.foldl (fun w i => w.closeConnections i.room i.name) w)

/-- `revoke_invites_for`: every davet a name holds for one loca. -/
def World.revokeInvitesFor (cfg : Config) (env : Env) (room name : String) (w : World) :
    Except StoreError World :=
  let held := w.hub.invites.values.filter fun i => i.room = room && i.name = name
  if held.isEmpty then .ok w
  else do
    let w ← w.store cfg env .revokeInvites fun db => .ok (Loca.revokeInvitesFor room name env.now db)
    let w := { w with hub := { w.hub with
      invites := held.foldl (fun invites i => invites.del i.token) w.hub.invites } }
    pure (held.foldl (fun w _ => w.closeConnections room name) w)

/-! ## Moderation -/

def Room.modState (r : Room) : ModState := ⟨Table.orderBy id r.muted, Table.orderBy id r.banned⟩

def World.modState (room : String) (w : World) : ModState :=
  ((w.room? room).map Room.modState).getD ⟨[], []⟩

/-- What a moderation action writes, before memory changes. -/
def moderateStore (cfg : Config) (env : Env) (room : String) (action : ModAction) (name : String)
    (w : World) : Except StoreError World :=
  match action with
  | .mute => w.store cfg env .write fun db => .ok (setBan room name "mute" env.now db)
  | .unmute => w.store cfg env .write fun db => .ok (clearBan room name "mute" db)
  | .ban => w.store cfg env .write fun db => .ok (setBan room name "ban" env.now db)
  | .unban => w.store cfg env .write fun db => .ok (clearBan room name "ban" db)
  | .kick | .release => .ok w

/-- Drop whichever seat wears the name. -/
def Room.eject (name : String) (r : Room) : Room :=
  { r with members := r.members.retain fun _ s => s.name ≠ name }

def insertName (name : String) (l : List String) : List String :=
  if l.contains name then l else name :: l

/-- The room and the frames of a moderation action. -/
def Room.moderate (action : ModAction) (name : String) (r : Room) : Room × List ServerFrame :=
  match action with
  | .mute => let r := { r with muted := insertName name r.muted }; (r, [.moderation r.modState])
  | .unmute =>
    let r := { r with muted := r.muted.filter fun n => n ≠ name }; (r, [.moderation r.modState])
  | .unban =>
    let r := { r with banned := r.banned.filter fun n => n ≠ name }; (r, [.moderation r.modState])
  | .kick | .release =>
    let r := r.eject name; (r, [.kicked name false, .members r.memberList])
  | .ban =>
    let r := { r with banned := insertName name r.banned }.eject name
    (r, [.kicked name true, .members r.memberList])

def moderate (cfg : Config) (env : Env) (room : String) (action : ModAction) (name : String)
    (w : World) : Except StoreError ModState × World :=
  if w.isDeleted cfg room then (.ok (w.modState room), w)
  else match moderateStore cfg env room action name w with
    | .error e => (.error e, w)
    | .ok w₁ =>
      let revoked := if action = .ban ∨ action = .kick ∨ action = .release then
          w₁.revokeInvitesFor cfg env room name else .ok w₁
      match revoked with
      | .error e => (.error e, w₁)
      | .ok w₂ =>
        let (r, frames) := (w₂.roomOr cfg room).moderate action name
        (.ok r.modState, (w₂.setRoom room r).send room frames)

/-! ## The rooms a caller sees -/

structure RoomSummary where
  room : String
  members : Nat
  humans : Nat
  agents : Nat
  mode : ChatMode
  archived : Bool
  last : Option String
  lastId : Nat
  special : Bool
  deriving DecidableEq, Repr

def Room.summary (cfg : Config) (name : String) (r : Room) : RoomSummary :=
  let live := r.members.values.filter fun s => 0 < s.connections
  let humans := (live.filter fun s => s.kind = .user).length
  let agents := (live.filter fun s => s.kind = .agent).length
  { room := name
    members := humans + agents
    humans := humans
    agents := agents
    mode := r.mode
    archived := r.settings.archived
    last := r.history.getLast?.map fun m =>
      m.sender ++ ": " ++ String.ofList (m.text.toList.take 48)
    lastId := (r.history.getLast?.map Message.id).getD 0
    special := cfg.reservedRoom ≠ "" && name = cfg.reservedRoom }

def World.roomSummariesFor (cfg : Config) (reach : String → Bool) (w : World) : List RoomSummary :=
  Table.orderBy RoomSummary.room
    ((w.hub.rooms.entries.filter fun e => reach e.1).map fun e => e.2.summary cfg e.1)

end Loca
