/-
# `Loca.Building.House` — members, davets and sessions under concurrent calls

The calls of `hub.rs` that change who belongs to the building and who may enter a room, cut at
their locks: `admit_member`, `approve_join_request`, `revoke_member`, `set_member_suspended`,
`invite_member_to_room` with `add_invite`, `revoke_invite`, `revoke_invites_for` (a kick, a ban and
a release), and the route that takes a session for a davet.  The members, davets and sessions the
hub holds are maps behind a lock each, the tables are behind the connection's lock, and a call
holds one of these locks for one step only.  `member_lifecycle` is the exception: `revoke_member`,
`set_member_suspended` and `add_invite` hold it from their first step to their last.

A call in flight is a `Task`: where it stands and what it has read.  `advance` lets one task take
one step; the order is anybody's choice.  Whether a room is sealed, missing or reserved is the
rooms' business; a `Moment` says what the check answers.

A davet without a member is from before this code; the migration at boot that binds those is not
modelled, and a store has none.
-/
import Loca.Base.Crew
import Loca.Base.Run
import Loca.Building.Accounting
import Loca.Hub.Doors

namespace Loca.Building

open Table

/-! ## The store calls -/

def addMember (h : Digests) (m : Membership) (db : Registry) : Registry :=
  insertPrincipalCredential h .member m.token m.name m.kind m.joinedAt "Member access"
    { db with members := upsert (fun r => r.membership.token) ⟨m, none⟩ db.members }

/-- The credential of this token and the principal it proves end. -/
def revokePrincipalCredential (h : Digests) (token : String) (now : Nat) (db : Registry) : Registry :=
  { db with
    credentials := updateWhere (fun c => c.secretHash = h.secretHash token && c.revokedAt.isNone)
      (fun c => { c with revokedAt := some now }) db.credentials
    principals := updateWhere
      (fun p => (db.credentials.any fun c => c.secretHash = h.secretHash token && c.principalId = p.id) &&
        p.disabledAt.isNone)
      (fun p => { p with disabledAt := some now }) db.principals }

def revokeDavets (p : Invite → Bool) (now : Nat) (db : Registry) : Registry :=
  { db with
    invites := updateWhere (fun r => p r.invite && r.revokedAt.isNone)
      (fun r => { r with revokedAt := some now }) db.invites }

def revokeMemberCascade (h : Digests) (token : String) (now : Nat) (db : Registry) : Registry :=
  revokePrincipalCredential h token now (revokeDavets (fun i => i.member = token) now
    { db with
      members := updateWhere (fun r => r.membership.token = token && r.revokedAt.isNone)
        (fun r => { r with revokedAt := some now }) db.members })

def memberSuspended (token : String) (db : Registry) : Bool :=
  db.suspensions.any fun r => r.memberToken = token

/-- The principal of a live member that is nothing more than a member. -/
def memberPrincipal (h : Digests) (token : String) (db : Registry) : Option String :=
  if db.members.any fun r => r.membership.token = token && r.revokedAt.isNone then
    (db.principals.find? fun p => p.buildingRole = .member &&
      db.credentials.any fun c => c.secretHash = h.secretHash token && c.principalId = p.id).map
      PrincipalRow.id
  else none

/-- `none`: there is no such member. -/
def suspendMember (h : Digests) (token reason : String) (now : Nat) (db : Registry) : Option Registry :=
  (memberPrincipal h token db).map fun principal =>
    revokeDavets (fun i => i.member = token) now { db with
      suspensions := insertIgnore SuspensionRow.memberToken ⟨token, now, reason⟩ db.suspensions
      principals := updateWhere (fun p => p.id = principal && p.disabledAt.isNone)
        (fun p => { p with disabledAt := some now }) db.principals
      sessions := updateWhere (fun x => x.principalId = principal && x.revokedAt.isNone)
        (fun x => { x with revokedAt := some now }) db.sessions }

def resumeMember (h : Digests) (token : String) (db : Registry) : Option Registry :=
  if memberSuspended token db &&
      db.members.any fun r => r.membership.token = token && r.revokedAt.isNone then
    some { db with
      suspensions := deleteWhere (fun r => r.memberToken = token) db.suspensions
      principals := updateWhere
        (fun p => (db.credentials.any fun c => c.secretHash = h.secretHash token && c.principalId = p.id) &&
          p.buildingRole = .member)
        (fun p => { p with disabledAt := none }) db.principals }
  else none

/-- A suspended member takes no davet. -/
def insertInvite (inv : Invite) (db : Registry) : Option Registry :=
  if memberSuspended inv.member db then none
  else some { db with invites := upsert (fun r => r.invite.token) ⟨inv, none⟩ db.invites }

def loadMembers (db : Registry) : List Membership :=
  (db.members.filter fun r => r.revokedAt.isNone).map MemberRow.membership

def loadInvites (db : Registry) : List Invite :=
  (db.invites.filter fun r => r.revokedAt.isNone).map InviteRow.invite

/-- The credential and the principal behind a secret, both in force. -/
def activeCredential (h : Digests) (secret : String) (db : Registry) : Option (CredentialRow × PrincipalRow) := do
  let c ← db.credentials.find? fun c => c.secretHash = h.secretHash secret && c.revokedAt.isNone
  let p ← db.principals.find? fun p => p.id = c.principalId && p.disabledAt.isNone
  pure (c, p)

/-- `principal_for_credential`; the time of the last use is not kept. -/
def principalForCredential (h : Digests) (secret : String) (db : Registry) : Option PrincipalRow :=
  if secret = "" then none else (activeCredential h secret db).map Prod.snd

def credentialIdForSecret (h : Digests) (secret : String) (db : Registry) : Option String :=
  (db.credentials.find? fun c => c.secretHash = h.secretHash secret && c.revokedAt.isNone).map
    CredentialRow.id

def savePrincipalSession (h : Digests) (secret principalId credentialId : String) (now expiresAt : Nat)
    (db : Registry) : Registry :=
  { db with
    sessions := upsert SessionRow.id ⟨h.secretHash secret, principalId, credentialId, now, expiresAt, none⟩
      db.sessions }

/-! ## The hub -/

structure SessionIdentity where
  principalId : Option String
  buildingRole : BuildingRole
  name : String
  kind : SenderType
  loca : Option String
  member : Option String
  admin : Bool
  expiresAt : Nat
  deriving DecidableEq, Repr

/-- A call in flight: where it stands, with what it has read. -/
inductive Task
  | admitCheck (name kind by_ : String)
  | admitStore (name kind by_ : String)
  | admitMirror (m : Membership)
  | approveStore (id by_ : String)
  | approveMirror (m : Membership)
  | revokeCheck (token : String)
  | revokeStore (token : String)
  | revokeCollect (token : String)
  | revokeRemove (token : String) (davets : List Invite)
  | revokeSeats (token : String) (davets : List Invite)
  | revokeSessions (token : String)
  | revokeForget (token : String)
  | suspendCheck (reference : String) (suspended : Bool) (reason : String)
  | suspendStore (token reason : String)
  | suspendCollect (token : String)
  | suspendRemove (token : String) (davets : List Invite)
  | suspendSessions (token : String)
  | resumeStore (token : String)
  | inviteCheck (member room by_ : String)
  | inviteMember (member room by_ : String)
  | inviteDup (m : Membership) (room by_ : String)
  | inviteCount (m : Membership) (room by_ : String)
  | inviteAdd (m : Membership) (room by_ : String)
  | inviteStore (inv : Invite)
  | inviteMirror (inv : Invite)
  | uninviteFind (token : String)
  | uninviteStore (inv : Invite)
  | uninviteRemove (inv : Invite)
  | uninviteSessions (inv : Invite)
  | unseatFind (room name : String)
  | unseatStore (room name : String) (davets : List Invite)
  | unseatRemove (davets : List Invite)
  | unseatSessions (davets : List Invite)
  | sessionFind (token : String)
  | sessionSuspended (inv : Invite)
  | sessionMember (inv : Invite)
  | sessionPrincipal (inv : Invite) (name kind : String)
  | sessionCredential (inv : Invite) (idy : SessionIdentity)
  | sessionSave (inv : Invite) (idy : SessionIdentity) (credential : Option String)
  | sessionInsert (inv : Invite) (st : String) (idy : SessionIdentity)
  deriving DecidableEq, Repr

/-- What a request asks for. -/
inductive Call
  | admitMember (name kind by_ : String)
  | approveJoinRequest (id by_ : String)
  | revokeMember (token : String)
  | setMemberSuspended (reference : String) (suspended : Bool) (reason : String)
  | inviteMemberToRoom (member room by_ : String)
  | revokeInvite (token : String)
  /-- A kick, a ban or a release of the name. -/
  | revokeInvitesFor (room name : String)
  /-- A session for a davet. -/
  | createSession (token : String)
  deriving DecidableEq, Repr

def Call.task : Call → Task
  | .admitMember name kind by_ => .admitCheck name kind by_
  | .approveJoinRequest id by_ => .approveStore id by_
  | .revokeMember token => .revokeCheck token
  | .setMemberSuspended reference suspended reason => .suspendCheck reference suspended reason
  | .inviteMemberToRoom member room by_ => .inviteCheck member room by_
  | .revokeInvite token => .uninviteFind token
  | .revokeInvitesFor room name => .unseatFind room name
  | .createSession token => .sessionFind token

/-- Inside the section that `member_lifecycle` guards. -/
def Task.critical : Task → Bool
  | .revokeStore _ | .revokeCollect _ | .revokeRemove _ _ | .revokeSeats _ _ | .revokeSessions _
  | .revokeForget _ | .suspendStore _ _ | .suspendCollect _ | .suspendRemove _ _ | .suspendSessions _
  | .resumeStore _ | .inviteStore _ | .inviteMirror _ => true
  | _ => false

/-- About to enter it. -/
def Task.enters : Task → Bool
  | .revokeCheck _ | .suspendCheck _ _ _ | .inviteAdd _ _ _ => true
  | _ => false

structure House where
  db : Registry
  members : List Membership
  invites : List Invite
  sessions : List (String × SessionIdentity)

/-- What one step meets: the clock, whether its store call fails, whether the room it asks about is
closed to it, the token the operating system draws. -/
structure Moment where
  env : StoreEnv
  fails : Bool
  barred : Bool
  token : String

def Moment.now (m : Moment) : Nat := m.env.now

/-- A store call that binds the clock fails when the store does, or when the clock cannot be bound. -/
def Moment.refuses (m : Moment) : Bool := m.fails || !decide (Storable m.now)

namespace House

variable (h : Digests)

/-- `retain`: the sessions this davet's `(room, member)` took; none without a member. -/
def dropSeat (inv : Invite) (sessions : List (String × SessionIdentity)) :
    List (String × SessionIdentity) :=
  if inv.member = "" then sessions
  else sessions.filter fun e => !(e.2.member = some inv.member && e.2.loca = some inv.room)

def dropMember (token : String) (sessions : List (String × SessionIdentity)) :
    List (String × SessionIdentity) :=
  sessions.filter fun e => !(e.2.member = some token)

def removeDavets (davets : List Invite) (invites : List Invite) : List Invite :=
  deleteWhere (fun i => davets.any fun d => d.token = i.token) invites

/-- The live davets of a room. -/
def seats (room : String) (s : House) : Nat := s.invites.countP fun i => i.room = room

def hasActiveInvite (room member : String) (s : House) : Bool :=
  s.invites.any fun i => i.room = room && i.member = member

def memberKind (kind : String) : SenderType := if kind = "user" then .user else .agent

def managementId (token : String) : String := h.hashedId "mbid_" ("member:" ++ token)

/-- One step of one task: the house afterwards (its tasks aside), and how the task goes on. -/
def run (m : Moment) (s : House) : Task → House × Option Task
  | .admitCheck name kind by_ =>
      if s.members.any fun x => x.name = name then (s, none) else (s, some (.admitStore name kind by_))
  | .admitStore name kind by_ =>
      let x : Membership := ⟨m.token, name, kind, m.now, by_⟩
      if m.refuses then (s, none) else ({ s with db := addMember h x s.db }, some (.admitMirror x))
  | .admitMirror x => ({ s with members := upsert Membership.token x s.members }, none)
  | .approveStore id by_ =>
      match approveJoinRequestAtomic h m.env id m.token by_ s.db with
      | (.committed x, db) => ({ s with db := db }, some (.approveMirror x))
      | (_, db) => ({ s with db := db }, none)
  | .approveMirror x => ({ s with members := upsert Membership.token x s.members }, none)
  | .revokeCheck token =>
      if s.members.any fun x => x.token = token then (s, some (.revokeStore token)) else (s, none)
  | .revokeStore token =>
      if m.refuses then (s, none)
      else ({ s with db := revokeMemberCascade h token m.now s.db }, some (.revokeCollect token))
  | .revokeCollect token => (s, some (.revokeRemove token (s.invites.filter fun i => i.member = token)))
  | .revokeRemove token davets =>
      ({ s with invites := removeDavets davets s.invites }, some (.revokeSeats token davets))
  | .revokeSeats token [] => (s, some (.revokeSessions token))
  | .revokeSeats token (inv :: davets) =>
      ({ s with sessions := dropSeat inv s.sessions }, some (.revokeSeats token davets))
  | .revokeSessions token =>
      ({ s with sessions := dropMember token s.sessions }, some (.revokeForget token))
  | .revokeForget token =>
      ({ s with members := deleteWhere (fun x => x.token = token) s.members }, none)
  | .suspendCheck reference suspended reason =>
      match s.members.find? fun x => managementId h x.token = reference with
      | none => (s, none)
      | some x => (s, some (if suspended then .suspendStore x.token reason else .resumeStore x.token))
  | .suspendStore token reason =>
      if m.refuses then (s, none)
      else match suspendMember h token reason m.now s.db with
        | none => (s, none)
        | some db => ({ s with db := db }, some (.suspendCollect token))
  | .suspendCollect token => (s, some (.suspendRemove token (s.invites.filter fun i => i.member = token)))
  | .suspendRemove token davets =>
      ({ s with invites := removeDavets davets s.invites }, some (.suspendSessions token))
  | .suspendSessions token => ({ s with sessions := dropMember token s.sessions }, none)
  | .resumeStore token =>
      if m.fails then (s, none)
      else match resumeMember h token s.db with
        | none => (s, none)
        | some db => ({ s with db := db }, none)
  | .inviteCheck member room by_ =>
      -- a read that fails counts as suspended
      if m.barred || m.fails || memberSuspended member s.db then (s, none)
      else (s, some (.inviteMember member room by_))
  | .inviteMember member room by_ =>
      match s.members.find? fun x => x.token = member with
      | none => (s, none)
      | some x => if m.barred then (s, none) else (s, some (.inviteDup x room by_))
  | .inviteDup x room by_ =>
      if hasActiveInvite room x.token s then (s, none) else (s, some (.inviteCount x room by_))
  | .inviteCount x room by_ =>
      if locaKapasite ≤ seats room s then (s, none) else (s, some (.inviteAdd x room by_))
  | .inviteAdd x room by_ =>
      let inv : Invite := ⟨m.token, room, x.token, x.name, x.kind, m.now, by_⟩
      if m.barred || m.fails || memberSuspended x.token s.db ||
          !(s.members.any fun y => y.token = x.token) then (s, none)
      else (s, some (.inviteStore inv))
  | .inviteStore inv =>
      if m.fails || m.barred then (s, none)
      else match insertInvite inv s.db with
        | none => (s, none)
        | some db => ({ s with db := db }, some (.inviteMirror inv))
  | .inviteMirror inv => ({ s with invites := upsert Invite.token inv s.invites }, none)
  | .uninviteFind token =>
      match s.invites.find? fun i => i.token = token with
      | none => (s, none)
      | some inv => (s, some (.uninviteStore inv))
  | .uninviteStore inv =>
      if m.fails then (s, none)
      else ({ s with db := revokeDavets (fun i => i.token = inv.token) m.now s.db },
        some (.uninviteRemove inv))
  | .uninviteRemove inv =>
      ({ s with invites := removeDavets [inv] s.invites }, some (.uninviteSessions inv))
  | .uninviteSessions inv => ({ s with sessions := dropSeat inv s.sessions }, none)
  | .unseatFind room name =>
      let davets := s.invites.filter fun i => i.room = room && i.name = name
      if davets.isEmpty then (s, none) else (s, some (.unseatStore room name davets))
  | .unseatStore room name davets =>
      if m.fails then (s, none)
      else ({ s with db := revokeDavets (fun i => i.room = room && i.name = name) m.now s.db },
        some (.unseatRemove davets))
  | .unseatRemove davets =>
      ({ s with invites := removeDavets davets s.invites }, some (.unseatSessions davets))
  | .unseatSessions [] => (s, none)
  | .unseatSessions (inv :: davets) =>
      ({ s with sessions := dropSeat inv s.sessions }, some (.unseatSessions davets))
  | .sessionFind token =>
      match s.invites.find? fun i => i.token = token with
      | none => (s, none)
      | some inv => (s, some (.sessionSuspended inv))
  | .sessionSuspended inv =>
      if m.fails || memberSuspended inv.member s.db then (s, none) else (s, some (.sessionMember inv))
  | .sessionMember inv =>
      -- the membership names the session; the davet's snapshot when it is gone
      match s.members.find? fun x => x.token = inv.member with
      | some x =>
          if m.fails || memberSuspended inv.member s.db then
            (s, some (.sessionPrincipal inv inv.name inv.kind))
          else (s, some (.sessionPrincipal inv x.name x.kind))
      | none => (s, some (.sessionPrincipal inv inv.name inv.kind))
  | .sessionPrincipal inv name kind =>
      let principal := if m.fails then none else principalForCredential h inv.member s.db
      (s, some (.sessionCredential inv ⟨principal.map PrincipalRow.id, .member, name, memberKind kind,
        some inv.room, some inv.member, false, 0⟩))
  | .sessionCredential inv idy =>
      (s, some (.sessionSave inv idy (if m.fails then none else credentialIdForSecret h inv.member s.db)))
  | .sessionSave inv idy credential =>
      match idy.principalId, credential with
      | some principal, some credential =>
          if m.refuses then (s, none)
          else ({ s with db := savePrincipalSession h m.token principal credential m.now 0 s.db },
            some (.sessionInsert inv m.token idy))
      | _, _ => (s, some (.sessionInsert inv m.token idy))
  | .sessionInsert _ st idy => ({ s with sessions := upsert Prod.fst (st, idy) s.sessions }, none)

/-- The maps as the tables have them, and no session.  A table that cannot be read gives
nothing. -/
def load (membersLost invitesLost : Bool) (db : Registry) : House :=
  ⟨db, if membersLost then [] else loadMembers db, if invitesLost then [] else loadInvites db, []⟩

/-- At boot the seats of the reserved room that are not its caretakers' are taken back. -/
def clean (stale : Invite → Bool) (now : Nat) (s : House) : House :=
  let gone := s.invites.filter stale
  { s with
    db := revokeDavets (fun i => gone.any fun d => d.token = i.token) now s.db
    invites := removeDavets gone s.invites }

end House

/-- The calls as tasks: who wants `member_lifecycle` waits until nobody has it. -/
def program (h : Digests) : Sys.Program House Task Moment where
  run := House.run h
  waits t tasks := t.enters && tasks.any Task.critical

inductive HouseInput
  | call (c : Call)
  | advance (k : Nat) (m : Moment)
  /-- The admission desk, approvals aside. -/
  | desk (i : DeskInput)
  /-- `stale`: the seats of the reserved room that are not its caretakers'. -/
  | restart (membersLost invitesLost : Bool) (stale : Invite → Bool) (now : Nat)

/-- The inputs of the desk that are not calls of their own here. -/
def DeskInput.routine : DeskInput → Bool
  | .approve _ _ _ _ => false
  | .elsewhere _ _ _ => false
  | _ => true

/-- The house and the calls in flight. -/
abbrev Site := Sys.Crew House Task

def Site.step (h : Digests) (s : Site) : HouseInput → Site
  | .call c => ⟨s.shared, s.tasks ++ [c.task]⟩
  | .advance k m => s.advance (program h) m k
  | .desk i =>
      if i.routine then ⟨{ s.shared with db := (Desk.step h ⟨s.shared.db, []⟩ i).2.db }, s.tasks⟩ else s
  | .restart membersLost invitesLost stale now =>
      ⟨(House.load membersLost invitesLost s.shared.db).clean stale now, []⟩

/-- A server started on a store that is `good`. -/
def house (h : Digests) (good : Registry → Prop) : Sys.Machine Site HouseInput Unit where
  init s := good s.shared.db ∧ s = ⟨House.load false false s.shared.db, []⟩
  step s i := ((), Site.step h s i)

end Loca.Building
