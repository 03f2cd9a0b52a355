/-
# `Loca.Building.Residence` — who gets in, with what

The hub as it answers one request after the other: the calls that admit, invite, suspend and revoke
members, hand out sessions, device keys and smaster keys, and the functions that every door asks
(`resolve_authority`, `member_for_credential`, `may_enter`, `enter_decision`, `session_identity`, and
the route that creates a session).

A store read that fails answers nothing, a store write that fails refuses its call; an `Occasion` says
which do.  Bans and the operator of a room are the rooms' business: a `Door` says what they answer.
A pairing code is worth what `consume_admin_pairing` made of it.

`minted` is the history of the sessions that were drawn, with what opened the door to each; the server
does not look at it.
-/
import Loca.Building.House

namespace Loca.Building

open Table

/-! ## The state -/

/-- The configured keys. -/
structure Locks where
  roomToken : String
  adminToken : String
  requireInvite : Bool
  masterName : String

/-- No building key, invites required, an admin key. -/
structure Locks.Closed (k : Locks) : Prop where
  noKey : k.roomToken = ""
  invites : k.requireInvite = true
  host : k.adminToken ≠ ""

/-- A session that was drawn: for the holder of a davet, or for a secret that was presented. -/
structure Mint where
  token : String
  seat : Option Invite
  key : Option String
  identity : SessionIdentity
  deriving DecidableEq, Repr

structure Residence where
  db : Registry
  /-- `admin_sessions`: the token and when it expires. -/
  admins : List (String × Nat)
  members : List Membership
  invites : List Invite
  sessions : List (String × SessionIdentity)
  smasters : List (String × String)
  minted : List Mint

/-- The store calls that can fail. -/
inductive StoreCall
  | write | saveAdmin | saveSession | deleteAdmin
  | suspended | principal | credentialId | credentialRevoked | memberRecord | sessionActive
  | sessionUses | legacySource | master | members | invites | smasters | admins | boot
  deriving DecidableEq, Repr

/-- What a call meets: the clock and the statements of a transaction that fail, the store calls that
fail, whether the room it asks about is closed to it, the token the operating system draws. -/
structure Occasion where
  env : StoreEnv
  fails : StoreCall → Bool
  barred : Bool
  token : String

def Occasion.now (t : Occasion) : Nat := t.env.now

/-- A write that binds the clock. -/
def Occasion.refuses (t : Occasion) (call : StoreCall) : Bool := t.fails call || !decide (Storable t.now)

/-! ## What the doors ask -/

structure RequestAuthority where
  principalId : Option String
  displayName : Option String
  kind : Option SenderType
  buildingRole : Option BuildingRole
  deriving DecidableEq, Repr

namespace RequestAuthority

def nobody : RequestAuthority := ⟨none, none, none, none⟩

def operator : RequestAuthority := ⟨none, some "operator", some .user, some .master⟩

def isBuildingAdmin (a : RequestAuthority) : Bool :=
  a.buildingRole = some .master || a.buildingRole = some .smaster

end RequestAuthority

def parseSenderType (kind : String) : SenderType := if kind = "agent" then .agent else .user

def authorityFromPrincipal (p : PrincipalRow) : RequestAuthority :=
  ⟨some p.id, some p.displayName, some (parseSenderType p.kind), some p.buildingRole⟩

def activePrincipal (id : String) (db : Registry) : Option PrincipalRow :=
  db.principals.find? fun p => p.id = id && p.disabledAt.isNone

def activeMasterPrincipal (db : Registry) : Option PrincipalRow :=
  db.principals.find? fun p => p.buildingRole = .master && p.disabledAt.isNone

def credentialIsRevoked (h : Digests) (secret : String) (db : Registry) : Bool :=
  db.credentials.any fun c => c.secretHash = h.secretHash secret && c.revokedAt.isSome

def principalIdForMemberRecord (h : Digests) (token : String) (db : Registry) : Option String :=
  (db.credentials.find? fun c => c.legacySource = some (identityText .member (h.secretHash token))).map
    CredentialRow.principalId

/-- The row of a session that is in force, with its credential and its principal. -/
def SessionRow.inForce (now : Nat) (db : Registry) (r : SessionRow) : Bool :=
  r.revokedAt.isNone && (r.expiresAt = 0 || now < r.expiresAt) &&
    (db.credentials.any fun c => c.id = r.credentialId && c.principalId = r.principalId && c.revokedAt.isNone) &&
    db.principals.any fun p => p.id = r.principalId && p.disabledAt.isNone

def principalSessionActive (h : Digests) (secret : String) (now : Nat) (db : Registry) : Bool :=
  decide (Storable now) && db.sessions.any fun r => r.id = h.secretHash secret && r.inForce now db

def principalForSession (h : Digests) (secret : String) (now : Nat) (db : Registry) : Option PrincipalRow := do
  let r ← db.sessions.find? fun r => r.id = h.secretHash secret && r.inForce now db
  activePrincipal r.principalId db

/-- Sessions end in the store. -/
def revokeSessions (p : SessionRow → Bool) (now : Nat) (db : Registry) : Registry :=
  { db with
    sessions := updateWhere (fun r => p r && r.revokedAt.isNone) (fun r => { r with revokedAt := some now })
      db.sessions }

/-- A recovery credential: its source is `admin:…`. -/
def CredentialRow.isRoot (c : CredentialRow) : Bool :=
  (c.legacySource.map (Text.hasPrefix "admin:")).getD false

inductive EnterDecision | allowed | banned | denied
  deriving DecidableEq, Repr

/-- What the room says: whom it has banned, and who runs it. -/
structure Door where
  banned : String → Bool
  operator : Option String

structure AdminSessionGrant where
  ttl : Nat
  credentialId : Option String
  authority : RequestAuthority
  deriving DecidableEq, Repr

def adminSessionTtlMs : Nat := 12 * 60 * 60 * 1000

namespace Residence

variable (k : Locks) (h : Digests) (t : Occasion) (s : Residence)

def isMaster (token : Option String) : Bool := k.adminToken = "" || token = some k.adminToken

def isMember (token : Option String) : Bool :=
  if k.roomToken = "" then !k.requireInvite || (k.adminToken ≠ "" && token = some k.adminToken)
  else token = some k.roomToken || (k.adminToken ≠ "" && token = some k.adminToken)

def smasterName (token : Option String) : Option String :=
  match token with
  | none => none
  | some x => if x = "" then none else (s.smasters.find? fun e => e.1 = x).map Prod.snd

def principalOf (secret : String) : Option PrincipalRow :=
  if t.fails .principal then none else principalForCredential h secret s.db

def credentialIdOf (secret : String) : Option String :=
  if t.fails .credentialId then none else credentialIdForSecret h secret s.db

/-- A read that fails counts as suspended. -/
def suspended (token : String) : Bool := t.fails .suspended || memberSuspended token s.db

/-- Whether a session that the map has still stands, and what it says. -/
def standing (st : String) (idy : SessionIdentity) : Option SessionIdentity :=
  if idy.principalId.isSome && (t.fails .sessionActive || !principalSessionActive h st t.now s.db) then none
  else if idy.expiresAt ≠ 0 && idy.expiresAt ≤ t.now then none
  else some idy

/-- The answer of `session_identity`. -/
def sessionIdentity (token : Option String) : Option SessionIdentity :=
  match token with
  | none => none
  | some st =>
    match s.sessions.find? fun e => e.1 = st with
    | none => none
    | some e => standing h t s st e.2

def resolveAuthority (admin session : Option String) : RequestAuthority :=
  match sessionIdentity h t s session with
  | some idy =>
    match idy.principalId with
    | some p =>
      ((if t.fails .principal then none else activePrincipal p s.db).map authorityFromPrincipal).getD
        .nobody
    | none => ⟨none, some idy.name, some idy.kind, some idy.buildingRole⟩
  | none =>
    match admin.filter (· ≠ "") with
    | none => if k.adminToken = "" then .operator else .nobody
    | some x =>
      match principalOf h t s x with
      | some p => authorityFromPrincipal p
      | none =>
        if isMaster k (some x) then .operator
        else if (smasterName s (some x)).isSome then
          ⟨none, smasterName s (some x), some .user, some .smaster⟩
        else .nobody

def memberForCredential (token : Option String) : Option Membership :=
  match token.bind (principalOf h t s) with
  | none => none
  | some p =>
    if p.buildingRole ≠ .member then none
    else s.members.find? fun x =>
      (if t.fails .memberRecord then none else principalIdForMemberRecord h x.token s.db) = some p.id

def inviteByToken (token : String) : Option Invite :=
  match s.invites.find? fun i => i.token = token with
  | none => none
  | some inv => if inv.member ≠ "" && suspended t s inv.member then none else some inv

def inviteFor (room : String) (token : Option String) : Option Invite :=
  (token.bind (inviteByToken t s)).filter fun inv => inv.room = room

def mayEnter (room : String) (token : Option String) : Bool :=
  if (inviteFor t s room token).isSome then true
  else match token with
    | none => isMember k none
    | some x =>
      if !t.fails .credentialRevoked && credentialIsRevoked h x s.db then false
      else match memberForCredential h t s (some x) with
        | some m => isMember k (some m.token)
        | none => isMember k (some x)

/-- The one door decision; `session` is what `session_identity` has answered. -/
def enterDecision (room : String) (door : Door) (admin davet : Option String)
    (session : Option SessionIdentity) (hint : Option String) : EnterDecision :=
  let authority := resolveAuthority k h t s admin none
  let name := ((session.map SessionIdentity.name).orElse fun _ =>
    (davet.bind (inviteByToken t s)).map Invite.name).orElse fun _ =>
      authority.displayName.orElse fun _ => hint
  let principal := (session.bind SessionIdentity.principalId).orElse fun _ => authority.principalId
  if authority.isBuildingAdmin && admin.isSome then .allowed
  else if (session.map SessionIdentity.admin).getD false then .allowed
  else if (name.map door.banned).getD false then .banned
  else if principal.isSome && principal = door.operator then .allowed
  else if mayEnter k h t s room davet then .allowed
  else match session with
    | none => .denied
    | some idy =>
      match idy.loca with
      | some l => if l = room then .allowed else .denied
      | none => if k.roomToken ≠ "" then .allowed else .denied

/-! ## Sessions -/

def adminSessionGrant (credential : Option String) (ttl : Nat) : Option AdminSessionGrant :=
  let authority := resolveAuthority k h t s credential none
  if authority.principalId.isSome || authority.isBuildingAdmin then
    some ⟨ttl, credential.bind (credentialIdOf h t s), authority⟩
  else none

def masterPairingGrant (ttl : Nat) : AdminSessionGrant :=
  ⟨ttl, credentialIdOf h t s k.adminToken,
    ((if t.fails .master then none else activeMasterPrincipal s.db).map authorityFromPrincipal).getD
      .operator⟩

/-- The identity a session is given. -/
def sessionOf (name : String) (kind : Option SenderType) (davet : Option Invite)
    (grant : Option AdminSessionGrant) : SessionIdentity :=
  match davet with
  | some inv =>
    let known := if suspended t s inv.member then none else s.members.find? fun x => x.token = inv.member
    ⟨(principalOf h t s inv.member).map PrincipalRow.id, .member, (known.map Membership.name).getD inv.name,
      House.memberKind ((known.map Membership.kind).getD inv.kind), some inv.room, some inv.member, false, 0⟩
  | none =>
    let authority := grant.map AdminSessionGrant.authority
    ⟨authority.bind RequestAuthority.principalId, (authority.bind RequestAuthority.buildingRole).getD .member,
      (authority.bind RequestAuthority.displayName).getD name,
      (authority.bind RequestAuthority.kind).getD (kind.getD .agent), none, none,
      (authority.map RequestAuthority.isBuildingAdmin).getD false,
      (grant.map fun g => min (t.now + g.ttl) u64Max).getD 0⟩

inductive ResidenceAnswer
  | done
  | failed
  | refused
  | said (b : Bool)
  /-- The member that the call ended, suspended or resumed. -/
  | member (token : Option String)
  | davet (inv : Invite)
  | session (st : String) (idy : SessionIdentity)
  | identity (idy : Option SessionIdentity)
  deriving DecidableEq, Repr

def createSessionScoped (name : String) (kind : Option SenderType) (davet : Option Invite)
    (grant : Option AdminSessionGrant) : ResidenceAnswer × Residence :=
  let idy := sessionOf h t s name kind davet grant
  if idy.admin && (t.fails .saveAdmin || !decide (Storable idy.expiresAt)) then (.failed, s)
  else
    let s := if idy.admin then { s with admins := upsert Prod.fst (t.token, idy.expiresAt) s.admins } else s
    let credential := match davet with
      | some inv => credentialIdOf h t s inv.member
      | none => grant.bind AdminSessionGrant.credentialId
    match idy.principalId, credential with
    | some p, some c =>
      if t.refuses .saveSession || !decide (Storable idy.expiresAt) then (.failed, s)
      else (.session t.token idy, { s with
        db := savePrincipalSession h t.token p c t.now idy.expiresAt s.db
        sessions := upsert Prod.fst (t.token, idy) s.sessions })
    | _, _ => (.session t.token idy, { s with sessions := upsert Prod.fst (t.token, idy) s.sessions })

/-- `POST /sessions`; `paired`: what the pairing code was worth. -/
def createSession (paired : Option Nat) (admin davet : Option String) (name : String)
    (kind : Option SenderType) : ResidenceAnswer × Residence :=
  let token := if paired.isSome then none else davet
  let credential := resolveAuthority k h t s admin none
  let personal := resolveAuthority k h t s token none
  if admin.isSome && credential.principalId.isNone && !credential.isBuildingAdmin then (.refused, s)
  else if paired.isNone && !isMember k token && (memberForCredential h t s token).isNone &&
      (token.bind (inviteByToken t s)).isNone && credential.principalId.isNone &&
      personal.principalId.isNone then (.refused, s)
  else
    let seat := token.bind (inviteByToken t s)
    let grant := match paired with
      | some ttl => some (masterPairingGrant k h t s ttl)
      | none =>
        if seat.isNone && admin.isSome then adminSessionGrant k h t s admin adminSessionTtlMs
        else if seat.isNone && ((memberForCredential h t s token).isSome ||
            personal.buildingRole = some .smaster) then
          adminSessionGrant k h t s token adminSessionTtlMs
        else none
    if (Text.trim name).isEmpty && seat.isNone && grant.isNone then (.refused, s)
    else
      let key := if paired.isSome || seat.isSome then none else admin.orElse fun _ => token
      createSessionScoped h t
        { s with minted := s.minted ++ [⟨t.token, seat, key, sessionOf h t s name kind seat grant⟩] }
        name kind seat grant

/-- A look at a session takes it out of the map when it no longer stands. -/
def lookUp (st : String) : ResidenceAnswer × Residence :=
  match s.sessions.find? fun e => e.1 = st with
  | none => (.identity none, s)
  | some e =>
    let kept := deleteWhere (fun e => e.1 = st) s.sessions
    if e.2.principalId.isSome && (t.fails .sessionActive || !principalSessionActive h st t.now s.db) then
      (.identity none, { s with sessions := kept })
    else if e.2.expiresAt ≠ 0 && e.2.expiresAt ≤ t.now then
      (.identity none, if e.2.admin && !t.fails .deleteAdmin then
        { s with
          db := revokeSessions (fun r => r.id = h.secretHash st) t.now s.db
          admins := deleteWhere (fun a => a.1 = st) s.admins
          sessions := kept }
      else { s with sessions := kept })
    else (.identity (some e.2), s)

def revokeSession (st : String) : ResidenceAnswer × Residence :=
  let found := s.sessions.find? fun e => e.1 = st
  let admin := (found.map fun e => e.2.admin).getD false
  if admin && t.fails .deleteAdmin then (.failed, s)
  else
    let s := if admin then
        { s with
          db := revokeSessions (fun r => r.id = h.secretHash st) t.now s.db
          admins := deleteWhere (fun a => a.1 = st) s.admins }
      else s
    if t.refuses .write then (.failed, s)
    else (.said found.isSome, { s with
      db := revokeSessions (fun r => r.id = h.secretHash st) t.now s.db
      sessions := deleteWhere (fun e => e.1 = st) s.sessions })

/-! ## Members and davets -/

def admitMember (name kind by_ : String) : ResidenceAnswer × Residence :=
  if s.members.any fun x => x.name = name then (.done, s)
  else if t.refuses .write then (.failed, s)
  else
    let x : Membership := ⟨t.token, name, kind, t.now, by_⟩
    (.done, { s with db := addMember h x s.db, members := upsert Membership.token x s.members })

def approveJoinRequest (id by_ : String) : ResidenceAnswer × Residence :=
  match approveJoinRequestAtomic h t.env id t.token by_ s.db with
  | (.committed x, db) => (.done, { s with db := db, members := upsert Membership.token x s.members })
  | (_, db) => (.refused, { s with db := db })

def revokeMember (token : String) : ResidenceAnswer × Residence :=
  if !(s.members.any fun x => x.token = token) then (.member none, s)
  else if t.refuses .write then (.failed, s)
  else
    let davets := s.invites.filter fun i => i.member = token
    (.member (some token), { s with
      db := revokeMemberCascade h token t.now s.db
      invites := House.removeDavets davets s.invites
      sessions := House.dropMember token (davets.foldl (fun ss inv => House.dropSeat inv ss) s.sessions)
      members := deleteWhere (fun x => x.token = token) s.members })

def suspend (token reason : String) : ResidenceAnswer × Residence :=
  if t.refuses .write then (.failed, s)
  else match suspendMember h token reason t.now s.db with
    | none => (.member none, s)
    | some db => (.member (some token), { s with
        db := db
        invites := House.removeDavets (s.invites.filter fun i => i.member = token) s.invites
        sessions := House.dropMember token s.sessions })

def resume (token : String) : ResidenceAnswer × Residence :=
  if t.fails .write then (.failed, s)
  else match resumeMember h token s.db with
    | none => (.member none, s)
    | some db => (.member (some token), { s with db := db })

def setMemberSuspended (reference : String) (suspended : Bool) (reason : String) :
    ResidenceAnswer × Residence :=
  match s.members.find? fun x => House.managementId h x.token = reference with
  | none => (.member none, s)
  | some x => if suspended then suspend h t s x.token reason else resume h t s x.token

def inviteMemberToRoom (member room by_ : String) : ResidenceAnswer × Residence :=
  if t.barred || suspended t s member then (.refused, s)
  else match s.members.find? fun x => x.token = member with
    | none => (.refused, s)
    | some x =>
      let inv : Invite := ⟨t.token, room, x.token, x.name, x.kind, t.now, by_⟩
      if s.invites.any fun i => i.room = room && i.member = x.token then (.refused, s)
      else if locaKapasite ≤ s.invites.countP fun i => i.room = room then (.refused, s)
      else if t.fails .write then (.failed, s)
      else match insertInvite inv s.db with
        | none => (.failed, s)
        | some db => (.davet inv, { s with db := db, invites := upsert Invite.token inv s.invites })

def revokeInvite (token : String) : ResidenceAnswer × Residence :=
  match s.invites.find? fun i => i.token = token with
  | none => (.said false, s)
  | some inv =>
    if t.fails .write then (.failed, s)
    else (.said true, { s with
      db := revokeDavets (fun i => i.token = token) t.now s.db
      invites := House.removeDavets [inv] s.invites
      sessions := House.dropSeat inv s.sessions })

def revokeInvitesFor (room name : String) : ResidenceAnswer × Residence :=
  let davets := s.invites.filter fun i => i.room = room && i.name = name
  if davets.isEmpty then (.done, s)
  else if t.fails .write then (.failed, s)
  else (.done, { s with
    db := revokeDavets (fun i => i.room = room && i.name = name) t.now s.db
    invites := House.removeDavets davets s.invites
    sessions := davets.foldl (fun ss inv => House.dropSeat inv ss) s.sessions })

/-! ## Device keys and smasters -/

def deviceRow (h : Digests) (principal label secret : String) (now : Nat) : CredentialRow :=
  ⟨h.hashedId "cr_" ("credential:" ++ secret), principal, label, h.secretHash secret, now, none, none, none⟩

def createCredential (principal label : String) : ResidenceAnswer × Residence :=
  let row := deviceRow h principal label t.token t.now
  if t.refuses .write || s.db.credentials.any row.clashes ||
      !(s.db.principals.any fun p => p.id = principal) then (.failed, s)
  else (.done, { s with db := { s.db with credentials := s.db.credentials ++ [row] } })

/-- A credential that is not the root key's, and not revoked yet. -/
def revocable (principal id : String) (db : Registry) : Option CredentialRow :=
  (db.credentials.find? fun c => c.id = id && c.principalId = principal).filter fun c =>
    !c.isRoot && c.revokedAt.isNone

/-- The smaster whose key this credential is. -/
def smasterOf (c : CredentialRow) (tokens : List String) : Option String :=
  tokens.find? fun token => c.legacySource = some (identityText .smaster (h.secretHash token))

def revokeCredential (principal id : String) : ResidenceAnswer × Residence :=
  if t.refuses .write then (.failed, s)
  else match revocable principal id s.db with
    | none => (.refused, s)
    | some c =>
      let live := smasterOf h c ((s.db.smasters.filter fun r => r.revokedAt.isNone).map SmasterRow.token)
      let legacy := if t.fails .legacySource then none else smasterOf h c (s.db.smasters.map SmasterRow.token)
      let db := revokeSessions (fun r => r.credentialId = id) t.now { s.db with
        credentials := updateWhere (fun c => c.id = id && c.principalId = principal && c.revokedAt.isNone)
          (fun c => { c with revokedAt := some t.now }) s.db.credentials
        smasters := updateWhere (fun r => live = some r.token && r.revokedAt.isNone)
          (fun r => { r with revokedAt := some t.now }) s.db.smasters }
      (.done, { s with
        db := db
        sessions := deleteWhere (fun e => !t.fails .sessionUses &&
          db.sessions.any fun r => r.id = h.secretHash e.1 && r.credentialId = id) s.sessions
        smasters := deleteWhere (fun e => legacy = some e.1) s.smasters })

def addSmaster (name : String) : ResidenceAnswer × Residence :=
  if t.refuses .write then (.failed, s)
  else (.done, { s with
    db := insertPrincipalCredential h .smaster t.token name "user" t.now "Smaster access"
      { s.db with smasters := upsert SmasterRow.token ⟨t.token, name, t.now, none⟩ s.db.smasters }
    smasters := upsert Prod.fst (t.token, name) s.smasters })

def revokeSmaster (token : String) : ResidenceAnswer × Residence :=
  if !(s.smasters.any fun e => e.1 = token) then (.said false, s)
  else if t.refuses .write then (.failed, s)
  else (.said true, { s with
    db := revokePrincipalCredential h token t.now { s.db with
      smasters := updateWhere (fun r => r.token = token && r.revokedAt.isNone)
        (fun r => { r with revokedAt := some t.now }) s.db.smasters }
    smasters := deleteWhere (fun e => e.1 = token) s.smasters })

/-! ## A start -/

/-- The principal and the credential of a row that has none yet; a revoked row's are revoked. -/
def migrateRow (role : BuildingRole) (token name kind label : String) (at_ : Nat) (revokedAt : Option Nat)
    (db : Registry) : Registry :=
  let p := { principalRow h role token name kind at_ with disabledAt := revokedAt }
  let c := { credentialRow h role token at_ label with revokedAt := revokedAt }
  { db with
    principals := insertUnless (fun x => x.id = p.id) p db.principals
    credentials := insertUnless c.clashes c db.credentials }

def migrateLegacyPrincipals (db : Registry) : Registry :=
  let db := db.members.foldl (fun db r => migrateRow h .member r.membership.token r.membership.name
    r.membership.kind "Legacy member access" r.membership.joinedAt r.revokedAt db) db
  db.smasters.foldl (fun db r => migrateRow h .smaster r.token r.name "user" "Legacy Smaster access"
    r.issuedAt r.revokedAt db) db

def rootRow (principal : String) (now : Nat) : CredentialRow :=
  ⟨h.hashedId "cr_" (identityText .master k.adminToken), principal, "Root recovery",
    h.secretHash k.adminToken, now, none, none, some ("admin:" ++ h.secretHash k.adminToken)⟩

/-- A recovery credential of another key. -/
def formerRoot (principal : String) (c : CredentialRow) : Bool :=
  c.principalId = principal && c.isRoot && c.secretHash ≠ h.secretHash k.adminToken

/-- `none`: the server does not start. -/
def ensureMasterPrincipal (now : Nat) (db : Registry) : Option Registry :=
  if k.adminToken = "" then some db
  else
    let id := ((activeMasterPrincipal db).map PrincipalRow.id).getD
      (h.hashedId "pr_" (identityText .master k.adminToken))
    let root := rootRow k h id now
    let credentials := updateWhere (formerRoot k h id) (fun c => { c with revokedAt := c.revokedAt.or (some now) })
      db.credentials
    let db := revokeSessions
      (fun r => db.credentials.any fun c => c.id = r.credentialId && formerRoot k h id c) now
      { db with
        principals := insertIgnore PrincipalRow.id ⟨id, k.masterName, "human", .master, now, none⟩ db.principals }
    if hasKey CredentialRow.id root.id credentials then
      some { db with
        credentials := updateWhere (fun c => c.id = root.id) (fun c => { c with revokedAt := none }) credentials }
    else if credentials.any root.clashes then none
    else some { db with credentials := credentials ++ [root] }

/-- The session that a stored admin session comes back as. -/
def restored (a : String × Nat) (p : PrincipalRow) : String × SessionIdentity :=
  (a.1, ⟨some p.id, p.buildingRole, p.displayName, parseSenderType p.kind, none, none, true, a.2⟩)

/-- The principal of a stored admin session, when it has rank still. -/
def restorable (now : Nat) (db : Registry) (a : String × Nat) : Option PrincipalRow :=
  (principalForSession h a.1 now db).filter fun p => p.buildingRole ≠ .member

/-- A start on the store: the identities are brought up to date, the maps read, the admin sessions
restored.  A start that is refused is no start. -/
def restart (stale : Invite → Bool) : Residence :=
  match if t.refuses .boot then none else ensureMasterPrincipal k h t.now (migrateLegacyPrincipals h s.db) with
  | none => s
  | some db =>
    let invites := if t.fails .invites then [] else loadInvites db
    let gone := invites.filter stale
    let admins := if t.fails .admins then [] else s.admins.filter fun a => t.now < a.2
    let kept := admins.filter fun a => (restorable h t.now db a).isSome
    { db := revokeDavets (fun i => gone.any fun d => d.token = i.token) t.now
        (revokeSessions (fun r => admins.any fun a => (restorable h t.now db a).isNone && r.id = h.secretHash a.1)
          t.now db)
      admins := if t.fails .admins then s.admins else kept
      members := if t.fails .members then [] else loadMembers db
      invites := House.removeDavets gone invites
      sessions := kept.filterMap fun a => (restorable h t.now db a).map (restored a)
      smasters := if t.fails .smasters then []
        else (db.smasters.filter fun r => r.revokedAt.isNone).map fun r => (r.token, r.name)
      minted := s.minted }

end Residence

open Residence

inductive ResidenceInput
  | admitMember (name kind by_ : String)
  | approveJoinRequest (id by_ : String)
  | revokeMember (token : String)
  | setMemberSuspended (reference : String) (suspended : Bool) (reason : String)
  | inviteMemberToRoom (member room by_ : String)
  | revokeInvite (token : String)
  | revokeInvitesFor (room name : String)
  | createSession (paired : Option Nat) (admin davet : Option String) (name : String) (kind : Option SenderType)
  | lookUp (st : String)
  | revokeSession (st : String)
  | createCredential (principal label : String)
  | revokeCredential (principal id : String)
  | addSmaster (name : String)
  | revokeSmaster (token : String)
  | desk (i : DeskInput)
  | restart (stale : Invite → Bool)

def Residence.step (k : Locks) (h : Digests) (t : Occasion) (s : Residence) : ResidenceInput → ResidenceAnswer × Residence
  | .admitMember name kind by_ => s.admitMember h t name kind by_
  | .approveJoinRequest id by_ => s.approveJoinRequest h t id by_
  | .revokeMember token => s.revokeMember h t token
  | .setMemberSuspended reference suspended reason => s.setMemberSuspended h t reference suspended reason
  | .inviteMemberToRoom member room by_ => s.inviteMemberToRoom t member room by_
  | .revokeInvite token => s.revokeInvite t token
  | .revokeInvitesFor room name => s.revokeInvitesFor t room name
  | .createSession paired admin davet name kind => s.createSession k h t paired admin davet name kind
  | .lookUp st => s.lookUp h t st
  | .revokeSession st => s.revokeSession h t st
  | .createCredential principal label => s.createCredential h t principal label
  | .revokeCredential principal id => s.revokeCredential h t principal id
  | .addSmaster name => s.addSmaster h t name
  | .revokeSmaster token => s.revokeSmaster h t token
  | .desk i =>
      if i.routine then (.done, { s with db := (Desk.step h ⟨s.db, []⟩ i).2.db }) else (.refused, s)
  | .restart stale => (.done, s.restart k h t stale)

/-- A store as a start has read it, with no admin session. -/
def Residence.load (db : Registry) : Residence :=
  ⟨db, [], loadMembers db, loadInvites db, [],
    (db.smasters.filter fun r => r.revokedAt.isNone).map fun r => (r.token, r.name), []⟩

def residence (k : Locks) (h : Digests) (good : Registry → Prop) :
    Sys.Machine Residence (Occasion × ResidenceInput) ResidenceAnswer where
  init s := good s.db ∧ s = Residence.load s.db
  step s i := s.step k h i.1 i.2

end Loca.Building
