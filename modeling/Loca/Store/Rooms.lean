/-
# `Loca.Store.Rooms` — room rows, seals, bans and davets

`save_room`, `seal_room` and the guards of `store/rooms.rs`, with the ban and invite
statements of `store/identity.rs` and the operator appointments of `store/operators.rs`.

A write is a transaction, `Db → Except StoreError Db`.  `commit` runs it: a server without
a database has nothing to write and reads an empty one, a failed statement or commit
leaves the database as it was.
-/
import Loca.Base.Check
import Loca.Store.Care

namespace Loca

open Check Table

inductive StoreError
  /-- `room is permanently sealed`. -/
  | roomSealed
  /-- A primary key or a unique index stands in the way. -/
  | constraint
  /-- A statement that had to change a row changed none. -/
  | changedRows
  /-- The database could not be read or written. -/
  | failed
  deriving DecidableEq, Repr

/-- Run a write transaction. -/
def commit (persistent fault : Bool) (tx : Db → Except StoreError Db) (db : Db) :
    Except StoreError Db :=
  if persistent then if fault then .error .failed else tx db else .ok db

/-- Either the transaction went through, or there was no database to write. -/
theorem commit_ok {persistent fault : Bool} {tx : Db → Except StoreError Db} {db db' : Db} :
    commit persistent fault tx db = .ok db' ↔
      (persistent = true ∧ fault = false ∧ tx db = .ok db') ∨ (persistent = false ∧ db' = db) := by
  cases persistent <;> cases fault <;> simp [commit, eq_comm]

/-! ## The room row -/

def isSealed (room : String) (db : Db) : Bool :=
  db.rooms.any fun r => r.room = room && r.sealedAt.isSome

def requireUnsealedRoom (room : String) (db : Db) : Except StoreError Unit :=
  require (isSealed room db = false) .roomSealed

/-- The guarded upsert; a sealed row is not written and the call fails. -/
def writeRoomState (room : String) (mode : ChatMode) (settings : RoomSettings) (db : Db) :
    Except StoreError Db := do
  requireUnsealedRoom room db
  pure { db with
    rooms := insertOrUpdate RoomRow.room ⟨room, mode, settings, none⟩
      (fun r => { r with mode := mode, settings := settings }) db.rooms }

/-- `clock` is the store's own reading of the time. -/
def saveRoom (room : String) (mode : ChatMode) (settings : RoomSettings) (clock : Nat) (db : Db) :
    Except StoreError Db := do
  let db ← writeRoomState room mode settings db
  pure (if settings.archived then db.withCare (db.care.pauseRoomAttentions room clock) else db)

/-- The row the seal is written on when the room has none: `'{}'` reads as the defaults. -/
def blankRoomRow (room : String) : RoomRow := ⟨room, .free, RoomSettings.default, none⟩

def sealRoom (room : String) (now : Nat) (db : Db) : Db :=
  let db := { db with
    rooms := updateWhere (fun r => r.room = room) (fun r => { r with sealedAt := some now })
      (insertIgnore RoomRow.room (blankRoomRow room) db.rooms) }
  db.withCare (db.care.retireRoomAttentions room now)

def sealedRooms (db : Db) : List String :=
  (db.rooms.filter fun r => r.sealedAt.isSome).map RoomRow.room

/-! ## Bans and davets -/

def setBan (room name kind : String) (now : Nat) (db : Db) : Db :=
  { db with bans := upsert (fun r => (r.room, r.name, r.kind)) ⟨room, name, kind, now⟩ db.bans }

def clearBan (room name kind : String) (db : Db) : Db :=
  { db with bans := deleteWhere (fun r => r.room = room && r.name = name && r.kind = kind) db.bans }

/-- A suspended member's davet is refused as well; suspensions are not modelled, and a
failed call stands for one. -/
def insertInvite (inv : Invite) (db : Db) : Except StoreError Db := do
  requireUnsealedRoom inv.room db
  pure { db with invites := upsert (fun r => r.invite.token) ⟨inv, none⟩ db.invites }

def revokeInvite (token : String) (now : Nat) (db : Db) : Db :=
  { db with
    invites := updateWhere (fun r => r.invite.token = token && r.revokedAt.isNone)
      (fun r => { r with revokedAt := some now }) db.invites }

def revokeInvitesFor (room name : String) (now : Nat) (db : Db) : Db :=
  { db with
    invites := updateWhere
      (fun r => r.invite.room = room && r.invite.name = name && r.revokedAt.isNone)
      (fun r => { r with revokedAt := some now }) db.invites }

def loadInvites (db : Db) : List Invite :=
  (db.invites.filter fun r => r.revokedAt.isNone).map InviteRow.invite

def loadMembers (db : Db) : List Membership :=
  (db.members.filter fun r => r.revokedAt.isNone).map MemberRow.membership

/-- The digests that stand for secrets: `secret_hash` and `hashed_id`. -/
structure Digests where
  secretHash : String → String
  hashedId : String → String → String

/-- Register a member's token as a principal with one credential.  A credential is stored
under an id that the same token gives, like its source. -/
def insertPrincipalCredential (h : Digests) (m : Membership) (db : Db) : Db :=
  let principalId := h.hashedId "pr_" ("member:" ++ m.token)
  { db with
    principals := insertIgnore PrincipalRow.id
      ⟨principalId, m.name, if m.kind = "agent" then "agent" else "human", .member, m.joinedAt, none⟩
      db.principals
    credentials := insertIgnore CredentialRow.legacySource
      ⟨"member:" ++ h.secretHash m.token, principalId⟩ db.credentials }

def addMember (h : Digests) (m : Membership) (db : Db) : Db :=
  insertPrincipalCredential h m
    { db with members := upsert (fun r => r.membership.token) ⟨m, none⟩ db.members }

/-- A membership ends, with its davets and the principal its token stands for. -/
def revokeMemberCascade (h : Digests) (token : String) (now : Nat) (db : Db) : Db :=
  let source := "member:" ++ h.secretHash token
  { db with
    members := updateWhere (fun r => r.membership.token = token && r.revokedAt.isNone)
      (fun r => { r with revokedAt := some now }) db.members
    invites := updateWhere (fun r => r.invite.member = token && r.revokedAt.isNone)
      (fun r => { r with revokedAt := some now }) db.invites
    principals := updateWhere
      (fun p => p.disabledAt.isNone &&
        db.credentials.any fun c => c.legacySource = source && c.principalId = p.id)
      (fun p => { p with disabledAt := some now }) db.principals }

def principalIdForMemberRecord (h : Digests) (token : String) (db : Db) : Option String :=
  (db.credentials.find? fun c => c.legacySource = "member:" ++ h.secretHash token).map
    CredentialRow.principalId

/-! ## Operator appointments -/

inductive LocaOperatorError
  | principalNotFound | appointerNotFound | principalMustBeHuman | appointerNotAuthorized
  | emptySeatRequired | notFound | conflict | storage
  deriving DecidableEq, Repr

def activePrincipal (id : String) (db : Db) : Option PrincipalRow :=
  db.principals.find? fun p => p.id = id && p.disabledAt.isNone

def activeMasterPrincipal (db : Db) : Option PrincipalRow :=
  db.principals.find? fun p => p.buildingRole = .master && p.disabledAt.isNone

/-- The Building has one logical Master; an empty root credential makes none. -/
def ensureMasterPrincipal (h : Digests) (root name : String) (now : Nat) (db : Db) : Db :=
  if root = "" then db
  else
    let principalId := ((activeMasterPrincipal db).map PrincipalRow.id).getD
      (h.hashedId "pr_" ("master:" ++ root))
    { db with
      principals := insertIgnore PrincipalRow.id
        ⟨principalId, name, "human", .master, now, none⟩ db.principals
      credentials := insertIgnore CredentialRow.legacySource
        ⟨"admin:" ++ h.secretHash root, principalId⟩ db.credentials }

def activeHumanPrincipalsNamed (name : String) (db : Db) : List PrincipalRow :=
  orderBy PrincipalRow.id
    (db.principals.filter fun p => p.displayName = name && p.kind = "human" && p.disabledAt.isNone)

/-- The room's appointment in force; the query joins the principal's row. -/
def locaOperator (room : String) (db : Db) : Option OperatorRow :=
  db.operators.find? fun a => a.room = room && a.revokedAt.isNone &&
    db.principals.any fun p => p.id = a.principalId

def validateTarget (id : String) (db : Db) : Except LocaOperatorError Unit := do
  let p ← found (activePrincipal id db) .principalNotFound
  require (p.kind = "human") .principalMustBeHuman

def validateAppointer (id : String) (db : Db) : Except LocaOperatorError BuildingRole := do
  let p ← found (activePrincipal id db) .appointerNotFound
  require (p.buildingRole ≠ .member) .appointerNotAuthorized
  pure p.buildingRole

/-- Refused while the room has an appointment in force (`room_operator_one_active`). -/
def insertAssignment (room principal appointer : String) (role : BuildingRole) (now : Nat)
    (db : Db) : Except LocaOperatorError Db := do
  require (∀ a ∈ db.operators, a.room = room → a.revokedAt.isSome) .storage
  pure { db with
    operators := db.operators ++
      [⟨db.operatorSeq + 1, room, principal, appointer, role, now, none⟩]
    operatorSeq := db.operatorSeq + 1 }

def createRoomWithOperator (room : String) (settings : RoomSettings) (founder : String) (now : Nat)
    (db : Db) : Except LocaOperatorError Db := do
  validateTarget founder db
  let role ← validateAppointer founder db
  require (hasKey RoomRow.room room db.rooms = false ∧ locaOperator room db = none) .conflict
  let db ← (writeRoomState room .free settings db).mapError fun _ => .storage
  insertAssignment room founder founder role now db

def appointLocaOperator (room principal appointer : String) (now : Nat) (db : Db) :
    Except LocaOperatorError Db := do
  validateTarget principal db
  let role ← validateAppointer appointer db
  match locaOperator room db with
  | none => insertAssignment room principal appointer role now db
  | some current =>
    if current.principalId = principal then pure db
    else do
      require (role ≠ .smaster) .emptySeatRequired
      insertAssignment room principal appointer role now { db with
        operators := updateWhere (fun a => a.room = room && a.revokedAt.isNone)
          (fun a => { a with revokedAt := some now }) db.operators }

/-- Revoke the appointment in force if it is for the principal the caller expects; the ended
appointment, and the database. -/
def revokeLocaOperator (room expected : String) (now : Nat) (db : Db) :
    Except LocaOperatorError (OperatorRow × Db) := do
  let assignment ← found (locaOperator room db) .notFound
  require (assignment.principalId = expected) .conflict
  let inForce := fun a : OperatorRow => a.room = room && a.principalId = expected && a.revokedAt.isNone
  require ((db.operators.filter inForce).length = 1) .conflict
  pure ({ assignment with revokedAt := some now },
    { db with operators := updateWhere inForce (fun a => { a with revokedAt := some now }) db.operators })

end Loca
