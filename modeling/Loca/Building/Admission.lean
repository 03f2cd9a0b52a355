/-
# `Loca.Building.Admission` — rights, join requests and the one-time delivery of `mb_`

The admission desk of `store.rs` with its callers in `hub.rs`: a Master mints single-use rights
(`mint_admission_rights`), an outsider files a request and names itself (`create_join_request`),
the approval consumes one right and creates the member in one transaction
(`approve_join_request_atomic`), and the issued `mb_` is handed out until the requester
acknowledges it (`claim_join_request_bootstrap`, `ack_join_request_bootstrap`).

The name check of an approval asks whether the query *found* a live member.  A query that failed
found none either, so the approval goes on as if the name were free.
-/
import Mathlib.Data.Prod.Lex
import Mathlib.Data.String.Basic
import Loca.Building.Registry

namespace Loca.Building

open Check Table

/-! ## The calls -/

/-- The statements of the desk, as far as one of them failing is told apart. -/
inductive Stmt
  | mint | countTotal | countAvailable
  | create | view
  | begin | claim | readRequest | checkName | readStock | consume | insertMember
  | insertPrincipal | insertCredential | finish | commit
  | deny
  | readToken | stamp
  | readAck | writeAck
  deriving DecidableEq, Repr

structure StoreEnv where
  now : Nat
  fails : Stmt → Bool

/-- All the rights of a batch or none. -/
def mintAdmissionRights (env : StoreEnv) (ids : List String) (mintedBy : String) (expiresAt : Nat)
    (db : Registry) : Option (Nat × Registry) := do
  guard (env.fails .mint = false)
  let stock ← ids.foldlM (fun t id => do
    guard (Storable env.now ∧ Storable expiresAt)
    insertNew AdmissionRow.id ⟨id, mintedBy, env.now, expiresAt, none, none⟩ t) db.admissionStock
  pure (ids.length, { db with admissionStock := stock })

/-- Unconsumed and unexpired. -/
def AdmissionRow.available (now : Nat) (r : AdmissionRow) : Bool :=
  r.consumedAt.isNone && now < r.expiresAt

def admissionStockCounts (env : StoreEnv) (db : Registry) : Nat × Nat :=
  (if env.fails .countTotal then 0 else db.admissionStock.length,
    if env.fails .countAvailable ∨ ¬Storable env.now then 0
    else db.admissionStock.countP (AdmissionRow.available env.now))

/-- `u64::MAX`. -/
def u64Max : Nat := 2 ^ 64 - 1

def masterId (db : Registry) : String :=
  ((db.principals.find? fun p => p.buildingRole = .master && p.disabledAt.isNone).map
    PrincipalRow.id).getD "master"

/-- `ids` are the tokens drawn for the batch. -/
def mintAdmissionStock (env : StoreEnv) (ids : List String) (ttl : Nat) (db : Registry) :
    (Nat × Nat × Nat) × Registry :=
  match mintAdmissionRights env ids (masterId db) (min (env.now + ttl) u64Max) db with
  | none => ((0, admissionStockCounts env db), db)
  | some (minted, db) => ((minted, admissionStockCounts env db), db)

/-- The secret is kept as its digest only. -/
def filedRow (h : Digests) (id secret name kind : String) (now : Nat) : JoinRequestRow :=
  ⟨id, h.secretHash secret, name, kind, .pending, now, none, none, none, none, none⟩

def createJoinRequest (h : Digests) (env : StoreEnv) (id secret name kind : String) (db : Registry) :
    Option Registry := do
  guard (env.fails .create = false ∧ Storable env.now)
  let requests ← insertNew JoinRequestRow.id (filedRow h id secret name kind env.now) db.joinRequests
  pure { db with joinRequests := requests }

/-- Does this caller hold the request's secret? -/
def JoinRequestRow.heldBy (h : Digests) (id secret : String) (r : JoinRequestRow) : Bool :=
  r.id = id && r.secretHash = h.secretHash secret

/-- The status, the name, and whether the `mb_` can be fetched. -/
def joinRequestView (h : Digests) (env : StoreEnv) (id secret : String) (db : Registry) :
    Option (JoinStatus × String × Bool) := do
  guard (env.fails .view = false)
  let r ← db.joinRequests.find? (·.heldBy h id secret)
  pure (r.status, r.name, r.mbToken.isSome && r.bootstrapAckedAt.isNone)

inductive ApproveTxn
  | committed (member : Membership)
  | alreadyDecided
  | nameTaken
  | noStock
  | failed
  deriving DecidableEq, Repr

/-- The early exits of an approval. -/
inductive ApproveExit | alreadyDecided | nameTaken | noStock | failed
  deriving DecidableEq, Repr

def ApproveExit.txn : ApproveExit → ApproveTxn
  | .alreadyDecided => .alreadyDecided
  | .nameTaken => .nameTaken
  | .noStock => .noStock
  | .failed => .failed

def JoinRequestRow.isPending (id : String) (r : JoinRequestRow) : Bool :=
  r.id = id && r.status = .pending

def JoinRequestRow.isApproving (id : String) (r : JoinRequestRow) : Bool :=
  r.id = id && r.status = .approving

/-- Flip a pending request to `approving`, inside the transaction. -/
def claimRequest (env : StoreEnv) (id : String) (db : Registry) : Except ApproveExit Registry := do
  require (env.fails .claim = false) .failed
  require (db.joinRequests.any (·.isPending id)) .alreadyDecided
  pure { db with
    joinRequests := updateWhere (·.isPending id) (fun r => { r with status := .approving })
      db.joinRequests }

def readRequest (env : StoreEnv) (id : String) (db : Registry) : Except ApproveExit JoinRequestRow := do
  require (env.fails .readRequest = false) .failed
  found (db.joinRequests.find? fun r => r.id = id) .failed

def liveMember (name : String) (db : Registry) : Bool :=
  db.members.any fun r => r.membership.name = name && r.revokedAt.isNone

/-- A failed query counts as a free name. -/
def checkName (env : StoreEnv) (name : String) (db : Registry) : Except ApproveExit Unit :=
  require (¬(env.fails .checkName = false ∧ liveMember name db)) .nameTaken

/-- `ORDER BY created_at, id LIMIT 1`. -/
def oldestRight (now : Nat) (t : List AdmissionRow) : Option AdmissionRow :=
  (orderBy (fun r => toLex (r.createdAt, r.id)) (t.filter (AdmissionRow.available now))).head?

def AdmissionRow.isUnused (id : String) (r : AdmissionRow) : Bool :=
  r.id = id && r.consumedAt.isNone

def AdmissionRow.consume (now : Nat) (name : String) (r : AdmissionRow) : AdmissionRow :=
  { r with consumedAt := some now, consumedByName := some name }

def consumeRight (env : StoreEnv) (name : String) (db : Registry) : Except ApproveExit Registry := do
  require (env.fails .readStock = false ∧ Storable env.now) .noStock
  let right ← found (oldestRight env.now db.admissionStock) .noStock
  require (env.fails .consume = false ∧ db.admissionStock.any (·.isUnused right.id)) .noStock
  pure { db with
    admissionStock := updateWhere (·.isUnused right.id) (·.consume env.now name) db.admissionStock }

def enrolMember (h : Digests) (env : StoreEnv) (m : Membership) (db : Registry) :
    Except ApproveExit Registry := do
  require (env.fails .insertMember = false) .failed
  let members ← found (insertNew (fun r => r.membership.token) (⟨m, none⟩ : MemberRow) db.members) .failed
  require (env.fails .insertPrincipal = false ∧ env.fails .insertCredential = false) .failed
  pure (insertPrincipalCredential h .member m.token m.name m.kind env.now "Member access"
    { db with members := members })

def JoinRequestRow.approve (mb by_ : String) (now : Nat) (r : JoinRequestRow) : JoinRequestRow :=
  { r with status := .approved, mbToken := some mb, decidedBy := some by_, decidedAt := some now }

def finishRequest (env : StoreEnv) (id mb by_ : String) (db : Registry) :
    Except ApproveExit Registry := do
  require (env.fails .finish = false) .failed
  require (db.joinRequests.any (·.isApproving id)) .failed
  pure { db with
    joinRequests := updateWhere (·.isApproving id) (·.approve mb by_ env.now) db.joinRequests }

def approveTx (h : Digests) (env : StoreEnv) (id mb by_ : String) (db : Registry) :
    Except ApproveExit (Membership × Registry) := do
  require (env.fails .begin = false) .failed
  let db ← claimRequest env id db
  let request ← readRequest env id db
  checkName env request.name db
  let db ← consumeRight env request.name db
  let m : Membership := ⟨mb, request.name, request.kind, env.now, by_⟩
  let db ← enrolMember h env m db
  let db ← finishRequest env id mb by_ db
  require (env.fails .commit = false) .failed
  pure (m, db)

/-- Every early exit rolls back. -/
def approveJoinRequestAtomic (h : Digests) (env : StoreEnv) (id mb by_ : String) (db : Registry) :
    ApproveTxn × Registry :=
  match approveTx h env id mb by_ db with
  | .ok (m, db) => (.committed m, db)
  | .error e => (e.txn, db)

def denyJoinRequest (env : StoreEnv) (id by_ : String) (db : Registry) : Bool × Registry :=
  if env.fails .deny ∨ ¬Storable env.now then (false, db)
  else
    (db.joinRequests.any (·.isPending id), { db with
      joinRequests := updateWhere (·.isPending id)
        (fun r => { r with status := .denied, decidedBy := some by_, decidedAt := some env.now })
        db.joinRequests })

/-- Approved, held by the caller and not yet acknowledged. -/
def JoinRequestRow.deliverable (h : Digests) (id secret : String) (r : JoinRequestRow) : Bool :=
  r.heldBy h id secret && r.status = .approved && r.mbToken.isSome && r.bootstrapAckedAt.isNone

/-- The time of the first delivery; failing to write it delivers nonetheless. -/
def stampDelivery (env : StoreEnv) (id : String) (db : Registry) : Registry :=
  if env.fails .stamp ∨ ¬Storable env.now then db
  else { db with
    joinRequests := updateWhere (fun r => r.id = id && r.bootstrapDeliveredAt.isNone)
      (fun r => { r with bootstrapDeliveredAt := some env.now }) db.joinRequests }

def claimJoinRequestBootstrap (h : Digests) (env : StoreEnv) (id secret : String) (db : Registry) :
    Option String × Registry :=
  if env.fails .readToken then (none, db)
  else match (db.joinRequests.find? (·.deliverable h id secret)).bind JoinRequestRow.mbToken with
    | none => (none, db)
    | some mb => (some mb, stampDelivery env id db)

/-- The acknowledgement erases the request's copy of the `mb_`. -/
def JoinRequestRow.acknowledge (now : Nat) (r : JoinRequestRow) : JoinRequestRow :=
  { r with bootstrapAckedAt := some now, mbToken := none }

def JoinRequestRow.isUnacked (id : String) (r : JoinRequestRow) : Bool :=
  r.id = id && r.bootstrapAckedAt.isNone

def ackJoinRequestBootstrap (h : Digests) (env : StoreEnv) (id secret : String) (db : Registry) :
    Option Bool × Registry :=
  if env.fails .readAck then (none, db)
  else match db.joinRequests.find? fun r => r.heldBy h id secret && r.status = .approved with
    | none => (none, db)
    | some r =>
      if r.bootstrapAckedAt.isSome then (some false, db)
      else if env.fails .writeAck ∨ ¬Storable env.now then (none, db)
      else (some (db.joinRequests.any (·.isUnacked id)), { db with
        joinRequests := updateWhere (·.isUnacked id) (·.acknowledge env.now) db.joinRequests })

end Loca.Building
