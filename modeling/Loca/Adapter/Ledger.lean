/-
# `Loca.Adapter.Ledger` — the adapter's ledger and its leases

The tables of `attention_store.py`, and the lease that fences the adapters of one identity.
A call is one `BEGIN IMMEDIATE` transaction: it returns a value and the new tables, or raises
and leaves them (`Check.atomically`, which also covers a crash before the commit).

Times and epochs are Python integers.  `event_json` is kept as the event itself.
-/
import Loca.Base.Check
import Loca.Base.Json
import Loca.Base.Table

namespace Loca.Adapter

open Check Table

/-! ## Rows -/

inductive TerminalStatus | failed | interrupted | cancelled | expired
  deriving DecidableEq, Repr

inductive DispatchOperation | start | steer
  deriving DecidableEq, Repr

inductive DispatchStatus | prepared | accepted | reconciled | failed
  deriving DecidableEq, Repr

structure Source where
  sourceId : String
  path : String
  offset : Nat
  updatedAtMs : Int
  deriving DecidableEq, Repr

structure Watermark where
  server : String
  room : String
  lastId : Int
  observedAtMs : Int
  deriving DecidableEq, Repr

structure Bundle where
  bundleId : String
  identity : String
  priority : String
  createdAtMs : Int
  deriving DecidableEq, Repr

structure BundleLink where
  bundleId : String
  attentionId : String
  position : Nat
  deriving DecidableEq, Repr

structure Attention where
  attentionId : String
  deliveryId : String
  sourceId : String
  sourceOffset : Nat
  server : String
  room : String
  identity : String
  priority : String
  priorityRank : Nat
  replyRequired : Bool
  contextFromId : Option Int
  contextToId : Option Int
  event : List (String × Json)
  bundleId : String
  storedAtMs : Int
  acceptedAtMs : Option Int := none
  firstResponseAtMs : Option Int := none
  finalResponseAtMs : Option Int := none
  turnCompletedAtMs : Option Int := none
  terminalStatus : Option TerminalStatus := none
  terminalReason : Option String := none
  turnId : Option String := none
  leaseEpoch : Option Int := none
  attempts : Nat := 0
  nextAttemptAtMs : Int := 0

structure Lease where
  identity : String
  leaseOwner : String
  leaseEpoch : Int
  leaseExpiresAtMs : Int
  updatedAtMs : Int
  deriving DecidableEq, Repr

structure Thread where
  server : String
  room : String
  identity : String
  threadId : String
  leaseEpoch : Int
  createdAtMs : Int
  updatedAtMs : Int
  deriving DecidableEq, Repr

structure Turn where
  turnId : String
  identity : String
  server : String
  room : String
  threadId : String
  leaseEpoch : Int
  startedAtMs : Int
  completedAtMs : Option Int := none
  terminalStatus : Option TerminalStatus := none
  terminalReason : Option String := none
  deriving DecidableEq, Repr

structure TurnLink where
  turnId : String
  attentionId : String
  position : Nat
  deriving DecidableEq, Repr

structure DispatchIntent where
  attentionId : String
  identity : String
  server : String
  room : String
  threadId : String
  operation : DispatchOperation
  clientMessageId : String
  status : DispatchStatus
  turnId : Option String
  preparedAtMs : Int
  resolvedAtMs : Option Int
  lastError : Option String
  leaseEpoch : Int
  deriving DecidableEq, Repr

structure RelayItem where
  opId : String
  identity : String
  room : String
  target : String
  turnId : String
  itemId : String
  phase : Option String
  text : String
  coveredAttentionIds : List String
  relayKind : String
  status : String
  attempts : Nat := 0
  lastError : Option String := none
  nextAttemptAtMs : Int := 0
  createdAtMs : Int
  acceptedAtMs : Option Int := none
  leaseEpoch : Int
  deriving DecidableEq, Repr

structure Ledger where
  sources : List Source := []
  watermarks : List Watermark := []
  bundles : List Bundle := []
  attentions : List Attention := []
  bundleLinks : List BundleLink := []
  leases : List Lease := []
  threads : List Thread := []
  turns : List Turn := []
  turnLinks : List TurnLink := []
  intents : List DispatchIntent := []
  relays : List RelayItem := []

/-- What a call can raise. -/
inductive Fault
  | leaseBusy (identity owner : String) (expires : Int)
  | staleLease (identity owner : String) (epoch : Int)
  | value (text : String)
  /-- An exception of Python's own, by its class. -/
  | raised (kind : String)
  /-- A uniqueness constraint of SQLite. -/
  | integrity
  /-- Anything outside the program: SQLite, the disk, or the process itself. -/
  | crashed
  deriving DecidableEq, Repr

/-- A call inside its transaction. -/
abbrev Call (α : Type) := Ledger → Except Fault (α × Ledger)

/-! ## Leases -/

/-- What `os.kill(pid, 0)` finds. -/
inductive Probe | running | notFound | forbidden
  deriving DecidableEq, Repr

/-- The processes of the machine: `int` of a string, and the probe of a process. -/
structure Processes where
  toInt : String → Option Int
  probe : Int → Probe

/-- False only when a local owner that names its process is provably dead. -/
def leaseOwnerProcessAlive (p : Processes) (owner : String) : Bool :=
  match p.toInt (String.ofList (owner.toList.takeWhile fun c => c ≠ '-')) with
  | none => true
  | some pid => p.probe pid ≠ .notFound

namespace Ledger

def lease? (identity : String) (l : Ledger) : Option Lease :=
  l.leases.find? fun r => r.identity = identity

def attention? (id : String) (l : Ledger) : Option Attention :=
  l.attentions.find? fun r => r.attentionId = id

def turn? (id : String) (l : Ledger) : Option Turn :=
  l.turns.find? fun r => r.turnId = id

def intent? (id : String) (l : Ledger) : Option DispatchIntent :=
  l.intents.find? fun r => r.attentionId = id

def relay? (opId : String) (l : Ledger) : Option RelayItem :=
  l.relays.find? fun r => r.opId = opId

/-- Is this the current, unexpired lease of the identity? -/
def holds (identity owner : String) (epoch now : Int) (l : Ledger) : Bool :=
  (l.lease? identity).any fun r =>
    r.leaseOwner = owner && r.leaseEpoch = epoch && now < r.leaseExpiresAtMs

/-- `_assert_fence`. -/
def assertFence (identity owner : String) (epoch now : Int) (l : Ledger) : Except Fault Unit :=
  require (l.holds identity owner epoch now = true) (.staleLease identity owner epoch)

def setLease (row : Lease) (l : Ledger) : Ledger :=
  { l with leases := updateWhere (fun r => r.identity = row.identity) (fun _ => row) l.leases }

def updateAttentions (p : Attention → Bool) (f : Attention → Attention) (l : Ledger) : Ledger :=
  { l with attentions := updateWhere p f l.attentions }

def updateTurns (p : Turn → Bool) (f : Turn → Turn) (l : Ledger) : Ledger :=
  { l with turns := updateWhere p f l.turns }

def updateRelays (p : RelayItem → Bool) (f : RelayItem → RelayItem) (l : Ledger) : Ledger :=
  { l with relays := updateWhere p f l.relays }

end Ledger

def claimLease (p : Processes) (identity owner : String) (ttl now : Int) : Call Int := fun l =>
  match l.lease? identity with
  | none => .ok (1, { l with leases := l.leases ++ [⟨identity, owner, 1, now + ttl, now⟩] })
  | some row =>
    if row.leaseOwner = owner then
      .ok (row.leaseEpoch, l.setLease ⟨identity, owner, row.leaseEpoch, now + ttl, now⟩)
    else if row.leaseExpiresAtMs ≤ now ∨ leaseOwnerProcessAlive p row.leaseOwner = false then
      .ok (row.leaseEpoch + 1, l.setLease ⟨identity, owner, row.leaseEpoch + 1, now + ttl, now⟩)
    else .error (.leaseBusy identity row.leaseOwner row.leaseExpiresAtMs)

/-- Move the end of the lease that this owner and epoch name. -/
def Ledger.expireAt (identity owner : String) (epoch expires now : Int) (l : Ledger) : Ledger :=
  { l with
    leases := updateWhere
      (fun r => r.identity = identity && r.leaseOwner = owner && r.leaseEpoch = epoch)
      (fun r => { r with leaseExpiresAtMs := expires, updatedAtMs := now }) l.leases }

def renewLease (identity owner : String) (epoch ttl now : Int) : Call Unit := fun l => do
  l.assertFence identity owner epoch now
  pure ((), l.expireAt identity owner epoch (now + ttl) now)

/-- Releasing is not fenced: it names the lease it ends. -/
def releaseLease (identity owner : String) (epoch now : Int) : Call Unit := fun l =>
  .ok ((), l.expireAt identity owner epoch now now)

end Loca.Adapter
