/-
# `Loca.Adapter.Mutators` — the fenced calls of the ledger

Every call that moves attentions, turns, threads, intents or relays is made under a lease.
Where the caller does not name the identity, it is read from the row the call is about; a call
about a row that is not there has nobody's lease to check and either raises or returns without
doing anything, as each call chooses.
-/
import Mathlib.Algebra.Group.Int.Defs
import Loca.Adapter.Ledger

namespace Loca.Adapter

open Check Table

def deferMaxAttempts : Nat := 8
def deferMaxDelayMs : Int := 30000

def protectedPriorities : List String := ["security_control", "care_signal", "explicit_task"]

/-- Who calls, under which epoch, and when. -/
structure Fence where
  owner : String
  epoch : Int
  now : Int
  deriving DecidableEq, Repr

def Ledger.fenced (identity : String) (f : Fence) (l : Ledger) : Except Fault Unit :=
  l.assertFence identity f.owner f.epoch f.now

/-! ## Threads and dispatches -/

/-- `set_thread`; a thread id belongs to one place. -/
def setThread (identity server room threadId : String) (f : Fence) : Call Unit := fun l => do
  l.fenced identity f
  let here (t : Thread) : Bool := t.server = server && t.room = room && t.identity = identity
  require (l.threads.all (fun t => here t || t.threadId ≠ threadId) = true) .integrity
  pure ((), { l with
    threads := insertOrUpdate (fun t => (t.server, t.room, t.identity))
      ⟨server, room, identity, threadId, f.epoch, f.now, f.now⟩
      (fun t => { t with threadId := threadId, leaseEpoch := f.epoch, updatedAtMs := f.now })
      l.threads })

/-- `INSERT OR IGNORE INTO turn_attentions`, at the position the count gives. -/
def Ledger.linkTurn (turnId attentionId : String) (l : Ledger) : Ledger :=
  let position := (l.turnLinks.filter fun k => k.turnId = turnId).length
  let taken := l.turnLinks.any fun k =>
    k.turnId = turnId && (k.attentionId = attentionId || k.position = position)
  if taken then l else { l with turnLinks := l.turnLinks ++ [⟨turnId, attentionId, position⟩] }

/-- `_mark_accepted_in_transaction`. -/
def markAcceptedInTransaction (attentionId threadId turnId : String) (f : Fence) : Call Unit :=
  fun l => do
    let a ← found (l.attention? attentionId) (.value ("unknown attention " ++ attentionId))
    l.fenced a.identity f
    let l := { l with
      turns := insertIgnore Turn.turnId
        { turnId := turnId, identity := a.identity, server := a.server, room := a.room,
          threadId := threadId, leaseEpoch := f.epoch, startedAtMs := f.now } l.turns }
    let l := l.linkTurn turnId attentionId
    pure ((), l.updateAttentions (fun r => r.attentionId = attentionId) fun r =>
      { r with
        acceptedAtMs := some (r.acceptedAtMs.getD f.now), turnId := some turnId,
        leaseEpoch := some f.epoch, attempts := r.attempts + 1 })

def markAccepted (attentionId threadId turnId : String) (f : Fence) : Call Unit :=
  markAcceptedInTransaction attentionId threadId turnId f

def parseOperation (operation : String) : Option DispatchOperation :=
  if operation = "start" then some .start else if operation = "steer" then some .steer else none

/-- Record the intent before the RPC that cannot be repeated. -/
def prepareDispatch (attentionId threadId operation clientMessageId : String) (f : Fence) :
    Call Unit := fun l => do
  let op ← found (parseOperation operation) (.value ("invalid dispatch operation " ++ operation))
  let a ← found (l.attention? attentionId) (.value ("unknown attention " ++ attentionId))
  l.fenced a.identity f
  require (l.intents.all (fun i => i.attentionId = attentionId ||
    i.clientMessageId ≠ clientMessageId) = true) .integrity
  pure ((), { l with
    intents := insertOrUpdate DispatchIntent.attentionId
      ⟨attentionId, a.identity, a.server, a.room, threadId, op, clientMessageId, .prepared, none,
        f.now, none, none, f.epoch⟩
      (fun i => { i with
        threadId := threadId, operation := op, clientMessageId := clientMessageId,
        status := .prepared, turnId := none, preparedAtMs := f.now, resolvedAtMs := none,
        lastError := none, leaseEpoch := f.epoch }) l.intents })

def finalizeDispatch (attentionId threadId turnId : String) (reconciled : Bool) (f : Fence) :
    Call Unit := fun l => do
  let _ ← found (l.intent? attentionId) (.value ("missing dispatch intent for " ++ attentionId))
  let (_, l) ← markAcceptedInTransaction attentionId threadId turnId f l
  pure ((), { l with
    intents := updateWhere (fun i => i.attentionId = attentionId)
      (fun i => { i with
        status := if reconciled then .reconciled else .accepted, turnId := some turnId,
        resolvedAtMs := some f.now, lastError := none, leaseEpoch := f.epoch }) l.intents })

/-- A prepared intent that the history does not know: the attention is due again. -/
def retryUnobservedDispatch (attentionId reason : String) (f : Fence) : Call Unit := fun l =>
  match l.intent? attentionId with
  | none => .ok ((), l)
  | some i => do
    l.fenced i.identity f
    let l := { l with
      intents := updateWhere (fun i => i.attentionId = attentionId)
        (fun i => { i with
          status := .failed, resolvedAtMs := some f.now, lastError := some reason,
          leaseEpoch := f.epoch }) l.intents }
    pure ((), l.updateAttentions (fun r => r.attentionId = attentionId && r.acceptedAtMs.isNone &&
        r.terminalStatus.isNone) fun r =>
      { r with nextAttemptAtMs := f.now, terminalReason := some reason })

/-- Postpone an attention: at once, after a growing delay, or never again at the ceiling. -/
def Attention.deferred (reason : String) (delayMs : Int) (attempts : Nat) (now : Int)
    (r : Attention) : Attention :=
  let attempt := attempts + 1
  if delayMs ≤ 0 then { r with nextAttemptAtMs := now + delayMs, terminalReason := some reason }
  else if deferMaxAttempts ≤ attempt then
    { r with
      attempts := attempt, terminalStatus := some .failed,
      terminalReason := some (reason ++ "; gave up after " ++ toString attempt ++
        " pre-acceptance retries — attention marked degraded (check adapter/sandbox health)") }
  else
    { r with
      attempts := attempt,
      nextAttemptAtMs := now + min deferMaxDelayMs (delayMs * 2 ^ (attempt - 1)),
      terminalReason := some reason }

def deferAttention (attentionId reason : String) (delayMs : Int) (f : Fence) : Call Unit := fun l =>
  match l.attention? attentionId with
  | none => .ok ((), l)
  | some a => do
    l.fenced a.identity f
    pure ((), l.updateAttentions (fun r => r.attentionId = attentionId)
      (Attention.deferred reason delayMs a.attempts f.now))

/-! ## Turns -/

/-- A turn that is neither completed nor terminal. -/
def Turn.isOpen (t : Turn) : Bool := t.completedAtMs.isNone && t.terminalStatus.isNone

/-- Relays of a turn that have not gone out go nowhere. -/
def Ledger.suppressRelays (p : RelayItem → Bool) (reason : String) (l : Ledger) : Ledger :=
  l.updateRelays (fun r => p r && (r.status = "pending" || r.status = "held")) fun r =>
    { r with
      status := "suppressed", lastError := some (r.lastError.getD reason), nextAttemptAtMs := 0 }

/-- A turn seen again after a restart is taken over. -/
def adoptRecoveredTurn (turnId : String) (f : Fence) : Call Unit := fun l =>
  match l.turn? turnId with
  | none => .ok ((), l)
  | some t => do
    l.fenced t.identity f
    let l := l.updateTurns (fun t => t.turnId = turnId && t.isOpen) fun t =>
      { t with leaseEpoch := f.epoch }
    pure ((), l.updateAttentions (fun r => r.turnId = some turnId && r.turnCompletedAtMs.isNone &&
        r.terminalStatus.isNone) fun r => { r with leaseEpoch := some f.epoch })

/-- One abandoned turn; attentions that require a reply stay pending. -/
def Ledger.reapTurn (reason : String) (now : Int) (l : Ledger) (turnId : String) : Ledger :=
  let l := l.updateTurns (fun t => t.turnId = turnId) fun t =>
    { t with
      completedAtMs := some now, terminalStatus := some .interrupted,
      terminalReason := some reason }
  let l := l.updateAttentions (fun r => r.turnId = some turnId && r.terminalStatus.isNone &&
      !r.replyRequired) fun r =>
    { r with
      turnCompletedAtMs := some now, terminalStatus := some .interrupted,
      terminalReason := some reason }
  l.suppressRelays (fun r => r.turnId = turnId) reason

def reapStaleTurnsAfterRecovery (identity : String) (f : Fence) : Call Nat := fun l => do
  l.fenced identity f
  let stale := (l.turns.filter fun t => t.identity = identity && t.leaseEpoch < f.epoch &&
    t.isOpen).map Turn.turnId
  let reason := "turn absent after adapter recovery at lease epoch " ++ toString f.epoch
  pure (stale.length, stale.foldl (Ledger.reapTurn reason f.now) l)

/-- The attentions of a turn, in order. -/
def Ledger.linkedTo (turnId : String) (l : Ledger) : List String :=
  (orderBy TurnLink.position (l.turnLinks.filter fun k => k.turnId = turnId)).map TurnLink.attentionId

/-- Back to the pending lane, unless the final answer has been given. -/
def Attention.requeued (reason : String) (now : Int) (r : Attention) : Attention :=
  { r with
    acceptedAtMs := none, turnId := none, leaseEpoch := none, turnCompletedAtMs := none,
    terminalStatus := none, terminalReason := some reason, nextAttemptAtMs := now }

/-- Fail a turn without output and requeue its attentions with `back`. -/
def Ledger.requeueTurn (back : Attention → Attention) (reason : String) (now : Int)
    (acc : Nat × Ledger) (turnId : String) : Nat × Ledger :=
  let l := acc.2
  if l.relays.any fun r => r.turnId = turnId then acc
  else
    let ids := l.linkedTo turnId
    let hit (r : Attention) : Bool := ids.contains r.attentionId && r.finalResponseAtMs.isNone
    let l := l.updateTurns (fun t => t.turnId = turnId) fun t =>
      { t with
        completedAtMs := some now, terminalStatus := some .failed, terminalReason := some reason }
    let l := { l with turnLinks := deleteWhere (fun k => k.turnId = turnId) l.turnLinks }
    (acc.1 + (l.attentions.filter hit).length, l.updateAttentions hit back)

def requeueMissingThread (identity threadId reason : String) (f : Fence) : Call Nat := fun l => do
  l.fenced identity f
  let turns := (l.turns.filter fun t => t.identity = identity && t.threadId = threadId &&
    t.completedAtMs.isNone).map Turn.turnId
  let (requeued, l) := turns.foldl
    (Ledger.requeueTurn (Attention.requeued reason f.now) reason f.now) (0, l)
  pure (requeued, { l with
    threads := deleteWhere (fun t => t.identity = identity && t.threadId = threadId) l.threads })

/-- The first answer of a missing turn is forgotten too. -/
def requeueMissingTurn (identity threadId turnId reason : String) (f : Fence) : Call Nat := fun l => do
  l.fenced identity f
  if l.turns.any (fun t => t.identity = identity && t.threadId = threadId && t.turnId = turnId &&
      t.completedAtMs.isNone) then
    pure (Ledger.requeueTurn (fun r => { r.requeued reason f.now with firstResponseAtMs := none })
      reason f.now (0, l) turnId)
  else pure (0, l)

/-! ## Controls -/

/-- Cancel older chat of the room that is not protected, and settle the control itself. -/
def cancelPendingBeforeControl (controlId reason : String) (f : Fence) : Call Nat := fun l => do
  let c ← found (l.attention? controlId) (.value ("unknown attention " ++ controlId))
  l.fenced c.identity f
  let hit (r : Attention) : Bool := r.identity = c.identity && r.server = c.server &&
    r.room = c.room && r.acceptedAtMs.isNone && r.terminalStatus.isNone &&
    r.sourceOffset < c.sourceOffset && r.attentionId ≠ controlId &&
    !protectedPriorities.contains r.priority
  let cancelled := l.updateAttentions hit fun r =>
    { r with terminalStatus := some .cancelled, terminalReason := some reason }
  pure ((l.attentions.filter hit).length,
    cancelled.updateAttentions (fun r => r.attentionId = controlId) fun r =>
      { r with
        acceptedAtMs := some (r.acceptedAtMs.getD f.now),
        turnCompletedAtMs := some (r.turnCompletedAtMs.getD f.now),
        terminalStatus := some .cancelled, terminalReason := some reason,
        leaseEpoch := some f.epoch, attempts := r.attempts + 1 })

/-- One attention of an interrupted turn: protected work goes back, the rest ends. -/
def Ledger.interruptAttention (turnId reason : String) (now : Int) (acc : Nat × Ledger)
    (a : Attention) : Nat × Ledger :=
  if protectedPriorities.contains a.priority && a.finalResponseAtMs.isNone then
    let l := { acc.2 with
      turnLinks := deleteWhere (fun k => k.turnId = turnId && k.attentionId = a.attentionId)
        acc.2.turnLinks }
    (acc.1 + 1, l.updateAttentions (fun r => r.attentionId = a.attentionId) (Attention.requeued reason now))
  else
    (acc.1, acc.2.updateAttentions (fun r => r.attentionId = a.attentionId) fun r =>
      { r with
        turnCompletedAtMs := some now, terminalStatus := some .interrupted,
        terminalReason := some reason })

def interruptTurnForControl (turnId reason : String) (f : Fence) : Call Nat := fun l =>
  match l.turn? turnId with
  | none => .ok (0, l)
  | some t => do
    l.fenced t.identity f
    let l := l.updateTurns (fun t => t.turnId = turnId) fun t =>
      { t with
        completedAtMs := some f.now, terminalStatus := some .interrupted,
        terminalReason := some reason }
    let rows := (l.linkedTo turnId).filterMap fun id => l.attention? id
    let (requeued, l) := rows.foldl (Ledger.interruptAttention turnId reason f.now) (0, l)
    pure (requeued, l.suppressRelays (fun r => r.turnId = turnId) reason)

/-- Cancel everything unfinished of the control's room. -/
def closeRoomForControl (controlId reason : String) (f : Fence) : Call Nat := fun l => do
  let c ← found (l.attention? controlId) (.value ("unknown attention " ++ controlId))
  l.fenced c.identity f
  let hit (r : Attention) : Bool := r.identity = c.identity && r.server = c.server &&
    r.room = c.room && r.terminalStatus.isNone &&
    (r.acceptedAtMs.isNone || r.turnCompletedAtMs.isNone ||
      (r.replyRequired && r.finalResponseAtMs.isNone))
  let count := (l.attentions.filter hit).length
  let l := l.updateTurns (fun t => t.identity = c.identity && t.server = c.server &&
      t.room = c.room && t.completedAtMs.isNone) fun t =>
    { t with
      completedAtMs := some f.now, terminalStatus := some .cancelled, terminalReason := some reason }
  let l := l.updateAttentions hit fun r =>
    { r with
      turnCompletedAtMs := some (r.turnCompletedAtMs.getD f.now),
      terminalStatus := some .cancelled, terminalReason := some reason }
  let l := l.updateAttentions (fun r => r.attentionId = controlId) fun r =>
    { r with
      acceptedAtMs := some (r.acceptedAtMs.getD f.now), leaseEpoch := some f.epoch,
      attempts := r.attempts + 1 }
  let l := l.suppressRelays (fun r => l.turns.any fun t => t.turnId = r.turnId &&
    t.identity = c.identity && t.server = c.server && t.room = c.room) reason
  pure (count, { l with
    threads := deleteWhere (fun t => t.identity = c.identity && t.server = c.server &&
      t.room = c.room) l.threads })

/-- Retire undispatched metadata of the retired knowledge role. -/
def retireLegacyContext (attentionId identity : String) (f : Fence) : Call Bool := fun l => do
  l.fenced identity f
  match l.attentions.find? fun r => r.attentionId = attentionId && r.identity = identity with
  | none => pure (false, l)
  | some r =>
    let legacy := (Json.field "t" r.event).any fun t => t.isStr "memory" || t.isStr "memoryversion"
    if r.acceptedAtMs.isSome || r.terminalStatus.isSome || protectedPriorities.contains r.priority ||
        !legacy then pure (false, l)
    else pure (true, l.updateAttentions (fun r => r.attentionId = attentionId) fun r =>
      { r with
        terminalStatus := some .cancelled,
        terminalReason := some "archived knowledge metadata; not agent work" })

/-! ## Relays -/

structure RelayRequest where
  opId : String
  identity : String
  room : String
  target : String
  turnId : String
  itemId : String
  phase : Option String
  text : String
  coveredAttentionIds : List String
  relayKind : String
  status : String
  deriving DecidableEq, Repr

/-- `list(dict.fromkeys(ids))`: each id once, where it first stood. -/
def firstOccurrences (ids : List String) : List String :=
  ids.foldl (fun seen id => if seen.contains id then seen else seen ++ [id]) []

/-- `create_relay_item`; whether the row is new. -/
def createRelayItem (q : RelayRequest) (f : Fence) : Call Bool := fun l => do
  l.fenced q.identity f
  let taken := l.relays.any fun r => r.opId = q.opId ||
    (r.turnId = q.turnId && r.itemId = q.itemId && r.relayKind = q.relayKind)
  if taken then pure (false, l)
  else pure (true, { l with
    relays := l.relays ++ [{
      opId := q.opId, identity := q.identity, room := q.room, target := q.target,
      turnId := q.turnId, itemId := q.itemId, phase := q.phase, text := q.text,
      coveredAttentionIds := firstOccurrences q.coveredAttentionIds, relayKind := q.relayKind,
      status := q.status, createdAtMs := f.now, leaseEpoch := f.epoch }] })

def markRelayFailed (opId error : String) (retryDelayMs : Int) (f : Fence) : Call Unit := fun l =>
  match l.relay? opId with
  | none => .ok ((), l)
  | some r => do
    l.fenced r.identity f
    let delay := min 60000 (retryDelayMs * 2 ^ min r.attempts 6)
    pure ((), l.updateRelays (fun r => r.opId = opId) fun r =>
      { r with
        attempts := r.attempts + 1, lastError := some error, nextAttemptAtMs := f.now + delay })

/-- An accepted relay answers the attentions it covers. -/
def Attention.answered (final : Bool) (now : Int) (r : Attention) : Attention :=
  { r with
    firstResponseAtMs := some (r.firstResponseAtMs.getD now),
    finalResponseAtMs := if final then some (r.finalResponseAtMs.getD now) else r.finalResponseAtMs }

def markRelayAccepted (opId : String) (f : Fence) : Call Unit := fun l => do
  let relay ← found (l.relay? opId) (.value ("unknown relay " ++ opId))
  l.fenced relay.identity f
  let l := l.updateRelays (fun r => r.opId = opId) fun r =>
    { r with
      status := "accepted", attempts := r.attempts + 1, acceptedAtMs := some f.now,
      lastError := none, nextAttemptAtMs := 0 }
  pure ((), relay.coveredAttentionIds.foldl (fun l id =>
    l.updateAttentions (fun r => r.attentionId = id)
      (Attention.answered (relay.relayKind = "final") f.now)) l)

/-- The model may decline to answer only what does not require a reply. -/
def markTurnNoReply (turnId : String) (f : Fence) : Call Nat := fun l =>
  match l.turn? turnId with
  | none => .ok (0, l)
  | some t => do
    l.fenced t.identity f
    let hit (r : Attention) : Bool := r.turnId = some turnId && r.finalResponseAtMs.isNone &&
      r.terminalStatus.isNone && !r.replyRequired
    pure ((l.attentions.filter hit).length, l.updateAttentions hit fun r =>
      { r with
        terminalStatus := some .cancelled,
        terminalReason := some "model explicitly chose no reply" })

def TerminalStatus.text : TerminalStatus → String
  | failed => "failed"
  | interrupted => "interrupted"
  | cancelled => "cancelled"
  | expired => "expired"

/-- A status that ends a turn; any other completes it. -/
def terminalOf (status : String) : Option TerminalStatus :=
  [TerminalStatus.failed, .interrupted, .cancelled, .expired].find? fun s => s.text = status

/-- `reason or None`. -/
def reasonOrNone (reason : String) : Option String := if reason = "" then none else some reason

def markTurnCompleted (turnId status reason : String) (f : Fence) : Call Unit := fun l =>
  match l.turn? turnId with
  | none => .ok ((), l)
  | some t => do
    l.fenced t.identity f
    let terminal := terminalOf status
    let l := l.updateTurns (fun t => t.turnId = turnId) fun t =>
      { t with
        completedAtMs := some f.now, terminalStatus := terminal,
        terminalReason := reasonOrNone reason }
    let l := l.updateAttentions (fun r => r.turnId = some turnId) fun r =>
      { r with
        turnCompletedAtMs := some f.now,
        terminalStatus := r.terminalStatus.or terminal,
        terminalReason := if terminal.isNone then r.terminalReason else reasonOrNone reason }
    match terminal with
    | none => pure ((), l)
    | some s => pure ((), l.suppressRelays (fun r => r.turnId = turnId)
        ((reasonOrNone reason).getD ("turn " ++ s.text)))

end Loca.Adapter
