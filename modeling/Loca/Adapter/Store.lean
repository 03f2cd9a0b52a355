/-
# `Loca.Adapter.Store` — what the ledger's calls do, and what is read back

Every fenced call is a check and an effect.  `Mutation.effect` is the effect alone: where the check
passes, it is what the call leaves (`Mutation.run_effect`), and the laws about whole runs are proved
from it.  The queries that the adapter decides by stand beside it, and the machine here takes every
call of the store, the ingest of an inbox included, in any order.
-/
import Loca.Adapter.Fencing
import Loca.Adapter.Inbox

namespace Loca.Adapter

open Check Table

/-! ## Queries -/

namespace Ledger

variable (l : Ledger)

/-- `ORDER BY priority_rank, stored_at_ms, source_offset, attention_id`. -/
def before (a b : Attention) : Prop :=
  a.priorityRank < b.priorityRank ∨ a.priorityRank = b.priorityRank ∧
    (a.storedAtMs < b.storedAtMs ∨ a.storedAtMs = b.storedAtMs ∧
      (a.sourceOffset < b.sourceOffset ∨ a.sourceOffset = b.sourceOffset ∧ a.attentionId ≤ b.attentionId))

instance : DecidableRel before := fun a b => by unfold before; infer_instance

def isPending (identity : String) (now : Int) (a : Attention) : Bool :=
  a.identity = identity && a.acceptedAtMs.isNone && a.terminalStatus.isNone && a.nextAttemptAtMs ≤ now

def nextPending (identity : String) (now : Int) : Option Attention :=
  ((l.attentions.filter (isPending identity now)).insertionSort before).head?

/-- The attentions linked to a turn that are not terminal, in the order of their positions. -/
def acceptedForTurn (turnId : String) : List Attention :=
  (l.linkedTo turnId).filterMap fun id => (l.attention? id).filter fun a => a.terminalStatus.isNone

def turnHasRelayItem (turnId itemId : String) : Bool := l.relays.any fun r => r.turnId = turnId && r.itemId = itemId

/-- What the relays of a turn and a kind cover. -/
def coverage (turnId kind : String) : List String :=
  ((l.relays.filter fun r => r.turnId = turnId && r.relayKind = kind).map RelayItem.coveredAttentionIds).flatten

/-- Accepted into the turn, and not terminal. -/
def working (turnId : String) (a : Attention) : Bool :=
  a.turnId = some turnId && a.acceptedAtMs.isSome && a.terminalStatus.isNone

def isDirect (a : Attention) : Bool := a.priority = "direct_user" || a.priority = "addressed_agent"

def turnAllowsCommentary (turnId : String) : Bool :=
  !(l.relays.any fun r => r.turnId = turnId && r.relayKind = "commentary") ||
    l.attentions.any fun a => working turnId a && isDirect a && !(l.coverage turnId "commentary").contains a.attentionId

def uncoveredFinalAttentionIds (turnId : String) : List String :=
  (l.attentions.filter fun a => working turnId a && !(l.coverage turnId "final").contains a.attentionId).map
    Attention.attentionId

def pendingRelays (identity : String) (now : Int) : List RelayItem :=
  (l.relays.filter fun r => r.identity = identity && r.status = "pending" && r.nextAttemptAtMs ≤ now).insertionSort
    fun a b => a.createdAtMs < b.createdAtMs ∨ a.createdAtMs = b.createdAtMs ∧ a.opId ≤ b.opId

def thread? (identity server room : String) : Option Thread :=
  l.threads.find? fun t => t.identity = identity && t.server = server && t.room = room

end Ledger

section

variable {l : Ledger}

theorem attention_some {id : String} {a : Attention} (h : l.attention? id = some a) :
    a ∈ l.attentions ∧ a.attentionId = id :=
  ⟨List.mem_of_find?_eq_some h, by simpa using List.find?_some h⟩

theorem attention_of_mem (hids : (l.attentions.map Attention.attentionId).Nodup) {b : Attention}
    (hb : b ∈ l.attentions) : l.attention? b.attentionId = some b := by
  cases hrow : l.attention? b.attentionId with
  | none => exact absurd (decide_eq_true rfl) (List.find?_eq_none.mp hrow b hb)
  | some c => rw [eq_of_key hids (attention_some hrow).1 hb (attention_some hrow).2]

end

/-! ## Effects -/

namespace Ledger

variable (f : Fence) (l : Ledger)

/-- The turn is there, the attention is linked to it and accepted. -/
def accept (a : Attention) (threadId turnId : String) : Ledger :=
  (linkTurn turnId a.attentionId { l with
    turns := insertIgnore Turn.turnId
      { turnId := turnId, identity := a.identity, server := a.server, room := a.room, threadId := threadId,
        leaseEpoch := f.epoch, startedAtMs := f.now } l.turns }).updateAttentions
    (fun r => r.attentionId = a.attentionId) fun r =>
      { r with
        acceptedAtMs := some (r.acceptedAtMs.getD f.now), turnId := some turnId,
        leaseEpoch := some f.epoch, attempts := r.attempts + 1 }

def acceptId (attentionId threadId turnId : String) : Ledger :=
  match l.attention? attentionId with
  | none => l
  | some a => l.accept f a threadId turnId

/-- Waiting before a control, not protected, of the control's room. -/
def cancelledBy (c r : Attention) : Bool :=
  r.identity = c.identity && r.server = c.server && r.room = c.room && r.acceptedAtMs.isNone &&
    r.terminalStatus.isNone && r.sourceOffset < c.sourceOffset && r.attentionId ≠ c.attentionId &&
    !protectedPriorities.contains r.priority

/-- Unfinished work of a control's room. -/
def closedBy (c r : Attention) : Bool :=
  r.identity = c.identity && r.server = c.server && r.room = c.room && r.terminalStatus.isNone &&
    (r.acceptedAtMs.isNone || r.turnCompletedAtMs.isNone || (r.replyRequired && r.finalResponseAtMs.isNone))

def closeRoom (c : Attention) (reason : String) : Ledger :=
  let l := l.updateTurns (fun t => t.identity = c.identity && t.server = c.server &&
      t.room = c.room && t.completedAtMs.isNone) fun t =>
    { t with
      completedAtMs := some f.now, terminalStatus := some .cancelled, terminalReason := some reason }
  let l := l.updateAttentions (closedBy c) fun r =>
    { r with
      turnCompletedAtMs := some (r.turnCompletedAtMs.getD f.now),
      terminalStatus := some .cancelled, terminalReason := some reason }
  let l := l.updateAttentions (fun r => r.attentionId = c.attentionId) fun r =>
    { r with
      acceptedAtMs := some (r.acceptedAtMs.getD f.now), leaseEpoch := some f.epoch,
      attempts := r.attempts + 1 }
  let l := l.suppressRelays (fun r => l.turns.any fun t => t.turnId = r.turnId &&
    t.identity = c.identity && t.server = c.server && t.room = c.room) reason
  { l with
    threads := deleteWhere (fun t => t.identity = c.identity && t.server = c.server &&
      t.room = c.room) l.threads }

def interruptTurn (turnId reason : String) : Ledger :=
  let l := l.updateTurns (fun t => t.turnId = turnId) fun t =>
    { t with
      completedAtMs := some f.now, terminalStatus := some .interrupted,
      terminalReason := some reason }
  ((((l.linkedTo turnId).filterMap fun id => l.attention? id).foldl
    (interruptAttention turnId reason f.now) (0, l)).2).suppressRelays (fun r => r.turnId = turnId) reason

def completeTurn (turnId status reason : String) : Ledger :=
  let terminal := terminalOf status
  let l := l.updateTurns (fun t => t.turnId = turnId) fun t =>
    { t with
      completedAtMs := some f.now, terminalStatus := terminal, terminalReason := reasonOrNone reason }
  let l := l.updateAttentions (fun r => r.turnId = some turnId) fun r =>
    { r with
      turnCompletedAtMs := some f.now,
      terminalStatus := r.terminalStatus.or terminal,
      terminalReason := if terminal.isNone then r.terminalReason else reasonOrNone reason }
  match terminal with
  | none => l
  | some s => l.suppressRelays (fun r => r.turnId = turnId) ((reasonOrNone reason).getD ("turn " ++ s.text))

end Ledger

/-- What the call leaves, once its check has passed. -/
def Mutation.effect (f : Fence) (l : Ledger) : Mutation → Ledger
  | .setThread identity server room threadId => { l with
      threads := insertOrUpdate (fun t => (t.server, t.room, t.identity))
        ⟨server, room, identity, threadId, f.epoch, f.now, f.now⟩
        (fun t => { t with threadId := threadId, leaseEpoch := f.epoch, updatedAtMs := f.now }) l.threads }
  | .markAccepted a t u => l.acceptId f a t u
  | .prepareDispatch a t o c =>
      match parseOperation o, l.attention? a with
      | some op, some row => { l with
          intents := insertOrUpdate DispatchIntent.attentionId
            ⟨a, row.identity, row.server, row.room, t, op, c, .prepared, none, f.now, none, none, f.epoch⟩
            (fun i => { i with
              threadId := t, operation := op, clientMessageId := c, status := .prepared, turnId := none,
              preparedAtMs := f.now, resolvedAtMs := none, lastError := none, leaseEpoch := f.epoch }) l.intents }
      | _, _ => l
  | .finalizeDispatch a t u reconciled =>
      let l := l.acceptId f a t u
      { l with
        intents := updateWhere (fun i => i.attentionId = a)
          (fun i => { i with
            status := if reconciled then .reconciled else .accepted, turnId := some u,
            resolvedAtMs := some f.now, lastError := none, leaseEpoch := f.epoch }) l.intents }
  | .retryUnobservedDispatch a reason =>
      if (l.intent? a).isNone then l
      else ({ l with
        intents := updateWhere (fun i => i.attentionId = a)
          (fun i => { i with
            status := .failed, resolvedAtMs := some f.now, lastError := some reason,
            leaseEpoch := f.epoch }) l.intents }).updateAttentions
        (fun r => r.attentionId = a && r.acceptedAtMs.isNone && r.terminalStatus.isNone) fun r =>
          { r with nextAttemptAtMs := f.now, terminalReason := some reason }
  | .deferAttention a reason delayMs =>
      match l.attention? a with
      | none => l
      | some row => l.updateAttentions (fun r => r.attentionId = a) (Attention.deferred reason delayMs row.attempts f.now)
  | .adoptRecoveredTurn t =>
      if (l.turn? t).isNone then l
      else (l.updateTurns (fun x => x.turnId = t && x.isOpen) fun x => { x with leaseEpoch := f.epoch }).updateAttentions
        (fun r => r.turnId = some t && r.turnCompletedAtMs.isNone && r.terminalStatus.isNone) fun r =>
          { r with leaseEpoch := some f.epoch }
  | .reapStaleTurnsAfterRecovery identity =>
      ((l.turns.filter fun t => t.identity = identity && t.leaseEpoch < f.epoch && t.isOpen).map Turn.turnId).foldl
        (Ledger.reapTurn ("turn absent after adapter recovery at lease epoch " ++ toString f.epoch) f.now) l
  | .requeueMissingThread identity threadId reason =>
      let l' := (((l.turns.filter fun t => t.identity = identity && t.threadId = threadId &&
        t.completedAtMs.isNone).map Turn.turnId).foldl
          (Ledger.requeueTurn (Attention.requeued reason f.now) reason f.now) (0, l)).2
      { l' with threads := deleteWhere (fun t => t.identity = identity && t.threadId = threadId) l'.threads }
  | .requeueMissingTurn identity threadId turnId reason =>
      if l.turns.any (fun t => t.identity = identity && t.threadId = threadId && t.turnId = turnId &&
          t.completedAtMs.isNone) then
        (Ledger.requeueTurn (fun r => { r.requeued reason f.now with firstResponseAtMs := none })
          reason f.now (0, l) turnId).2
      else l
  | .cancelPendingBeforeControl control reason =>
      match l.attention? control with
      | none => l
      | some c => (l.updateAttentions (Ledger.cancelledBy c) fun r =>
          { r with terminalStatus := some .cancelled, terminalReason := some reason }).updateAttentions
        (fun r => r.attentionId = control) fun r =>
          { r with
            acceptedAtMs := some (r.acceptedAtMs.getD f.now),
            turnCompletedAtMs := some (r.turnCompletedAtMs.getD f.now),
            terminalStatus := some .cancelled, terminalReason := some reason,
            leaseEpoch := some f.epoch, attempts := r.attempts + 1 }
  | .interruptTurnForControl turnId reason => if (l.turn? turnId).isSome then l.interruptTurn f turnId reason else l
  | .closeRoomForControl control reason =>
      match l.attention? control with
      | none => l
      | some c => l.closeRoom f c reason
  | .retireLegacyContext a identity =>
      match l.attentions.find? fun r => r.attentionId = a && r.identity = identity with
      | none => l
      | some r =>
        if r.acceptedAtMs.isSome || r.terminalStatus.isSome || protectedPriorities.contains r.priority ||
            !((Json.field "t" r.event).any fun t => t.isStr "memory" || t.isStr "memoryversion") then l
        else l.updateAttentions (fun r => r.attentionId = a) fun r =>
          { r with
            terminalStatus := some .cancelled,
            terminalReason := some "archived knowledge metadata; not agent work" }
  | .createRelayItem q =>
      if l.relays.any fun r => r.opId = q.opId ||
          (r.turnId = q.turnId && r.itemId = q.itemId && r.relayKind = q.relayKind) then l
      else { l with
        relays := l.relays ++ [{
          opId := q.opId, identity := q.identity, room := q.room, target := q.target,
          turnId := q.turnId, itemId := q.itemId, phase := q.phase, text := q.text,
          coveredAttentionIds := firstOccurrences q.coveredAttentionIds, relayKind := q.relayKind,
          status := q.status, createdAtMs := f.now, leaseEpoch := f.epoch }] }
  | .markRelayFailed op error retryDelayMs =>
      match l.relay? op with
      | none => l
      | some row => l.updateRelays (fun r => r.opId = op) fun r =>
          { r with
            attempts := r.attempts + 1, lastError := some error,
            nextAttemptAtMs := f.now + min 60000 (retryDelayMs * 2 ^ min row.attempts 6) }
  | .markRelayAccepted op =>
      match l.relay? op with
      | none => l
      | some row => row.coveredAttentionIds.foldl (fun l id => l.updateAttentions (fun r => r.attentionId = id)
          (Attention.answered (row.relayKind = "final") f.now))
        (l.updateRelays (fun r => r.opId = op) fun r =>
          { r with
            status := "accepted", attempts := r.attempts + 1, acceptedAtMs := some f.now,
            lastError := none, nextAttemptAtMs := 0 })
  | .markTurnNoReply t =>
      if (l.turn? t).isNone then l
      else l.updateAttentions (fun r => r.turnId = some t && r.finalResponseAtMs.isNone && r.terminalStatus.isNone &&
          !r.replyRequired) fun r =>
        { r with terminalStatus := some .cancelled, terminalReason := some "model explicitly chose no reply" }
  | .markTurnCompleted t status reason => if (l.turn? t).isSome then l.completeTurn f t status reason else l

theorem accept_ok {a t u : String} {f : Fence} {l l' : Ledger} {r : Unit}
    (h : markAcceptedInTransaction a t u f l = .ok (r, l')) : l' = l.acceptId f a t u := by
  simp only [markAcceptedInTransaction, bind_ok, found_ok, pure_ok, Prod.mk.injEq] at h
  obtain ⟨row, hrow, -, -, -, rfl⟩ := h
  have hid : row.attentionId = a := by simpa using List.find?_some hrow
  simp only [Ledger.acceptId, hrow, Ledger.accept, hid]

/-- What a call leaves is its effect. -/
theorem Mutation.run_effect {m : Mutation} {l l' : Ledger} {f : Fence} {r : Reply}
    (h : m.run f l = .ok (r, l')) : l' = m.effect f l := by
  cases m <;> simp only [Mutation.run, answer_ok] at h <;> obtain ⟨a, h, -⟩ := h
  case setThread =>
    simp only [Adapter.setThread, bind_ok, require_ok, pure_ok, Prod.mk.injEq, exists_const] at h
    obtain ⟨-, -, -, -, rfl⟩ := h
    rfl
  case markAccepted => exact accept_ok h
  case prepareDispatch =>
    simp only [Adapter.prepareDispatch, bind_ok, found_ok, require_ok, pure_ok, Prod.mk.injEq,
      exists_const] at h
    obtain ⟨op, hop, row, hrow, -, -, -, -, rfl⟩ := h
    simp only [Mutation.effect, hop, hrow]
  case finalizeDispatch =>
    simp only [Adapter.finalizeDispatch, bind_ok, found_ok, pure_ok, Prod.mk.injEq] at h
    obtain ⟨-, -, ⟨u, l₁⟩, h₁, -, rfl⟩ := h
    obtain rfl := accept_ok h₁
    rfl
  case retryUnobservedDispatch =>
    unfold Adapter.retryUnobservedDispatch at h
    split at h
    · next hno => cases h; simp [Mutation.effect, hno]
    · next hi =>
        simp only [bind_ok, pure_ok, Prod.mk.injEq] at h
        obtain ⟨-, -, -, rfl⟩ := h
        simp [Mutation.effect, hi]
  case deferAttention =>
    unfold Adapter.deferAttention at h
    split at h
    · next hno => cases h; simp only [Mutation.effect, hno]
    · next hrow =>
        simp only [bind_ok, pure_ok, Prod.mk.injEq] at h
        obtain ⟨-, -, -, rfl⟩ := h
        simp only [Mutation.effect, hrow]
  case adoptRecoveredTurn =>
    unfold Adapter.adoptRecoveredTurn at h
    split at h
    · next hno => cases h; simp [Mutation.effect, hno]
    · next ht =>
        simp only [bind_ok, pure_ok, Prod.mk.injEq] at h
        obtain ⟨-, -, -, rfl⟩ := h
        simp [Mutation.effect, ht]
  case reapStaleTurnsAfterRecovery =>
    simp only [Adapter.reapStaleTurnsAfterRecovery, bind_ok, pure_ok, Prod.mk.injEq] at h
    obtain ⟨-, -, -, rfl⟩ := h
    rfl
  case requeueMissingThread =>
    simp only [Adapter.requeueMissingThread, bind_ok, pure_ok, Prod.mk.injEq] at h
    obtain ⟨-, -, -, rfl⟩ := h
    rfl
  case requeueMissingTurn =>
    simp only [Adapter.requeueMissingTurn, bind_ok] at h
    obtain ⟨-, -, h⟩ := h
    split at h
    · next hc =>
        rw [pure_ok] at h
        simp only [Mutation.effect, if_pos hc, h]
    · next hc =>
        cases h
        simp only [Mutation.effect, if_neg hc]
  case cancelPendingBeforeControl control reason =>
    simp only [Adapter.cancelPendingBeforeControl, bind_ok, found_ok, pure_ok, Prod.mk.injEq] at h
    obtain ⟨c, hc, -, -, -, rfl⟩ := h
    obtain rfl : c.attentionId = control := by simpa using List.find?_some hc
    simp only [Mutation.effect, hc]
    rfl
  case interruptTurnForControl =>
    unfold Adapter.interruptTurnForControl at h
    split at h
    · next hno => cases h; simp [Mutation.effect, hno]
    · next ht =>
        simp only [bind_ok, pure_ok, Prod.mk.injEq] at h
        obtain ⟨-, -, -, rfl⟩ := h
        simp only [Mutation.effect, ht, Option.isSome_some, if_true]
        rfl
  case closeRoomForControl control reason =>
    simp only [Adapter.closeRoomForControl, bind_ok, found_ok, pure_ok, Prod.mk.injEq] at h
    obtain ⟨c, hc, -, -, -, rfl⟩ := h
    obtain rfl : c.attentionId = control := by simpa using List.find?_some hc
    simp only [Mutation.effect, hc]
    rfl
  case retireLegacyContext =>
    simp only [Adapter.retireLegacyContext, bind_ok] at h
    obtain ⟨-, -, h⟩ := h
    split at h
    · next hno => cases h; simp only [Mutation.effect, hno]
    · next hrow =>
        split at h
        · next hc => cases h; simp only [Mutation.effect, hrow]; rw [if_pos hc]
        · next hc => cases h; simp only [Mutation.effect, hrow]; rw [if_neg hc]
  case createRelayItem =>
    simp only [Adapter.createRelayItem, bind_ok] at h
    obtain ⟨-, -, h⟩ := h
    split at h
    · next hc => cases h; simp only [Mutation.effect]; rw [if_pos hc]
    · next hc => cases h; simp only [Mutation.effect]; rw [if_neg hc]
  case markRelayFailed =>
    unfold Adapter.markRelayFailed at h
    split at h
    · next hno => cases h; simp only [Mutation.effect, hno]
    · next hrow =>
        simp only [bind_ok, pure_ok, Prod.mk.injEq] at h
        obtain ⟨-, -, -, rfl⟩ := h
        simp only [Mutation.effect, hrow]
  case markRelayAccepted =>
    simp only [Adapter.markRelayAccepted, bind_ok, found_ok, pure_ok, Prod.mk.injEq] at h
    obtain ⟨row, hrow, -, -, -, rfl⟩ := h
    simp only [Mutation.effect, hrow]
  case markTurnNoReply =>
    unfold Adapter.markTurnNoReply at h
    split at h
    · next hno => cases h; simp [Mutation.effect, hno]
    · next ht =>
        simp only [bind_ok, pure_ok, Prod.mk.injEq] at h
        obtain ⟨-, -, -, rfl⟩ := h
        simp [Mutation.effect, ht]
  case markTurnCompleted =>
    unfold Adapter.markTurnCompleted at h
    split at h
    · next hno => cases h; simp [Mutation.effect, hno]
    · next ht =>
        simp only [bind_ok] at h
        obtain ⟨-, -, h⟩ := h
        simp only [Mutation.effect, ht, Option.isSome_some, if_true, Ledger.completeTurn]
        split at h
        · next hn => cases h; simp only [hn]
        · next hn => cases h; simp only [hn]

/-! ## What no call changes -/

/-- A loop whose turns keep something keeps it. -/
theorem foldl_view {α β γ : Type} (view : β → γ) {f : β → α → β} (h : ∀ b a, view (f b a) = view b) (l : List α) (b : β) :
    view (l.foldl f b) = view b :=
  Sys.foldl_rel (R := fun b b' => view b' = view b) (fun _ => rfl) (fun _ _ _ h₁ h₂ => h₂.trans h₁) h l b

/-- The columns of an attention that no call writes. -/
def Attention.fixed (a : Attention) : String × String × String × String × String × Bool × String :=
  (a.attentionId, a.identity, a.server, a.room, a.priority, a.replyRequired, a.bundleId)

def Turn.fixed (t : Turn) : String × String × String × String × String :=
  (t.turnId, t.identity, t.server, t.room, t.threadId)

/-- The columns of a relay that no call writes. -/
def RelayItem.fixed (r : RelayItem) :
    String × String × String × String × String × Option String × List String :=
  (r.opId, r.identity, r.turnId, r.itemId, r.relayKind, r.phase, r.coveredAttentionIds)

section

variable {l : Ledger} {f : Fence}

theorem updateAttentions_fixed {p : Attention → Bool} {g : Attention → Attention} (hg : ∀ r, (g r).fixed = r.fixed)
    (l : Ledger) : (l.updateAttentions p g).attentions.map Attention.fixed = l.attentions.map Attention.fixed :=
  map_key_updateWhere hg l.attentions

theorem deferred_fixed (reason : String) (delayMs : Int) (attempts : Nat) (now : Int) (r : Attention) :
    (r.deferred reason delayMs attempts now).fixed = r.fixed := by
  unfold Attention.deferred
  dsimp only
  split
  · rfl
  · split <;> rfl

@[simp] theorem linkTurn_attentions (turnId attentionId : String) (l : Ledger) :
    (l.linkTurn turnId attentionId).attentions = l.attentions := by
  unfold Ledger.linkTurn
  dsimp only
  split <;> rfl

@[simp] theorem linkTurn_turns (turnId attentionId : String) (l : Ledger) :
    (l.linkTurn turnId attentionId).turns = l.turns := by
  unfold Ledger.linkTurn
  dsimp only
  split <;> rfl

@[simp] theorem linkTurn_relays (turnId attentionId : String) (l : Ledger) :
    (l.linkTurn turnId attentionId).relays = l.relays := by
  unfold Ledger.linkTurn
  dsimp only
  split <;> rfl

@[simp] theorem linkTurn_threads (turnId attentionId : String) (l : Ledger) :
    (l.linkTurn turnId attentionId).threads = l.threads := by
  unfold Ledger.linkTurn
  dsimp only
  split <;> rfl

theorem requeueTurn_fixed {back : Attention → Attention} (hb : ∀ r, (back r).fixed = r.fixed) (reason : String)
    (now : Int) (acc : Nat × Ledger) (turnId : String) :
    (Ledger.requeueTurn back reason now acc turnId).2.attentions.map Attention.fixed =
      acc.2.attentions.map Attention.fixed := by
  unfold Ledger.requeueTurn
  dsimp only
  split
  · rfl
  · exact updateAttentions_fixed hb _

theorem interruptAttention_fixed (turnId reason : String) (now : Int) (acc : Nat × Ledger) (a : Attention) :
    (Ledger.interruptAttention turnId reason now acc a).2.attentions.map Attention.fixed =
      acc.2.attentions.map Attention.fixed := by
  unfold Ledger.interruptAttention
  split
  · exact updateAttentions_fixed (by exact fun _ => rfl) _
  · exact updateAttentions_fixed (by exact fun _ => rfl) _

theorem acceptId_fixed (a t u : String) :
    (l.acceptId f a t u).attentions.map Attention.fixed = l.attentions.map Attention.fixed := by
  unfold Ledger.acceptId
  split
  · rfl
  · refine (updateAttentions_fixed ?_ _).trans ?_
    · exact fun _ => rfl
    · rw [linkTurn_attentions]

/-- The attentions are the same, column by column, whatever is called. -/
theorem effect_fixed (m : Mutation) :
    (m.effect f l).attentions.map Attention.fixed = l.attentions.map Attention.fixed := by
  cases m <;> simp only [Mutation.effect]
  case markAccepted => exact acceptId_fixed _ _ _
  case finalizeDispatch => exact acceptId_fixed _ _ _
  case prepareDispatch => split <;> rfl
  case retryUnobservedDispatch =>
    split
    · rfl
    · exact updateAttentions_fixed (by exact fun _ => rfl) _
  case deferAttention =>
    split
    · rfl
    · exact updateAttentions_fixed (deferred_fixed _ _ _ _) _
  case adoptRecoveredTurn =>
    split
    · rfl
    · exact updateAttentions_fixed (by exact fun _ => rfl) _
  case reapStaleTurnsAfterRecovery =>
    refine foldl_view (fun l : Ledger => l.attentions.map Attention.fixed) ?_ _ l
    exact fun _ _ => updateAttentions_fixed (by exact fun _ => rfl) _
  case requeueMissingThread =>
    refine foldl_view (fun acc : Nat × Ledger => acc.2.attentions.map Attention.fixed) ?_ _ (0, l)
    exact fun acc t => requeueTurn_fixed (by exact fun _ => rfl) _ _ acc t
  case requeueMissingTurn =>
    split
    · exact requeueTurn_fixed (by exact fun _ => rfl) _ _ (0, l) _
    · rfl
  case cancelPendingBeforeControl =>
    split
    · rfl
    · refine (updateAttentions_fixed ?_ _).trans (updateAttentions_fixed ?_ _)
      · exact fun _ => rfl
      · exact fun _ => rfl
  case interruptTurnForControl =>
    split
    · refine foldl_view (fun acc : Nat × Ledger => acc.2.attentions.map Attention.fixed) ?_ _ (0, _)
      exact fun acc a => interruptAttention_fixed _ _ _ acc a
    · rfl
  case closeRoomForControl =>
    split
    · rfl
    · refine (updateAttentions_fixed ?_ _).trans (updateAttentions_fixed ?_ _)
      · exact fun _ => rfl
      · exact fun _ => rfl
  case retireLegacyContext =>
    split
    · rfl
    · split
      · rfl
      · exact updateAttentions_fixed (by exact fun _ => rfl) _
  case createRelayItem => split <;> rfl
  case markRelayFailed => split <;> rfl
  case markRelayAccepted =>
    split
    · rfl
    · refine foldl_view (fun l : Ledger => l.attentions.map Attention.fixed) ?_ _ _
      exact fun _ _ => updateAttentions_fixed (by exact fun _ => rfl) _
  case markTurnNoReply =>
    split
    · rfl
    · exact updateAttentions_fixed (by exact fun _ => rfl) _
  case markTurnCompleted =>
    split
    · unfold Ledger.completeTurn
      dsimp only
      split
      · exact updateAttentions_fixed (by exact fun _ => rfl) _
      · exact updateAttentions_fixed (by exact fun _ => rfl) _
    · rfl

/-- The attention, the thread and the turn of a call that accepts. -/
def Mutation.accepts : Mutation → Option (String × String × String)
  | .markAccepted a t u => some (a, t, u)
  | .finalizeDispatch a t u _ => some (a, t, u)
  | _ => none

theorem updateTurns_fixed {p : Turn → Bool} {g : Turn → Turn} (hg : ∀ t, (g t).fixed = t.fixed) (l : Ledger) :
    (l.updateTurns p g).turns.map Turn.fixed = l.turns.map Turn.fixed :=
  map_key_updateWhere hg l.turns

theorem requeueTurn_turns (back : Attention → Attention) (reason : String) (now : Int) (acc : Nat × Ledger)
    (turnId : String) : (Ledger.requeueTurn back reason now acc turnId).2.turns.map Turn.fixed =
      acc.2.turns.map Turn.fixed := by
  unfold Ledger.requeueTurn
  dsimp only
  split
  · rfl
  · exact updateTurns_fixed (by exact fun _ => rfl) _

theorem interruptAttention_turns (turnId reason : String) (now : Int) (acc : Nat × Ledger) (a : Attention) :
    (Ledger.interruptAttention turnId reason now acc a).2.turns = acc.2.turns := by
  unfold Ledger.interruptAttention
  split <;> rfl

/-- Only an acceptance opens a turn, and no call writes whose it is. -/
theorem effect_turns {m : Mutation} (hm : m.accepts = none) :
    (m.effect f l).turns.map Turn.fixed = l.turns.map Turn.fixed := by
  cases m <;> simp only [Mutation.effect]
  case markAccepted => cases hm
  case finalizeDispatch => cases hm
  case prepareDispatch => split <;> rfl
  case retryUnobservedDispatch => split <;> rfl
  case deferAttention => split <;> rfl
  case adoptRecoveredTurn =>
    split
    · rfl
    · exact updateTurns_fixed (by exact fun _ => rfl) _
  case reapStaleTurnsAfterRecovery =>
    refine foldl_view (fun l : Ledger => l.turns.map Turn.fixed) ?_ _ l
    exact fun l _ => updateTurns_fixed (by exact fun _ => rfl) l
  case requeueMissingThread =>
    refine foldl_view (fun acc : Nat × Ledger => acc.2.turns.map Turn.fixed) ?_ _ (0, l)
    exact fun acc t => requeueTurn_turns _ _ _ acc t
  case requeueMissingTurn =>
    split
    · exact requeueTurn_turns _ _ _ (0, l) _
    · rfl
  case cancelPendingBeforeControl => split <;> rfl
  case interruptTurnForControl =>
    split
    · refine (foldl_view (fun acc : Nat × Ledger => acc.2.turns.map Turn.fixed) ?_ _ (0, _)).trans
        (updateTurns_fixed (by exact fun _ => rfl) l)
      intro acc a
      rw [interruptAttention_turns]
    · rfl
  case closeRoomForControl =>
    split
    · rfl
    · exact updateTurns_fixed (by exact fun _ => rfl) l
  case retireLegacyContext =>
    split
    · rfl
    · split <;> rfl
  case createRelayItem => split <;> rfl
  case markRelayFailed => split <;> rfl
  case markRelayAccepted =>
    split
    · rfl
    · refine foldl_view (fun l : Ledger => l.turns.map Turn.fixed) ?_ _ _
      exact fun _ _ => rfl
  case markTurnNoReply => split <;> rfl
  case markTurnCompleted =>
    split
    · unfold Ledger.completeTurn
      dsimp only
      split
      · exact updateTurns_fixed (by exact fun _ => rfl) l
      · exact updateTurns_fixed (by exact fun _ => rfl) l
    · rfl

theorem accept_turns (a : Attention) (threadId turnId : String) :
    (l.accept f a threadId turnId).turns = insertIgnore Turn.turnId
      { turnId := turnId, identity := a.identity, server := a.server, room := a.room, threadId := threadId,
        leaseEpoch := f.epoch, startedAtMs := f.now } l.turns := by
  simp only [Ledger.accept, Ledger.updateAttentions, linkTurn_turns]

theorem mem_firstOccurrences {ids : List String} {id : String} : id ∈ firstOccurrences ids ↔ id ∈ ids := by
  have hloop : ∀ (xs seen : List String),
      id ∈ xs.foldl (fun seen id => if seen.contains id then seen else seen ++ [id]) seen ↔ id ∈ seen ∨ id ∈ xs := by
    intro xs
    induction xs with
    | nil => simp
    | cons x xs ih =>
        intro seen
        rw [List.foldl_cons, ih]
        by_cases hx : seen.contains x = true
        · rw [if_pos hx, List.mem_cons]
          have := List.contains_iff_mem.mp hx
          constructor
          · rintro (h | h)
            · exact .inl h
            · exact .inr (.inr h)
          · rintro (h | rfl | h)
            · exact .inl h
            · exact .inl this
            · exact .inr h
        · rw [if_neg hx, List.mem_append, List.mem_singleton, List.mem_cons, or_assoc]
  simpa [firstOccurrences] using hloop ids []

/-- The relay that a call asks for. -/
def Mutation.creates : Mutation → Option RelayRequest
  | .createRelayItem q => some q
  | _ => none

theorem updateRelays_fixed {p : RelayItem → Bool} {g : RelayItem → RelayItem} (hg : ∀ r, (g r).fixed = r.fixed)
    (l : Ledger) : (l.updateRelays p g).relays.map RelayItem.fixed = l.relays.map RelayItem.fixed :=
  map_key_updateWhere hg l.relays

theorem suppressRelays_fixed (p : RelayItem → Bool) (reason : String) (l : Ledger) :
    (l.suppressRelays p reason).relays.map RelayItem.fixed = l.relays.map RelayItem.fixed :=
  updateRelays_fixed (by exact fun _ => rfl) l

theorem requeueTurn_relays (back : Attention → Attention) (reason : String) (now : Int) (acc : Nat × Ledger)
    (turnId : String) : (Ledger.requeueTurn back reason now acc turnId).2.relays = acc.2.relays := by
  unfold Ledger.requeueTurn
  dsimp only
  split <;> rfl

theorem interruptAttention_relays (turnId reason : String) (now : Int) (acc : Nat × Ledger) (a : Attention) :
    (Ledger.interruptAttention turnId reason now acc a).2.relays = acc.2.relays := by
  unfold Ledger.interruptAttention
  split <;> rfl

theorem acceptId_relays (a t u : String) : (l.acceptId f a t u).relays = l.relays := by
  unfold Ledger.acceptId
  split
  · rfl
  · simp only [Ledger.accept, Ledger.updateAttentions, linkTurn_relays]

/-- Only one call adds a relay; none removes one or writes what it covers. -/
theorem effect_relays {m : Mutation} (hm : m.creates = none) :
    (m.effect f l).relays.map RelayItem.fixed = l.relays.map RelayItem.fixed := by
  cases m <;> simp only [Mutation.effect]
  case markAccepted => rw [acceptId_relays]
  case finalizeDispatch => rw [acceptId_relays]
  case prepareDispatch => split <;> rfl
  case retryUnobservedDispatch => split <;> rfl
  case deferAttention => split <;> rfl
  case adoptRecoveredTurn => split <;> rfl
  case reapStaleTurnsAfterRecovery =>
    refine foldl_view (fun l : Ledger => l.relays.map RelayItem.fixed) ?_ _ l
    exact fun l _ => suppressRelays_fixed _ _ _
  case requeueMissingThread =>
    refine foldl_view (fun acc : Nat × Ledger => acc.2.relays.map RelayItem.fixed) ?_ _ (0, l)
    intro acc t
    rw [requeueTurn_relays]
  case requeueMissingTurn =>
    split
    · rw [requeueTurn_relays]
    · rfl
  case cancelPendingBeforeControl => split <;> rfl
  case interruptTurnForControl =>
    split
    · refine (suppressRelays_fixed _ _ _).trans
        (foldl_view (fun acc : Nat × Ledger => acc.2.relays.map RelayItem.fixed) ?_ _ (0, _))
      intro acc a
      rw [interruptAttention_relays]
    · rfl
  case closeRoomForControl =>
    split
    · rfl
    · exact suppressRelays_fixed _ _ _
  case retireLegacyContext =>
    split
    · rfl
    · split <;> rfl
  case createRelayItem => cases hm
  case markRelayFailed =>
    split
    · rfl
    · exact updateRelays_fixed (by exact fun _ => rfl) _
  case markRelayAccepted =>
    split
    · rfl
    · refine (foldl_view (fun l : Ledger => l.relays.map RelayItem.fixed) ?_ _ _).trans
        (updateRelays_fixed (by exact fun _ => rfl) _)
      exact fun _ _ => rfl
  case markTurnNoReply => split <;> rfl
  case markTurnCompleted =>
    split
    · unfold Ledger.completeTurn
      dsimp only
      split
      · rfl
      · exact suppressRelays_fixed _ _ _
    · rfl

end

/-! ## Ingest -/

/-- An attention that nothing has happened to. -/
structure Attention.Untouched (a : Attention) : Prop where
  accepted : a.acceptedAtMs = none
  first : a.firstResponseAtMs = none
  final : a.finalResponseAtMs = none
  completed : a.turnCompletedAtMs = none
  terminal : a.terminalStatus = none
  turn : a.turnId = none

/-- New attentions, under ids that were free; the other tables of the adapter's work are the same. -/
structure Filed (l l' : Ledger) : Prop where
  attentions : ∃ new, l'.attentions = l.attentions ++ new ∧ (∀ a ∈ new, a.Untouched) ∧
    (new.map Attention.attentionId).Nodup ∧ ∀ a ∈ new, ∀ r ∈ l.attentions, r.attentionId ≠ a.attentionId
  threads : l'.threads = l.threads
  turns : l'.turns = l.turns
  turnLinks : l'.turnLinks = l.turnLinks
  intents : l'.intents = l.intents
  relays : l'.relays = l.relays

theorem Filed.refl (l : Ledger) : Filed l l :=
  ⟨⟨[], (List.append_nil _).symm, fun _ h => (nomatch h), List.nodup_nil, fun _ h => (nomatch h)⟩,
    rfl, rfl, rfl, rfl, rfl⟩

theorem Filed.trans {l₁ l₂ l₃ : Ledger} (h₁ : Filed l₁ l₂) (h₂ : Filed l₂ l₃) : Filed l₁ l₃ := by
  obtain ⟨new₁, he₁, hu₁, hn₁, hf₁⟩ := h₁.attentions
  obtain ⟨new₂, he₂, hu₂, hn₂, hf₂⟩ := h₂.attentions
  rw [he₁] at hf₂
  refine ⟨⟨new₁ ++ new₂, ?_, ?_, ?_, ?_⟩, h₂.threads.trans h₁.threads, h₂.turns.trans h₁.turns,
    h₂.turnLinks.trans h₁.turnLinks, h₂.intents.trans h₁.intents, h₂.relays.trans h₁.relays⟩
  · rw [he₂, he₁, List.append_assoc]
  · intro a ha
    rcases List.mem_append.mp ha with ha | ha
    · exact hu₁ a ha
    · exact hu₂ a ha
  · rw [List.map_append]
    refine List.nodup_append.mpr ⟨hn₁, hn₂, ?_⟩
    intro x hx y hy
    obtain ⟨a, ha, rfl⟩ := List.mem_map.mp hx
    obtain ⟨b, hb, rfl⟩ := List.mem_map.mp hy
    exact hf₂ b hb a (List.mem_append_right _ ha)
  · intro a ha r hr
    rcases List.mem_append.mp ha with ha | ha
    · exact hf₁ a ha r hr
    · exact hf₂ a ha r (List.mem_append_left _ hr)

/-- Tables that no law of the adapter's work speaks of. -/
theorem Filed.of_eq {l l' : Ledger} (ha : l'.attentions = l.attentions) (hth : l'.threads = l.threads)
    (ht : l'.turns = l.turns) (hk : l'.turnLinks = l.turnLinks) (hi : l'.intents = l.intents)
    (hr : l'.relays = l.relays) : Filed l l' :=
  ⟨⟨[], by rw [ha, List.append_nil], fun _ h => (nomatch h), List.nodup_nil, fun _ h => (nomatch h)⟩,
    hth, ht, hk, hi, hr⟩

theorem fileWork_filed {a : Attention} (hu : a.Untouched) {now : Int} {l l' : Ledger} {new : Bool}
    (h : l.fileWork a now = .ok (new, l')) : Filed l l' := by
  unfold Ledger.fileWork at h
  dsimp only at h
  split at h
  · cases h
    exact .of_eq rfl rfl rfl rfl rfl rfl
  · next hfree =>
      simp only [bind_ok, require_ok, pure_ok, Prod.mk.injEq, exists_const] at h
      obtain ⟨-, -, rfl⟩ := h
      refine ⟨⟨[a], rfl, ?_, List.nodup_singleton _, ?_⟩, rfl, rfl, rfl, rfl, rfl⟩
      · intro b hb
        rwa [List.mem_singleton.mp hb]
      · intro b hb r hr he
        rw [List.mem_singleton.mp hb] at he
        refine hfree (List.any_eq_true.mpr ⟨r, hr, ?_⟩)
        simp [he]

theorem note_filed (now : Int) (e : Entry) (l : Ledger) : Filed l (e.note now l) := by
  unfold Entry.note
  split
  · split
    · exact .refl l
    · exact .of_eq rfl rfl rfl rfl rfl rfl
  · exact .refl l

theorem file_filed {py : Python} {identity sourceId : String} {now : Int} {e : Entry} {t t' : Tally}
    {l l' : Ledger} (h : e.file py identity sourceId now t l = .ok (t', l')) : Filed l l' := by
  unfold Entry.file at h
  split at h
  · cases h
    exact note_filed now e l
  · simp only [bind_ok, pure_ok, Prod.mk.injEq] at h
    obtain ⟨⟨new, l₁⟩, hw, -, rfl⟩ := h
    exact (note_filed now e l).trans (fileWork_filed ⟨rfl, rfl, rfl, rfl, rfl, rfl⟩ hw)

theorem ingestLines_filed {py : Python} {identity sourceId : String} {now : Int} {lines : List (List UInt8)}
    {offset : Nat} {t : Tally} {l l' : Ledger} {done : Tally × Nat}
    (h : ingestLines py identity sourceId now lines offset t l = .ok (done, l')) : Filed l l' := by
  induction lines generalizing offset t l with
  | nil =>
      cases h
      exact .refl _
  | cons raw lines ih =>
      simp only [ingestLines, bind_ok] at h
      obtain ⟨e, -, ⟨t₁, l₁⟩, hfile, hrest⟩ := h
      exact (file_filed hfile).trans (ih hrest)

theorem ingestInbox_filed {py : Python} {path identity : String} {now : Int} {file : List UInt8} {l l' : Ledger}
    {done : Tally × Nat} (h : ingestInbox py path identity now file l = .ok (done, l')) : Filed l l' := by
  simp only [ingestInbox, bind_ok, pure_ok, Prod.mk.injEq] at h
  obtain ⟨⟨d, l₁⟩, hlines, rfl, rfl⟩ := h
  exact (ingestLines_filed hlines).trans (.of_eq rfl rfl rfl rfl rfl rfl)

/-! ## The whole store -/

/-- A call of the store, and whether something outside the program ends it. -/
inductive StoreInput
  | call (c : LedgerCall) (crashed : Bool)
  | ingest (path identity : String) (now : Int) (file : List UInt8) (crashed : Bool)

def Ledger.storeStep (py : Python) (l : Ledger) : StoreInput → Except Fault Reply × Ledger
  | .call c crashed => l.step ⟨c, crashed⟩
  | .ingest path identity now file crashed =>
      atomically crashed .crashed (fun l => answer (fun _ => .done) (ingestInbox py path identity now file l)) l

def storeMachine (py : Python) : Sys.Machine Ledger StoreInput (Except Fault Reply) where
  init l := l = {}
  step := Ledger.storeStep py

theorem claimLease_same {p : Processes} {identity owner : String} {ttl now e : Int} {l l' : Ledger}
    (h : claimLease p identity owner ttl now l = .ok (e, l')) : ∃ leases, l' = { l with leases := leases } := by
  unfold claimLease at h
  split at h
  · cases h
    exact ⟨_, rfl⟩
  · split at h
    · cases h
      exact ⟨_, rfl⟩
    · split at h
      · cases h
        exact ⟨_, rfl⟩
      · cases h

def StoreInput.mutation : StoreInput → Option Mutation
  | .call (.mutate m _) _ => some m
  | _ => none

/-- A step is refused, or it may add attentions and no more, or it takes the whole effect of one fenced call. -/
theorem storeStep_cases (py : Python) (l : Ledger) (i : StoreInput) :
    (∃ e, l.storeStep py i = (.error e, l)) ∨ (i.mutation = none ∧ Filed l (l.storeStep py i).2) ∨
      ∃ m f crashed r, i = .call (.mutate m f) crashed ∧ l.storeStep py i = (.ok r, m.effect f l) := by
  cases i with
  | call c crashed =>
      simp only [Ledger.storeStep, Ledger.step]
      rcases atomically_cases crashed .crashed (fun l => c.run l) l with ⟨a, l', hrun, hs⟩ | hs
      · rw [hs]
        cases c with
        | claim p identity owner ttl now =>
            simp only [LedgerCall.run, answer_ok] at hrun
            obtain ⟨e, he, -⟩ := hrun
            obtain ⟨leases, rfl⟩ := claimLease_same he
            exact .inr (.inl ⟨rfl, .of_eq rfl rfl rfl rfl rfl rfl⟩)
        | renew identity ttl f =>
            simp only [LedgerCall.run, answer_ok, renewLease, bind_ok, pure_ok, Prod.mk.injEq] at hrun
            obtain ⟨-, ⟨-, -, -, rfl⟩, -⟩ := hrun
            exact .inr (.inl ⟨rfl, .of_eq rfl rfl rfl rfl rfl rfl⟩)
        | release identity f =>
            simp only [LedgerCall.run, answer_ok, releaseLease, Except.ok.injEq, Prod.mk.injEq] at hrun
            obtain ⟨-, ⟨-, rfl⟩, -⟩ := hrun
            exact .inr (.inl ⟨rfl, .of_eq rfl rfl rfl rfl rfl rfl⟩)
        | mutate m f =>
            obtain rfl := Mutation.run_effect hrun
            exact .inr (.inr ⟨m, f, crashed, a, rfl, rfl⟩)
      · exact .inl hs
  | ingest path identity now file crashed =>
      simp only [Ledger.storeStep]
      rcases atomically_cases crashed Fault.crashed
        (fun l => answer (fun _ => Reply.done) (ingestInbox py path identity now file l)) l with ⟨a, l', hrun, hs⟩ | hs
      · rw [hs]
        rw [answer_ok] at hrun
        obtain ⟨done, hdone, -⟩ := hrun
        exact .inr (.inl ⟨rfl, ingestInbox_filed hdone⟩)
      · exact .inl hs

/-! ## Keys -/

/-- The primary keys. -/
structure Keyed (l : Ledger) : Prop where
  attentions : (l.attentions.map Attention.attentionId).Nodup
  turns : (l.turns.map Turn.turnId).Nodup
  relays : (l.relays.map RelayItem.opId).Nodup

theorem map_of_fixed {α β γ : Type} {fixed : α → β} (key : β → γ) {xs ys : List α}
    (h : xs.map fixed = ys.map fixed) : (xs.map fun x => key (fixed x)) = ys.map fun x => key (fixed x) := by
  simpa only [List.map_map, Function.comp_def] using congrArg (List.map key) h

theorem effect_turnIds {m : Mutation} {f : Fence} {l : Ledger} (h : (l.turns.map Turn.turnId).Nodup) :
    ((m.effect f l).turns.map Turn.turnId).Nodup := by
  have hin : ∀ a t u, ((l.acceptId f a t u).turns.map Turn.turnId).Nodup := by
    intro a t u
    unfold Ledger.acceptId
    split
    · exact h
    · rw [accept_turns]
      exact nodup_insertIgnore h
  have hquiet : m.accepts = none → ((m.effect f l).turns.map Turn.turnId).Nodup := by
    intro hm
    have he := map_of_fixed Prod.fst (effect_turns (l := l) (f := f) hm)
    exact (he : (m.effect f l).turns.map Turn.turnId = _) ▸ h
  cases m with
  | markAccepted a t u => exact hin a t u
  | finalizeDispatch a t u b => exact hin a t u
  | _ => exact hquiet rfl

theorem effect_opIds {m : Mutation} {f : Fence} {l : Ledger} (h : (l.relays.map RelayItem.opId).Nodup) :
    ((m.effect f l).relays.map RelayItem.opId).Nodup := by
  cases hm : m.creates with
  | none =>
      have he := map_of_fixed Prod.fst (effect_relays (l := l) (f := f) hm)
      exact (he : (m.effect f l).relays.map RelayItem.opId = _) ▸ h
  | some q =>
      cases m <;> cases hm
      simp only [Mutation.effect]
      split
      · exact h
      · next hfree =>
          refine nodup_append_new h fun r hr he => hfree (List.any_eq_true.mpr ⟨r, hr, ?_⟩)
          simp [he]

theorem Keyed.effect {l : Ledger} (h : Keyed l) (m : Mutation) (f : Fence) : Keyed (m.effect f l) where
  attentions := by
    have he := map_of_fixed Prod.fst (effect_fixed (l := l) (f := f) m)
    exact (he : (m.effect f l).attentions.map Attention.attentionId = _) ▸ h.attentions
  turns := effect_turnIds h.turns
  relays := effect_opIds h.relays

theorem Keyed.filed {l l' : Ledger} (h : Keyed l) (hf : Filed l l') : Keyed l' := by
  obtain ⟨new, he, -, hn, hfree⟩ := hf.attentions
  refine ⟨?_, by rw [hf.turns]; exact h.turns, by rw [hf.relays]; exact h.relays⟩
  rw [he, List.map_append]
  refine List.nodup_append.mpr ⟨h.attentions, hn, ?_⟩
  intro x hx y hy
  obtain ⟨r, hr, rfl⟩ := List.mem_map.mp hx
  obtain ⟨a, ha, rfl⟩ := List.mem_map.mp hy
  exact hfree a ha r hr

/-- What one step preserves. -/
theorem Keyed.step {l : Ledger} (h : Keyed l) (py : Python) (i : StoreInput) : Keyed (l.storeStep py i).2 := by
  rcases storeStep_cases py l i with ⟨e, hs⟩ | ⟨-, hf⟩ | ⟨m, f, crashed, r, rfl, hs⟩
  · rw [hs]
    exact h
  · exact h.filed hf
  · rw [hs]
    exact h.effect m f

theorem keyed_empty : Keyed {} := ⟨List.nodup_nil, List.nodup_nil, List.nodup_nil⟩

/-- What a whole run preserves. -/
theorem run_keyed {py : Python} {ok : Ledger → StoreInput → Prop} {tr : List (StoreInput × Except Fault Reply)}
    {l : Ledger} (r : Sys.Run (storeMachine py) ok tr l) : Keyed l := by
  refine Sys.Run.invariant (I := Keyed) ?_ (fun l i h _ => h.step py i) r
  intro l hl
  obtain rfl : l = {} := hl
  exact keyed_empty

/-! ## One reviewer's inbox

The inputs that samples are written in: deliveries of one server, and the calls of the reviewer's adapter. -/

structure Delivery where
  number : String
  room : String
  priority : String

def Delivery.line (d : Delivery) : String :=
  "\x7b\"delivery_id\":\"" ++ d.number ++ "\",\"server\":\"http://loca-3215636\",\"room\":\"" ++ d.room ++
    "\",\"priority\":\"" ++ d.priority ++ "\",\"event\":\x7b\"t\":\"msg\"\x7d\x7d\n"

def Delivery.raw (d : Delivery) : List UInt8 := d.line.toUTF8.data.toList

/-- A Python that reads the lines of these deliveries. -/
def clerk (ds : List Delivery) : Python where
  loads raw := (ds.find? fun d => d.raw = raw).map fun d =>
    .obj [("delivery_id", .str d.number), ("server", .str "http://loca-3215636"), ("room", .str d.room),
      ("priority", .str d.priority), ("event", .obj [("t", .str "msg")])]
  render _ := ""
  toInt _ := .error "ValueError"
  sha256Hex _ := "0ab86667e260f757cedd7cbed8a201253a3ed50769a1e7fd1a51aa3c64b77945"
  casefold text := text

/-- The attention of the reviewer's delivery with this number. -/
def attentionNo (number : String) : String := "attention:reviewer:0ab86667e260:" ++ number

/-- The inbox is written and read, and the adapter takes the lease. -/
def opened (ds : List Delivery) : List StoreInput :=
  [.ingest "/var/inbox.jsonl" "reviewer" 0 (ds.flatMap Delivery.raw) false,
    .call (.claim sampleProcesses "reviewer" "17-a" 1000 0) false]

/-- A call of the reviewer's adapter at a time. -/
def Mutation.at (m : Mutation) (now : Int) : StoreInput := .call (.mutate m ⟨"17-a", 1, now⟩) false

end Loca.Adapter
