/-
# `Loca.Adapter.Fencing` — one adapter at a time

Any number of adapters of one identity share the ledger, at any clocks and with any of them
dying at any moment.  What keeps them apart is the lease: its epoch never falls, an epoch is
granted to one owner only, and a call under anything but the current, unexpired lease changes
nothing.  Such a call raises, unless the row that would say whose lease to check is missing.
-/
import Loca.Base.Run
import Loca.Adapter.Mutators

namespace Loca.Adapter

open Check Table

/-! ## Calls -/

/-- A call that is made under a lease. -/
inductive Mutation
  | setThread (identity server room threadId : String)
  | markAccepted (attentionId threadId turnId : String)
  | prepareDispatch (attentionId threadId operation clientMessageId : String)
  | finalizeDispatch (attentionId threadId turnId : String) (reconciled : Bool)
  | retryUnobservedDispatch (attentionId reason : String)
  | deferAttention (attentionId reason : String) (delayMs : Int)
  | adoptRecoveredTurn (turnId : String)
  | reapStaleTurnsAfterRecovery (identity : String)
  | requeueMissingThread (identity threadId reason : String)
  | requeueMissingTurn (identity threadId turnId reason : String)
  | cancelPendingBeforeControl (controlId reason : String)
  | interruptTurnForControl (turnId reason : String)
  | closeRoomForControl (controlId reason : String)
  | retireLegacyContext (attentionId identity : String)
  | createRelayItem (q : RelayRequest)
  | markRelayFailed (opId error : String) (retryDelayMs : Int)
  | markRelayAccepted (opId : String)
  | markTurnNoReply (turnId : String)
  | markTurnCompleted (turnId status reason : String)

inductive Reply
  | done
  | count (n : Nat)
  | flag (b : Bool)
  | epoch (e : Int)
  deriving DecidableEq, Repr

def Mutation.run (f : Fence) (m : Mutation) (l : Ledger) : Except Fault (Reply × Ledger) :=
  match m with
  | .setThread i s r t => answer (fun _ => .done) (Adapter.setThread i s r t f l)
  | .markAccepted a t u => answer (fun _ => .done) (Adapter.markAccepted a t u f l)
  | .prepareDispatch a t o c => answer (fun _ => .done) (Adapter.prepareDispatch a t o c f l)
  | .finalizeDispatch a t u b => answer (fun _ => .done) (Adapter.finalizeDispatch a t u b f l)
  | .retryUnobservedDispatch a r => answer (fun _ => .done) (Adapter.retryUnobservedDispatch a r f l)
  | .deferAttention a r d => answer (fun _ => .done) (Adapter.deferAttention a r d f l)
  | .adoptRecoveredTurn t => answer (fun _ => .done) (Adapter.adoptRecoveredTurn t f l)
  | .reapStaleTurnsAfterRecovery i => answer .count (Adapter.reapStaleTurnsAfterRecovery i f l)
  | .requeueMissingThread i t r => answer .count (Adapter.requeueMissingThread i t r f l)
  | .requeueMissingTurn i t u r => answer .count (Adapter.requeueMissingTurn i t u r f l)
  | .cancelPendingBeforeControl c r => answer .count (Adapter.cancelPendingBeforeControl c r f l)
  | .interruptTurnForControl t r => answer .count (Adapter.interruptTurnForControl t r f l)
  | .closeRoomForControl c r => answer .count (Adapter.closeRoomForControl c r f l)
  | .retireLegacyContext a i => answer .flag (Adapter.retireLegacyContext a i f l)
  | .createRelayItem q => answer .flag (Adapter.createRelayItem q f l)
  | .markRelayFailed o e d => answer (fun _ => .done) (Adapter.markRelayFailed o e d f l)
  | .markRelayAccepted o => answer (fun _ => .done) (Adapter.markRelayAccepted o f l)
  | .markTurnNoReply t => answer .count (Adapter.markTurnNoReply t f l)
  | .markTurnCompleted t s r => answer (fun _ => .done) (Adapter.markTurnCompleted t s r f l)

/-- Whose lease the call is checked against: named by the caller, or by the row it is about. -/
def Mutation.subject (l : Ledger) : Mutation → Option String
  | .setThread i _ _ _ | .reapStaleTurnsAfterRecovery i | .requeueMissingThread i _ _
  | .requeueMissingTurn i _ _ _ | .retireLegacyContext _ i => some i
  | .createRelayItem q => some q.identity
  | .markAccepted a _ _ | .deferAttention a _ _ | .cancelPendingBeforeControl a _
  | .closeRoomForControl a _ => (l.attention? a).map Attention.identity
  | .prepareDispatch a _ o _ =>
      (parseOperation o).bind fun _ => (l.attention? a).map Attention.identity
  | .finalizeDispatch a _ _ _ => (l.intent? a).bind fun _ => (l.attention? a).map Attention.identity
  | .retryUnobservedDispatch a _ => (l.intent? a).map DispatchIntent.identity
  | .adoptRecoveredTurn t | .interruptTurnForControl t _ | .markTurnNoReply t
  | .markTurnCompleted t _ _ => (l.turn? t).map Turn.identity
  | .markRelayFailed o _ _ | .markRelayAccepted o => (l.relay? o).map RelayItem.identity

/-- Calls that return without a word when their row is missing. -/
def Mutation.quiet : Mutation → Bool
  | .retryUnobservedDispatch .. | .deferAttention .. | .adoptRecoveredTurn .. |
    .interruptTurnForControl .. | .markRelayFailed .. | .markTurnNoReply .. |
    .markTurnCompleted .. => true
  | _ => false

/-! ## The fence -/

inductive LedgerCall
  | claim (p : Processes) (identity owner : String) (ttl now : Int)
  | renew (identity : String) (ttl : Int) (f : Fence)
  | release (identity : String) (f : Fence)
  | mutate (m : Mutation) (f : Fence)

def LedgerCall.run (l : Ledger) : LedgerCall → Except Fault (Reply × Ledger)
  | .claim p identity owner ttl now => answer .epoch (claimLease p identity owner ttl now l)
  | .renew identity ttl f => answer (fun _ => .done) (renewLease identity f.owner f.epoch ttl f.now l)
  | .release identity f => answer (fun _ => .done) (releaseLease identity f.owner f.epoch f.now l)
  | .mutate m f => m.run f l

/-- A call by some adapter; `crashed` says that something outside the program ended it. -/
structure LedgerInput where
  call : LedgerCall
  crashed : Bool

def Ledger.step (l : Ledger) (i : LedgerInput) : Except Fault Reply × Ledger :=
  atomically i.crashed .crashed (fun l => i.call.run l) l

/-- What a step does to a lease: the epoch does not fall, and stays only with its owner. -/
def EpochStep (l l' : Ledger) : Prop :=
  ∀ identity r, l.lease? identity = some r → ∃ r', l'.lease? identity = some r' ∧
    r.leaseEpoch ≤ r'.leaseEpoch ∧ (r'.leaseEpoch = r.leaseEpoch → r'.leaseOwner = r.leaseOwner)

/-- Every epoch and its owner are as before. -/
def SameEpochs (l l' : Ledger) : Prop :=
  ∀ identity, (l'.lease? identity).map (fun r => (r.leaseEpoch, r.leaseOwner)) =
    (l.lease? identity).map fun r => (r.leaseEpoch, r.leaseOwner)

theorem SameEpochs.step {l l' : Ledger} (h : SameEpochs l l') : EpochStep l l' := by
  intro identity r hr
  have hsame := h identity
  rw [hr, Option.map_some, Option.map_eq_some_iff] at hsame
  obtain ⟨r', hr', heq⟩ := hsame
  obtain ⟨he, ho⟩ := Prod.mk.inj heq
  exact ⟨r', hr', le_of_eq he.symm, fun _ => ho⟩

/-- The trace holds a grant of this epoch to this owner. -/
def GrantedIn (tr : List (LedgerInput × Except Fault Reply)) (identity owner : String) (e : Int) :
    Prop :=
  ∃ i p ttl now, (i, Except.ok (Reply.epoch e)) ∈ tr ∧ i.call = .claim p identity owner ttl now

theorem GrantedIn.cons {tr : List (LedgerInput × Except Fault Reply)} {identity owner : String}
    {e : Int} (x : LedgerInput × Except Fault Reply) (h : GrantedIn tr identity owner e) :
    GrantedIn (x :: tr) identity owner e := by
  obtain ⟨i, p, ttl, now, hi, hc⟩ := h
  exact ⟨i, p, ttl, now, List.mem_cons_of_mem _ hi, hc⟩

def sampleProcesses : Processes := ⟨String.toInt?, fun _ => .running⟩

/-- `17-a` takes the lease and lets it run out, `18-b` takes over, and `17-a` goes on. -/
def takeover : List LedgerInput :=
  [⟨.claim sampleProcesses "reviewer" "17-a" 100 0, false⟩,
    ⟨.mutate (.setThread "reviewer" "http://loca" "den" "t-1") ⟨"17-a", 1, 50⟩, false⟩,
    ⟨.claim sampleProcesses "reviewer" "18-b" 100 100, false⟩,
    ⟨.mutate (.setThread "reviewer" "http://loca" "den" "t-2") ⟨"17-a", 1, 120⟩, false⟩]

end Loca.Adapter
