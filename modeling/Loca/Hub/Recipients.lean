/-
# `Loca.Hub.Recipients` — whose a reminder for everyone is

A reminder for everyone becomes one attention for each member of the room, bound to the
member's principal.  The display name is only a label: two principals may wear one.  Resolving
and acknowledging go by the principal, in the ledger and in the outbox.  Claiming goes by the
display name alone, and the replay asks for a davet in the room the delivery goes to, which for
the caretaker is not the room the reminder comes from.

`everyone_reminder_iff` says exactly when the reminder is its principal's all the same.
-/
import Loca.Hub.Lifecycle

namespace Loca

open Check Table

/-- Who asks: the name the route takes the call for (`actor_of`), and the principal behind the
session or the davet that came with it. -/
structure Caller where
  name : String
  principal : Option String
  deriving DecidableEq, Repr

namespace Caller

/-- The claim route does not look at the principal. -/
def claim (cfg : Config) (env : Env) (room id : String) (c : Caller) (w : World) :
    Except AttentionError Attention × World :=
  claimAttention cfg env room id c.name w

/-- The resolve route, for a caller without operator authority. -/
def resolve (cfg : Config) (env : Env) (room id : String) (c : Caller) (w : World) :
    Except AttentionError Attention × World :=
  resolveAttention cfg env room id c.name c.principal false w

def ack (cfg : Config) (env : Env) (signalId : String) (c : Caller) (w : World) :
    Except StoreError Bool × World :=
  ackCare cfg env signalId c.name c.principal w

end Caller

/-- The attention as the room's memory has it. -/
def World.heldIn (room id : String) (w : World) : Option Attention :=
  (w.room? room).bind fun r => r.attentions.get id

/-- Does the principal hold a davet of the room, with a live membership? -/
def World.holdsDavet (cfg : Config) (room principal : String) (w : World) : Bool :=
  (w.roster room).any fun e => principalIdForMemberRecord cfg.digests e.1 w.db = some principal

/-- The name stands for the owner, and the attention may still be claimed. -/
def World.claimable (room id name : String) (w : World) : Prop :=
  ∃ x, w.heldIn room id = some x ∧ x.owner = some name ∧ x.status = .opened

section Rules

variable {cfg : Config} {env : Env} (hp : cfg.persistent = true) {room id : String} {w : World}
include hp

/-- A claim goes through for whoever wears the owner's name. -/
theorem claimAttention_ok_iff {actor : String} :
    (∃ x, (claimAttention cfg env room id actor w).1 = .ok x) ↔
      env.fails .write = false ∧ w.claimable room id actor ∧
        ∃ a ∈ w.db.attentions, a.id = id ∧ a.isOpen = true := by
  have hany : (w.db.care.claimAttention id actor env.now).1 = true ↔
      ∃ a ∈ w.db.attentions, a.id = id ∧ a.isOpen = true := by
    simp [CareTables.claimAttention, Db.care]
  rw [← hany]
  unfold claimAttention World.claimable World.heldIn
  cases hr : w.room? room with
  | none => simp
  | some r =>
      cases ha : r.attentions.get id with
      | none => simp [ha]
      | some a =>
          simp only [Option.bind_some, ha, Option.map_some, Option.some.injEq, exists_eq_left']
          by_cases howner : a.owner = some actor
          · by_cases hopen : a.status = .opened
            · cases hw : env.fails .write with
              | true => simp [World.storeCare, hp, hw, howner, hopen]
              | false =>
                  cases hc : (w.db.care.claimAttention id actor env.now).1 with
                  | true => simp [World.storeCare, hp, hw, howner, hopen, hc]
                  | false => simp [World.storeCare, hp, hw, howner, hopen, hc]
            · simp [howner, hopen]
          · simp [howner]

omit hp in
/-- Without operator authority only the principal in the ledger resolves. -/
theorem resolveAttention_principal {actor p : String} {principal : Option String} {x : Attention}
    (hp' : w.db.care.attentionOwnerPrincipalId id = some (some p))
    (h : (resolveAttention cfg env room id actor principal false w).1 = .ok x) :
    principal = some p := by
  unfold resolveAttention at h
  split at h
  · cases h
  · split at h
    · cases h
    · split at h
      · cases h
      · next hauth =>
        simp only [Bool.not_false, Bool.true_and, Bool.not_eq_true', Bool.not_eq_false,
          Attention.settledBy, hp', decide_eq_true_eq] at hauth
        exact hauth

/-- A delivery bound to a principal is acknowledged by that principal. -/
theorem ackCare_principal {owner p : String} {principal : Option String} {d : OutboxRow}
    (ho : OutboxSound w.db.care) (hd : d ∈ w.db.care.outbox) (hdp : d.ownerPrincipalId = some p)
    (h : (ackCare cfg env d.id owner principal w).1 = .ok true) : principal = some p := by
  obtain ⟨-, -, hack⟩ := (ackCare_true_iff hp).mp h
  unfold CareTables.ackCareScoped at hack
  split at hack
  · cases hack
  · next r hr =>
    have hable := List.find?_some hr
    simp only [CareTables.ackable, Bool.and_eq_true, decide_eq_true_eq] at hable
    have hsame : r = d := List.inj_on_of_nodup_map ho.unique (List.mem_of_find?_eq_some hr) hd hable.1.1
    rw [hsame, hdp] at hable
    exact by simpa using hable.2

/-- What is sent again to a principal in the room of the delivery. -/
theorem mem_pending_iff {name p : String} {a : AttentionRow} {d : OutboxRow}
    (hl : LedgerSound w.db.care) (ho : OutboxSound w.db.care) (ht : d.Told)
    (ha : a ∈ w.db.care.attentions) (hd : d ∈ w.db.care.outbox) (hdp : d.ownerPrincipalId = some p)
    (hda : d.attentionId = a.id) :
    d.signal ∈ w.pendingCareScoped cfg env d.deliveryRoom name (some p) ↔
      d.ackedAt = none ∧ a.resolvedAt = none ∧ w.recipientActive cfg env d.deliveryRoom p = true := by
  have hsignal : d.signal.ownerPrincipalId = some p := ht.principal ▸ hdp
  have hrow : ∀ r : OutboxRow, r ∈ w.db.care.outbox ∧ r.signal = d.signal ↔ r = d := by
    intro r
    constructor
    · rintro ⟨hr, hs⟩
      refine List.inj_on_of_nodup_map ho.unique hr hd ?_
      rw [← ho.own r hr, ← ho.own d hd, hs]
    · rintro rfl
      exact ⟨hd, rfl⟩
  simp only [World.pendingCareScoped, hp, if_true, List.mem_filter, hsignal, Option.all_some,
    CareTables.pendingCareScoped, List.mem_map, CareTables.pendingRows, mem_orderBy, Bool.and_eq_true,
    decide_eq_true_eq, Option.isNone_iff_eq_none]
  constructor
  · rintro ⟨⟨⟨r, ⟨hr, ⟨⟨-, hack⟩, hres⟩, -⟩, hs⟩, -⟩, hact⟩
    obtain rfl := (hrow r).mp ⟨hr, hs⟩
    rw [hda, hl.row_eq ha rfl, Option.all_some, Option.isNone_iff_eq_none] at hres
    exact ⟨hack, hres, hact⟩
  · rintro ⟨hack, hres, hact⟩
    refine ⟨⟨⟨d, ⟨hd, ⟨⟨rfl, hack⟩, ?_⟩, ?_⟩, rfl⟩, ht.room.symm⟩, hact⟩
    · rw [hda, hl.row_eq ha rfl, Option.all_some, hres]
      rfl
    · simp [OutboxRow.addressedTo, hdp]

end Rules

/-- In every state a run reaches, for a reminder bound to the principal `p`, any caller and any
room: only `p` claims, acknowledges or resolves it, and it is sent again to `p` where it is
delivered exactly while it is unacknowledged and unresolved and `p` holds a davet of the room it
comes from, if and only if the caller is `p`, or does not wear the owner's name on an attention
that can be claimed; and while it is pending the davet asked for, in the room of the delivery,
is there when that of the origin is. -/
theorem everyone_reminder_iff {cfg : Config} (hp : cfg.persistent = true)
    {tr : List (HubInput × HubAnswer)} {s : Server} (hrun : Sys.Run (hubMachine cfg) anyHubInput tr s)
    {p : String} {a : AttentionRow} (ha : a ∈ s.world.db.attentions)
    (hap : a.signal.ownerPrincipalId = some p) {d : OutboxRow} (hd : d ∈ s.world.db.careOutbox)
    (hdp : d.ownerPrincipalId = some p) (hda : d.attentionId = a.id) (env : Env) (caller : Caller)
    (room name : String) :
    (((∃ x, (caller.claim cfg env room a.id s.world).1 = .ok x) → caller.principal = some p) ∧
      ((caller.ack cfg env d.id s.world).1 = .ok true → caller.principal = some p) ∧
      ((∃ x, (caller.resolve cfg env room a.id s.world).1 = .ok x) → caller.principal = some p) ∧
      (d.signal ∈ s.world.pendingCareScoped cfg env d.deliveryRoom name (some p) ↔
        d.ackedAt = none ∧ a.resolvedAt = none ∧
          s.world.holdsDavet cfg d.signal.originRoom p = true)) ↔
    (caller.principal = some p ∨ env.fails .write = true ∨ a.isOpen = false ∨
      ¬ s.world.claimable room a.id caller.name) ∧
    (d.ackedAt = none → a.resolvedAt = none →
      (s.world.recipientActive cfg env d.deliveryRoom p = true ↔
        s.world.holdsDavet cfg d.signal.originRoom p = true)) := by
  have hl := run_ledgerSound hp hrun
  have ho := run_outboxSound hp hrun
  have hack : (caller.ack cfg env d.id s.world).1 = .ok true → caller.principal = some p :=
    ackCare_principal hp ho hd hdp
  have hresolve : (∃ x, (caller.resolve cfg env room a.id s.world).1 = .ok x) →
      caller.principal = some p := by
    rintro ⟨x, hx⟩
    refine resolveAttention_principal ?_ hx
    rw [CareTables.attentionOwnerPrincipalId, hl.row_eq ha rfl, Option.map_some, hap]
  have hclaim : ((∃ x, (caller.claim cfg env room a.id s.world).1 = .ok x) → caller.principal = some p) ↔
      caller.principal = some p ∨ env.fails .write = true ∨ a.isOpen = false ∨
        ¬ s.world.claimable room a.id caller.name := by
    have hrow : (∃ a' ∈ s.world.db.attentions, a'.id = a.id ∧ a'.isOpen = true) ↔ a.isOpen = true := by
      constructor
      · rintro ⟨a', ha', hid, hopen⟩
        exact (List.inj_on_of_nodup_map hl.unique ha' ha hid : a' = a) ▸ hopen
      · exact fun hopen => ⟨a, ha, rfl, hopen⟩
    unfold Caller.claim
    rw [claimAttention_ok_iff hp, hrow]
    cases env.fails .write <;> cases a.isOpen <;> by_cases hq : caller.principal = some p <;>
      by_cases hc : s.world.claimable room a.id caller.name <;> simp [hq, hc]
  rw [hclaim, mem_pending_iff hp hl ho (run_told hp hrun d hd) ha hd hdp hda]
  constructor
  · rintro ⟨hc, -, -, hreplay⟩
    refine ⟨hc, fun hunacked hopen => ?_⟩
    simpa [hunacked, hopen] using hreplay
  · rintro ⟨hc, hactive⟩
    refine ⟨hc, hack, hresolve, ?_⟩
    constructor
    · rintro ⟨hunacked, hopen, hact⟩
      exact ⟨hunacked, hopen, (hactive hunacked hopen).mp hact⟩
    · rintro ⟨hunacked, hopen, hact⟩
      exact ⟨hunacked, hopen, (hactive hunacked hopen).mpr hact⟩

/-- Reminders for everyone, on tasks a minute old. -/
def everyoneSettings : SetSettings :=
  ⟨none, none, none, none, none, none, none, none, none, none, none, none, none, some .all, none,
    some 60, none⟩

/-- `ann` holds a davet of `den`, and a task there stays open. -/
def everyoneInputs : List HubInput :=
  let env := fun now => sampleEnv now fun _ => false
  [.call (env 1000) (.join "den" "s-bob" "bob" .agent 1),
    .call (env 1000) (.admitMember "ann" "user" "Master"),
    .call (env 1000) (.inviteMemberToRoom "mb_ann/membership/1000" "den" "Master"),
    .call (env 1000) (.setSettings "den" everyoneSettings 1000),
    .call (env 2000) (.createTask "den" ⟨"review", none, none, "bob"⟩),
    .call (env 200000) .tickCare]

def everyoneServer : Server := ((hubMachine sampleConfig).exec everyoneInputs [] sampleServer).2

def annPrincipal : String := "pr_member:mb_ann/membership/1000"

/-- Her reminder is sent to her again, and nobody by another name claims it. -/
theorem everyone_reminder_sample :
    ∃ a ∈ everyoneServer.world.db.attentions, ∃ d ∈ everyoneServer.world.db.careOutbox,
      d.attentionId = a.id ∧ a.signal.ownerPrincipalId = some annPrincipal ∧
      d.signal ∈ everyoneServer.world.pendingCareScoped sampleConfig (sampleEnv 300000 fun _ => false)
        d.deliveryRoom "ann" (some annPrincipal) ∧
      ¬ ∃ x, (Caller.claim sampleConfig (sampleEnv 300000 fun _ => false) "den" a.id ⟨"bob", none⟩
        everyoneServer.world).1 = .ok x := by
  have hrow : ∃ a ∈ everyoneServer.world.db.attentions, ∃ d ∈ everyoneServer.world.db.careOutbox,
      d.attentionId = a.id ∧ a.signal.ownerPrincipalId = some annPrincipal ∧
      d.ownerPrincipalId = some annPrincipal ∧ d.ackedAt = none ∧ a.resolvedAt = none ∧
      everyoneServer.world.recipientActive sampleConfig (sampleEnv 300000 fun _ => false) d.deliveryRoom
        annPrincipal = true ∧
      everyoneServer.world.holdsDavet sampleConfig d.signal.originRoom annPrincipal = true ∧
      (everyoneServer.world.heldIn "den" a.id).bind Attention.owner = some "ann" := by decide +kernel
  obtain ⟨a, ha, d, hd, hda, hap, hdp, hack, hres, hact, hdavet, howner⟩ := hrow
  have hother : ¬ everyoneServer.world.claimable "den" a.id "bob" := by
    rintro ⟨x, hx, hbob, -⟩
    rw [hx, Option.bind_some, hbob] at howner
    exact absurd howner (by decide)
  obtain ⟨hclaim, -, -, hreplay⟩ := (everyone_reminder_iff rfl (sampleServer_run everyoneInputs) ha hap hd
    hdp hda (sampleEnv 300000 fun _ => false) ⟨"bob", none⟩ "den" "ann").mpr
      ⟨.inr (.inr (.inr hother)), fun _ _ => ⟨fun _ => hdavet, fun _ => hact⟩⟩
  exact ⟨a, ha, d, hd, hda, hap, hreplay.mpr ⟨hack, hres, hdavet⟩, fun hx => absurd (hclaim hx) (by decide)⟩

/-- A caller of another principal who is called `ann` claims her reminder. -/
theorem shared_name_claims :
    ¬ ∀ tr s, Sys.Run (hubMachine sampleConfig) anyHubInput tr s → ∀ a ∈ s.world.db.attentions,
      ∀ p, a.signal.ownerPrincipalId = some p → ∀ env room (caller : Caller),
        (∃ x, (caller.claim sampleConfig env room a.id s.world).1 = .ok x) →
          caller.principal = some p := by
  intro h
  have hclaimed : ∃ a ∈ everyoneServer.world.db.attentions, a.signal.ownerPrincipalId = some annPrincipal ∧
      ((Caller.claim sampleConfig (sampleEnv 300000 fun _ => false) "den" a.id
        ⟨"ann", some "pr_smaster:ann"⟩ everyoneServer.world).1).toOption.isSome = true := by decide +kernel
  obtain ⟨a, ha, hap, hok⟩ := hclaimed
  have hx : ∃ x, (Caller.claim sampleConfig (sampleEnv 300000 fun _ => false) "den" a.id
      ⟨"ann", some "pr_smaster:ann"⟩ everyoneServer.world).1 = .ok x := by
    cases hr : (Caller.claim sampleConfig (sampleEnv 300000 fun _ => false) "den" a.id
        ⟨"ann", some "pr_smaster:ann"⟩ everyoneServer.world).1 with
    | ok x => exact ⟨x, rfl⟩
    | error e => rw [hr] at hok; cases hok
  have hsame := h _ _ (sampleServer_run everyoneInputs) a ha annPrincipal hap
    (sampleEnv 300000 fun _ => false) "den" ⟨"ann", some "pr_smaster:ann"⟩ hx
  exact absurd hsame (by decide)

end Loca
