/-
# `Loca.Hub.Delivery` — deliveries that are sent again

A delivery stays in the outbox until it is acknowledged, and a session that connects is sent
what is still there for it.  The replay goes by the row's own owner; the acknowledgement first
looks at the attention the row belongs to.  Attempts share an attention, and a later attempt
may give it to somebody else: then the earlier row is sent again and again, and nobody can
acknowledge it.

`replayed_care_is_acknowledged_iff` says exactly when that does not happen.
-/
import Loca.Hub.Care

namespace Loca

open Check Relation Table

/-! ## The outbox -/

/-- A row is filed under the id of its signal, each once. -/
structure OutboxSound (c : CareTables) : Prop where
  unique : (c.outbox.map OutboxRow.id).Nodup
  own : ∀ r ∈ c.outbox, r.signal.id = r.id

/-- The delivery was acknowledged. -/
def Settled (id : String) (c : CareTables) : Prop := ∃ r ∈ c.outbox, r.id = id ∧ r.ackedAt.isSome = true

/-- What may happen to a row: it is acknowledged, and stays so. -/
structure OutboxRow.Keeps (r r' : OutboxRow) : Prop where
  id : r'.id = r.id
  signal : r'.signal = r.signal
  acked : r.ackedAt.isSome = true → r'.ackedAt.isSome = true

theorem OutboxRow.Keeps.refl (r : OutboxRow) : r.Keeps r := ⟨rfl, rfl, fun h => h⟩

theorem OutboxRow.ack_keeps (now : Nat) (r : OutboxRow) : r.Keeps (r.ack now) := ⟨rfl, rfl, fun _ => rfl⟩

/-- One write to the outbox: rows are acknowledged, or one is added under a new id. -/
inductive Grown (o : List OutboxRow) : List OutboxRow → Prop
  | acked (f : OutboxRow → OutboxRow) : (∀ r : OutboxRow, r.Keeps (f r)) → Grown o (o.map f)
  | added (r : OutboxRow) : r.signal.id = r.id → (∀ x ∈ o, x.id ≠ r.id) → Grown o (o ++ [r])

namespace Grown

variable {o : List OutboxRow}

theorem refl (o : List OutboxRow) : Grown o o := by
  have h := Grown.acked (o := o) id OutboxRow.Keeps.refl
  rwa [List.map_id] at h

theorem update {p : OutboxRow → Bool} {f : OutboxRow → OutboxRow} (hf : ∀ r : OutboxRow, r.Keeps (f r)) :
    Grown o (updateWhere p f o) := by
  refine .acked (fun r => if p r then f r else r) fun r => ?_
  split
  · exact hf r
  · exact .refl r

theorem deliver (room : String) (s : CareSignal) : Grown o (CareTables.deliver room s o) := by
  unfold CareTables.deliver
  split
  · exact refl o
  · unfold insertIgnore
    split
    · exact refl o
    · next hk => exact .added _ rfl (hasKey_false.mp (Bool.eq_false_iff.mpr hk))

end Grown

theorem CareStep.outbox {c c' : CareTables} (h : CareStep c c') : Grown c.outbox c'.outbox := by
  cases h with
  | retire p now => exact .update (OutboxRow.ack_keeps now)
  | unmark room key => exact .refl _
  | cycle room now id =>
      unfold CareTables.resolveCycle
      dsimp only
      split
      · exact .update (OutboxRow.ack_keeps now)
      · exact .update (OutboxRow.ack_keeps now)
  | @file s _ =>
      unfold CareTables.writeCare
      split
      · split
        · exact .deliver s.room s
        · exact .refl _
      · exact .deliver s.room s
  | mark _ _ => exact .refl _
  | claim id actor now => exact .refl _
  | resolve id now =>
      unfold CareTables.resolveAttention
      split
      · exact .update (OutboxRow.ack_keeps now)
      · exact .refl _
  | ack id owner principal now =>
      unfold CareTables.ackCareScoped
      split
      · exact .refl _
      · exact .update fun r => ⟨rfl, rfl, fun _ => rfl⟩
  | pause room now => exact .update (OutboxRow.ack_keeps now)
  | end_ room now => exact .update (OutboxRow.ack_keeps now)

theorem CareStep.sound {c c' : CareTables} (h : CareStep c c') (hs : OutboxSound c) : OutboxSound c' := by
  have ho := h.outbox
  generalize hc : c'.outbox = o' at ho
  cases ho with
  | acked f hf =>
      refine ⟨?_, ?_⟩
      · have hmap : (c.outbox.map f).map OutboxRow.id = c.outbox.map OutboxRow.id := by
          rw [List.map_map]
          exact List.map_congr_left fun r _ => (hf r).id
        rw [hc, hmap]
        exact hs.unique
      · intro x hx
        rw [hc] at hx
        obtain ⟨r, hr, rfl⟩ := List.mem_map.mp hx
        rw [(hf r).signal, (hf r).id]
        exact hs.own r hr
  | added r hr hnew =>
      refine ⟨?_, ?_⟩
      · rw [hc]
        exact nodup_insertNew hs.unique (insertNew_eq_some.mpr ⟨hnew, rfl⟩)
      · intro x hx
        rw [hc] at hx
        rcases List.mem_append.mp hx with hx | hx
        · exact hs.own x hx
        · rw [List.mem_singleton.mp hx]
          exact hr

theorem CareStep.settled {c c' : CareTables} {id : String} (h : CareStep c c') (hs : Settled id c) :
    Settled id c' := by
  obtain ⟨r, hr, hid, hack⟩ := hs
  have ho := h.outbox
  generalize hc : c'.outbox = o' at ho
  cases ho with
  | acked f hf => exact ⟨f r, hc ▸ List.mem_map_of_mem hr, (hf r).id.trans hid, (hf r).acked hack⟩
  | added r' _ _ => exact ⟨r, hc ▸ List.mem_append_left [r'] hr, hid, hack⟩

theorem CareSteps.sound {c c' : CareTables} (h : CareSteps c c') (hs : OutboxSound c) : OutboxSound c' := by
  induction h with
  | refl => exact hs
  | tail _ hstep ih => exact hstep.sound ih

theorem CareSteps.settled {c c' : CareTables} {id : String} (h : CareSteps c c') (hs : Settled id c) :
    Settled id c' := by
  induction h with
  | refl => exact hs
  | tail _ hstep ih => exact hstep.settled ih

/-! ## Replay and acknowledgement -/

/-- The attention a delivery belongs to, as the server finds it: in a room's memory, or else in
the ledger. -/
def World.deliveryAttention (env : Env) (id : String) (w : World) : Option Attention :=
  ((w.hub.careDeliveries.get id).orElse fun _ => w.db.care.attentionIdForDelivery id).bind fun aid =>
    ((w.holder env aid).map fun h => h.2.2).orElse fun _ => w.db.care.attention aid

theorem mem_pendingCareScoped {cfg : Config} {env : Env} {room owner : String}
    {principal : Option String} {w : World} {s : CareSignal}
    (h : s ∈ w.pendingCareScoped cfg env room owner principal) :
    ∃ r ∈ w.db.care.outbox, r.signal = s ∧ r.ackedAt = none ∧ r.addressedTo owner principal = true := by
  unfold World.pendingCareScoped at h
  split at h
  · obtain ⟨h, -⟩ := List.mem_filter.mp h
    obtain ⟨h, -⟩ := List.mem_filter.mp h
    obtain ⟨r, hr, hs⟩ := List.mem_map.mp h
    simp only [CareTables.pendingRows, mem_orderBy, List.mem_filter, Bool.and_eq_true] at hr
    obtain ⟨hmem, ⟨⟨⟨-, hack⟩, -⟩, haddr⟩⟩ := hr
    exact ⟨r, hmem, hs, Option.isNone_iff_eq_none.mp hack, haddr⟩
  · cases h

section Ack

variable {cfg : Config} {env : Env} (hp : cfg.persistent = true) {id owner : String}
  {principal : Option String} {w : World}
include hp

/-- When an acknowledgement is accepted. -/
theorem ackCare_true_iff : (ackCare cfg env id owner principal w).1 = .ok true ↔
    env.fails .write = false ∧ (w.deliveryAttention env id).bind Attention.owner = some owner ∧
      (w.db.care.ackCareScoped id owner principal env.now).1 = true := by
  unfold ackCare World.deliveryAttention
  dsimp only
  split
  · next hnone => rw [hnone]; simp
  · next aid haid =>
    rw [haid, Option.bind_some]
    split
    · next hne =>
      constructor
      · intro h
        cases h
      · exact fun h => absurd h.2.1 hne
    · next howner =>
      cases hw : env.fails .write with
      | true => simp [World.storeCare, hp, hw]
      | false =>
          simp only [World.storeCare, hp, hw, if_true, Bool.false_eq_true, if_false, Bool.not_true,
            Bool.false_and, Bool.or_false, not_not.mp howner, true_and]
          cases hacked : (w.db.care.ackCareScoped id owner principal env.now).1 with
          | false => simp
          | true =>
              simp only [if_true]
              split <;> simp

/-- An accepted acknowledgement is in the outbox. -/
theorem ackCare_settled (h : (ackCare cfg env id owner principal w).1 = .ok true) :
    Settled id (ackCare cfg env id owner principal w).2.db.care := by
  obtain ⟨hw, howner, hacked⟩ := (ackCare_true_iff hp).mp h
  have hdb : (ackCare cfg env id owner principal w).2.db.care =
      (w.db.care.ackCareScoped id owner principal env.now).2 := by
    unfold World.deliveryAttention at howner
    unfold ackCare
    dsimp only
    split
    · next hnone => rw [hnone] at howner; cases howner
    · next aid haid =>
      rw [haid, Option.bind_some] at howner
      simp only [howner, ne_eq, not_true, if_false, World.storeCare, hp, hw, if_true,
        Bool.false_eq_true, hacked, Bool.true_or]
      split <;> rfl
  rw [hdb]
  unfold CareTables.ackCareScoped at hacked ⊢
  split at hacked
  · cases hacked
  · next r hr =>
    have hmem := List.mem_of_find?_eq_some hr
    have hack : CareTables.ackable id owner principal r = true := List.find?_some hr
    refine ⟨{ r with ackedAt := some env.now }, mem_updateWhere.mpr ⟨r, hmem, if_pos hack⟩, ?_, rfl⟩
    simp only [CareTables.ackable, Bool.and_eq_true, decide_eq_true_eq] at hack
    exact hack.1.1

end Ack

/-! ## Runs -/

theorem run_outboxSound {cfg : Config} (hp : cfg.persistent = true) {ok : Server → HubInput → Prop}
    {tr : List (HubInput × HubAnswer)} {s : Server} (r : Sys.Run (hubMachine cfg) ok tr s) :
    OutboxSound s.world.db.care := by
  refine Sys.Run.invariant (I := fun s => OutboxSound s.world.db.care) ?_ ?_ r
  · rintro s ⟨env, clock, rfl⟩
    exact (build_care cfg env clock {}).sound ⟨List.nodup_nil, fun r hr => by cases hr⟩
  · exact fun s i h _ => (step_care hp s i).sound h

/-- Whatever happens next, the tables go on from where they are. -/
theorem exec_care {cfg : Config} (hp : cfg.persistent = true) (is : List HubInput)
    (tr : List (HubInput × HubAnswer)) (s : Server) :
    CareSteps s.world.db.care ((hubMachine cfg).exec is tr s).2.world.db.care := by
  induction is generalizing tr s with
  | nil => exact .refl
  | cons i is ih => exact (step_care hp s i).trans (ih _ _)

/-- A settled delivery is not sent again. -/
theorem Settled.not_pending {cfg : Config} {env : Env} {id room owner : String}
    {principal : Option String} {w : World} (h : Settled id w.db.care) (hs : OutboxSound w.db.care) :
    ∀ x ∈ w.pendingCareScoped cfg env room owner principal, x.id ≠ id := by
  rintro x hx rfl
  obtain ⟨r, hr, rfl, hnone, -⟩ := mem_pendingCareScoped hx
  obtain ⟨r', hr', hid, hack⟩ := h
  have hsame : r' = r := List.inj_on_of_nodup_map hs.unique hr' hr (hid.trans (hs.own r hr))
  rw [hsame, hnone] at hack
  cases hack

/-- In every state a run reaches, for a delivery that is sent again: it can be acknowledged, and
is then gone for good, exactly when the store takes the write and the attention it belongs to is
still with the one who asks. -/
theorem replayed_care_is_acknowledged_iff {cfg : Config} (hp : cfg.persistent = true)
    {tr : List (HubInput × HubAnswer)} {s : Server} (hrun : Sys.Run (hubMachine cfg) anyHubInput tr s)
    {env : Env} {room owner : String} {principal : Option String} {x : CareSignal}
    (hx : x ∈ s.world.pendingCareScoped cfg env room owner principal) (env' : Env) :
    ((ackCare cfg env' x.id owner principal s.world).1 = .ok true ∧
      ∀ (is : List HubInput) (env'' : Env) (room' owner' : String) (principal' : Option String),
        ∀ y ∈ ((hubMachine cfg).exec (.call env' (.ackCare x.id owner principal) :: is) tr
          s).2.world.pendingCareScoped cfg env'' room' owner' principal', y.id ≠ x.id) ↔
    env'.fails .write = false ∧
      (s.world.deliveryAttention env' x.id).bind Attention.owner = some owner := by
  have hsound := run_outboxSound hp hrun
  obtain ⟨r, hr, rfl, hnone, haddr⟩ := mem_pendingCareScoped hx
  have hid := hsound.own r hr
  have hscoped : (s.world.db.care.ackCareScoped r.signal.id owner principal env'.now).1 = true := by
    have hfind : (s.world.db.care.outbox.find?
        (CareTables.ackable r.signal.id owner principal)).isSome = true := by
      refine List.find?_isSome.mpr ⟨r, hr, ?_⟩
      simp only [CareTables.ackable, hid, hnone, decide_true, Option.isNone_none, Bool.true_and]
      exact haddr
    unfold CareTables.ackCareScoped
    split
    · next hf => rw [hf] at hfind; cases hfind
    · rfl
  constructor
  · rintro ⟨hack, -⟩
    obtain ⟨hw, howner, -⟩ := (ackCare_true_iff hp).mp hack
    exact ⟨hw, howner⟩
  · rintro ⟨hw, howner⟩
    have hack := (@ackCare_true_iff _ _ hp _ _ principal _).mpr ⟨hw, howner, hscoped⟩
    refine ⟨hack, fun is env'' room' owner' principal' => ?_⟩
    have hset : Settled r.signal.id
        (s.step cfg (.call env' (.ackCare r.signal.id owner principal))).2.world.db.care :=
      ackCare_settled hp hack
    have hstep := (step_care hp s (.call env' (.ackCare r.signal.id owner principal))).sound hsound
    have hlater := exec_care hp is
      ((.call env' (.ackCare r.signal.id owner principal),
        (s.step cfg (.call env' (.ackCare r.signal.id owner principal))).1) :: tr)
      (s.step cfg (.call env' (.ackCare r.signal.id owner principal))).2
    exact (hlater.settled hset).not_pending (hlater.sound hstep)

/-- `bob` waits for `ann`; the reminder goes to the lead of the moment, `ann`. -/
def remindedInputs : List HubInput :=
  let env := fun now => sampleEnv now fun _ => false
  [.call (env 1000) (.join "den" "s-ann" "ann" .user 1),
    .call (env 1000) (.join "den" "s-bob" "bob" .agent 2),
    .call (env 1000) (.setLead "den" (some "ann") "ann"),
    .call (env 2000) (.setWait "den" ⟨"ann", "review", "bob"⟩),
    .call (env 200000) .tickCare]

/-- Then the lead changes, and the second reminder goes to `bob`. -/
def reassignedInputs : List HubInput :=
  let env := fun now => sampleEnv now fun _ => false
  remindedInputs ++
    [.call (env 300000) (.setLead "den" (some "bob") "ann"), .call (env 600000) .tickCare]

def remindedServer : Server := ((hubMachine sampleConfig).exec remindedInputs [] sampleServer).2

def reassignedServer : Server := ((hubMachine sampleConfig).exec reassignedInputs [] sampleServer).2

theorem replayed_care_sample :
    (remindedServer.world.pendingCareScoped sampleConfig (sampleEnv 300000 fun _ => false) "den" "ann"
        none).map CareSignal.id = ["delivery_den/wait:bob:2000/200000"] ∧
      ∀ x ∈ remindedServer.world.pendingCareScoped sampleConfig (sampleEnv 300000 fun _ => false) "den"
          "ann" none,
        (ackCare sampleConfig (sampleEnv 300000 fun _ => false) x.id "ann" none
          remindedServer.world).1 = .ok true := by
  refine ⟨by decide +kernel, fun x hx => ?_⟩
  have howner : ∀ x ∈ remindedServer.world.pendingCareScoped sampleConfig
      (sampleEnv 300000 fun _ => false) "den" "ann" none,
      (remindedServer.world.deliveryAttention (sampleEnv 300000 fun _ => false) x.id).bind
        Attention.owner = some "ann" := by decide +kernel
  exact ((replayed_care_is_acknowledged_iff rfl (sampleServer_run remindedInputs) hx
    (sampleEnv 300000 fun _ => false)).mpr ⟨rfl, howner x hx⟩).1

/-- The first delivery is still sent to `ann`, and her acknowledgement is refused. -/
theorem reassigned_care_is_stuck :
    ¬ ∀ tr s, Sys.Run (hubMachine sampleConfig) anyHubInput tr s → ∀ env room owner principal,
      ∀ x ∈ s.world.pendingCareScoped sampleConfig env room owner principal,
        (ackCare sampleConfig env x.id owner principal s.world).1 = .ok true := by
  intro h
  have hack := h _ _ (sampleServer_run reassignedInputs) (sampleEnv 700000 fun _ => false) "den" "ann" none
  have hstuck : ∃ x ∈ reassignedServer.world.pendingCareScoped sampleConfig
      (sampleEnv 700000 fun _ => false) "den" "ann" none,
      (ackCare sampleConfig (sampleEnv 700000 fun _ => false) x.id "ann" none
        reassignedServer.world).1 = .ok false := by decide +kernel
  obtain ⟨x, hx, hfalse⟩ := hstuck
  cases hfalse.symm.trans (hack x hx)

end Loca
