/-
# `Loca.Hub.Lifecycle` — the life of an attention on disk

An attention is open, then claimed, then resolved, or resolved from open.  The ledger's rows
are written by one upsert with a guard, called from six places, and resolved by updates over an
id, a prefix of ids, a participant or a room.  `AttentionRow.Keeps` says what any of these
writes leaves alone: a claim freezes the claimer, the owner and the signal, a resolution its
time.  `NoNewDelivery` is the same for the outbox.

Each holds of every `CareStep`, so of every run (`attention_lifecycle`).
-/
import Loca.Hub.Delivery

namespace Loca

open Relation Table

/-! ## What a write leaves alone -/

def AttentionRow.status (r : AttentionRow) : AttentionStatus := (attentionFromRow r).status

/-- The moves of an attention. -/
inductive AttentionStatus.Moves : AttentionStatus → AttentionStatus → Prop
  | claim : Moves .opened .claimed
  | finish : Moves .claimed .resolved
  | drop : Moves .opened .resolved

/-- What may happen to a row: once claimed its claim, owner and signal stay, once resolved the
time of it. -/
structure AttentionRow.Keeps (r r' : AttentionRow) : Prop where
  id : r'.id = r.id
  claimed : r.claimedAt.isSome = true → r'.claimedBy = r.claimedBy ∧ r'.claimedAt = r.claimedAt ∧
    r'.owner = r.owner ∧ r'.signal = r.signal
  resolved : r.resolvedAt.isSome = true → r'.resolvedAt = r.resolvedAt

namespace AttentionRow.Keeps

variable {r r' r'' : AttentionRow}

theorem refl (r : AttentionRow) : r.Keeps r := ⟨rfl, fun _ => ⟨rfl, rfl, rfl, rfl⟩, fun _ => rfl⟩

theorem trans (h : r.Keeps r') (h' : r'.Keeps r'') : r.Keeps r'' := by
  refine ⟨h'.id.trans h.id, fun hc => ?_, fun hr => ?_⟩
  · obtain ⟨hby, hat, howner, hsignal⟩ := h.claimed hc
    obtain ⟨hby', hat', howner', hsignal'⟩ := h'.claimed (hat ▸ hc)
    exact ⟨hby'.trans hby, hat'.trans hat, howner'.trans howner, hsignal'.trans hsignal⟩
  · have hat := h.resolved hr
    exact (h'.resolved (hat ▸ hr)).trans hat

theorem resolve (now : Nat) (r : AttentionRow) : r.Keeps (r.resolve now) := by
  refine ⟨rfl, fun _ => ⟨rfl, rfl, rfl, rfl⟩, fun hr => ?_⟩
  obtain ⟨t, ht⟩ := Option.isSome_iff_exists.mp hr
  simp [AttentionRow.resolve, ht]

/-- A row that is neither claimed nor resolved has nothing to keep but its id. -/
theorem of_open (ho : r.isOpen = true) (hid : r'.id = r.id) : r.Keeps r' := by
  simp only [AttentionRow.isOpen, Bool.and_eq_true, Option.isNone_iff_eq_none] at ho
  refine ⟨hid, fun hc => ?_, fun hr => ?_⟩
  · rw [ho.1] at hc
    cases hc
  · rw [ho.2] at hr
    cases hr

theorem not_open (h : r.Keeps r') (hc : r.isOpen = false) : r'.isOpen = false := by
  simp only [AttentionRow.isOpen, Bool.and_eq_false_iff, ← Option.not_isSome, Bool.not_eq_false'] at hc ⊢
  rcases hc with hc | hr
  · exact .inl ((h.claimed hc).2.1 ▸ hc)
  · exact .inr (h.resolved hr ▸ hr)

/-- A row that keeps what it has to never moves back. -/
theorem moves (h : r.Keeps r') : ReflTransGen AttentionStatus.Moves r.status r'.status := by
  have hopen : ∀ st, ReflTransGen AttentionStatus.Moves .opened st := by
    intro st
    cases st with
    | opened => exact .refl
    | claimed => exact .single .claim
    | resolved => exact .single .drop
  unfold AttentionRow.status attentionFromRow
  dsimp only
  cases hr : r.resolvedAt.isSome with
  | true =>
      rw [h.resolved hr, hr]
      exact .refl
  | false =>
      cases hc : r.claimedAt.isSome with
      | false => exact hopen _
      | true =>
          rw [(h.claimed hc).2.1, hc]
          cases r'.resolvedAt.isSome with
          | false => exact .refl
          | true => exact .single .finish

end AttentionRow.Keeps

/-- Every row is still there, with what it has to keep. -/
def RowsKept (c c' : CareTables) : Prop := ∀ r ∈ c.attentions, ∃ r' ∈ c'.attentions, r.Keeps r'

/-- No delivery is added for an attention that is claimed or resolved. -/
def NoNewDelivery (c c' : CareTables) : Prop :=
  ∀ r ∈ c.attentions, r.isOpen = false → ∀ d' ∈ c'.outbox, d'.attentionId = r.id →
    ∃ d ∈ c.outbox, d.id = d'.id ∧ d.attentionId = r.id

/-- A delivery goes to the room its signal names, for the attention it names, and is bound to
the principal it names. -/
structure OutboxRow.Told (d : OutboxRow) : Prop where
  room : d.deliveryRoom = d.signal.room
  attention : d.attentionId = d.signal.stableId
  principal : d.ownerPrincipalId = d.signal.ownerPrincipalId

namespace RowsKept

variable {c c' c'' : CareTables}

theorem refl (c : CareTables) : RowsKept c c := fun r hr => ⟨r, hr, .refl r⟩

theorem trans (h : RowsKept c c') (h' : RowsKept c' c'') : RowsKept c c'' := by
  intro r hr
  obtain ⟨r₁, hr₁, hk₁⟩ := h r hr
  obtain ⟨r₂, hr₂, hk₂⟩ := h' r₁ hr₁
  exact ⟨r₂, hr₂, hk₁.trans hk₂⟩

theorem update {p : AttentionRow → Bool} {f : AttentionRow → AttentionRow}
    (h : c'.attentions = updateWhere p f c.attentions)
    (hf : ∀ r, p r = true → r.Keeps (f r)) : RowsKept c c' := by
  intro r hr
  refine ⟨if p r then f r else r, by rw [h]; exact mem_updateWhere.mpr ⟨r, hr, rfl⟩, ?_⟩
  split
  · next hp => exact hf r hp
  · exact .refl r

theorem file (deliveryRoom : String) (s : CareSignal) (c : CareTables) :
    RowsKept c (c.writeCare deliveryRoom s) := by
  unfold CareTables.writeCare
  split
  · split
    · refine .update rfl fun r hp => ?_
      simp only [Bool.and_eq_true] at hp
      exact .of_open hp.2 rfl
    · exact .refl c
  · exact fun r hr => ⟨r, List.mem_append_left _ hr, .refl r⟩

end RowsKept

namespace NoNewDelivery

variable {c c' c'' : CareTables}

theorem refl (c : CareTables) : NoNewDelivery c c := fun _ _ _ d hd ha => ⟨d, hd, rfl, ha⟩

theorem trans (hk : RowsKept c c') (h : NoNewDelivery c c') (h' : NoNewDelivery c' c'') :
    NoNewDelivery c c'' := by
  intro r hr hc d'' hd'' ha
  obtain ⟨r', hr', hkeep⟩ := hk r hr
  obtain ⟨d', hd', hid', ha'⟩ := h' r' hr' (hkeep.not_open hc) d'' hd'' (ha.trans hkeep.id.symm)
  obtain ⟨d, hd, hid, ha⟩ := h r hr hc d' hd' (ha'.trans hkeep.id)
  exact ⟨d, hd, hid.trans hid', ha⟩

theorem stamped {f : OutboxRow → Option Nat}
    (h : c'.outbox = c.outbox.map fun d => { d with ackedAt := f d }) : NoNewDelivery c c' := by
  intro r _ _ d' hd' ha
  rw [h] at hd'
  obtain ⟨d, hd, rfl⟩ := List.mem_map.mp hd'
  exact ⟨d, hd, rfl, ha⟩

/-- The row of a delivered signal: an old one, or the signal's own. -/
theorem mem_deliver {room : String} {s : CareSignal} {o : List OutboxRow} {d : OutboxRow}
    (h : d ∈ CareTables.deliver room s o) : d ∈ o ∨ d.attentionId = s.stableId := by
  unfold CareTables.deliver at h
  split at h
  · exact .inl h
  · rcases mem_insertIgnore.mp h with h | ⟨h, -⟩
    · exact .inl h
    · exact .inr (by rw [h])

theorem file (deliveryRoom : String) (s : CareSignal) {c : CareTables}
    (hu : (c.attentions.map AttentionRow.id).Nodup) : NoNewDelivery c (c.writeCare deliveryRoom s) := by
  -- A new delivery comes with a row that is open or new, and ids are unique.
  have hnew : ∀ r ∈ c.attentions, r.isOpen = false → r.id ≠ s.stableId →
      ∀ d ∈ CareTables.deliver deliveryRoom s c.outbox, d.attentionId = r.id →
        ∃ d₀ ∈ c.outbox, d₀.id = d.id ∧ d₀.attentionId = r.id := by
    intro r _ _ hne d hd ha
    rcases mem_deliver hd with hd | hs
    · exact ⟨d, hd, rfl, ha⟩
    · exact absurd (ha.symm.trans hs) hne
  unfold CareTables.writeCare
  split
  · split
    · next hopen =>
      intro r hr hc
      refine hnew r hr hc fun hid => ?_
      obtain ⟨r₀, hr₀, hp⟩ := List.any_eq_true.mp hopen
      simp only [Bool.and_eq_true, decide_eq_true_eq] at hp
      have hsame : r₀ = r := List.inj_on_of_nodup_map hu hr₀ hr (hp.1.trans hid.symm)
      rw [hsame, hc] at hp
      exact absurd hp.2 (by decide)
    · exact refl c
  · next hk =>
    intro r hr hc
    exact hnew r hr hc (hasKey_false.mp (Bool.eq_false_iff.mpr hk) r hr)

end NoNewDelivery

theorem CareStep.rowsKept {c c' : CareTables} (h : CareStep c c') : RowsKept c c' := by
  cases h with
  | retire p now => exact .update rfl fun r _ => .resolve now r
  | unmark room key => exact .refl c
  | cycle room now id =>
      unfold CareTables.resolveCycle
      dsimp only
      split
      · exact .update rfl fun r _ => .resolve now r
      · exact .update rfl fun r _ => .resolve now r
  | @file s _ => exact .file s.room s c
  | mark _ _ => exact .refl c
  | claim id actor now =>
      refine .update rfl fun r hp => ?_
      simp only [Bool.and_eq_true] at hp
      exact .of_open hp.2 rfl
  | resolve id now =>
      unfold CareTables.resolveAttention
      split
      · refine .update rfl fun r hp => ⟨rfl, fun _ => ⟨rfl, rfl, rfl, rfl⟩, fun hr => ?_⟩
        simp only [Bool.and_eq_true, Option.isNone_iff_eq_none] at hp
        rw [hp.2] at hr
        cases hr
      · exact .refl c
  | ack id owner principal now =>
      unfold CareTables.ackCareScoped
      split
      · exact .refl c
      · exact .update rfl fun r _ => ⟨rfl, fun _ => ⟨rfl, rfl, rfl, rfl⟩, fun _ => rfl⟩
  | pause room now => exact .refl c
  | end_ room now => exact .update rfl fun r _ => .resolve now r

/-- A write to the outbox stamps acknowledgements, or files a signal. -/
theorem CareStep.outbox_cases {c c' : CareTables} (h : CareStep c c') :
    (∃ f : OutboxRow → Option Nat, c'.outbox = c.outbox.map fun d => { d with ackedAt := f d }) ∨
      ∃ s : CareSignal, c' = c.writeCare s.room s := by
  have hsame : ∃ f : OutboxRow → Option Nat, c.outbox = c.outbox.map fun d => { d with ackedAt := f d } :=
    ⟨OutboxRow.ackedAt, (List.map_id c.outbox).symm⟩
  have hack : ∀ (p : OutboxRow → Bool) (f : OutboxRow → Option Nat),
      ∃ g : OutboxRow → Option Nat, updateWhere p (fun d => { d with ackedAt := f d }) c.outbox =
        c.outbox.map fun d => { d with ackedAt := g d } := by
    intro p f
    refine ⟨fun d => if p d then f d else d.ackedAt, List.map_congr_left fun d _ => ?_⟩
    cases hp : p d with
    | true => simp [hp]
    | false => simp [hp]
  cases h with
  | retire p now => exact .inl (hack _ fun d => some (d.ackedAt.getD now))
  | unmark room key => exact .inl hsame
  | cycle room now id =>
      unfold CareTables.resolveCycle
      dsimp only
      split
      · exact .inl (hack _ fun d => some (d.ackedAt.getD now))
      · exact .inl (hack _ fun d => some (d.ackedAt.getD now))
  | @file s _ => exact .inr ⟨s, rfl⟩
  | mark _ _ => exact .inl hsame
  | claim id actor now => exact .inl hsame
  | resolve id now =>
      unfold CareTables.resolveAttention
      split
      · exact .inl (hack _ fun d => some (d.ackedAt.getD now))
      · exact .inl hsame
  | ack id owner principal now =>
      unfold CareTables.ackCareScoped
      split
      · exact .inl hsame
      · exact .inl (hack _ fun _ => some now)
  | pause room now => exact .inl (hack _ fun d => some (d.ackedAt.getD now))
  | end_ room now => exact .inl (hack _ fun d => some (d.ackedAt.getD now))

theorem CareStep.noNewDelivery {c c' : CareTables} (h : CareStep c c') (hs : LedgerSound c) :
    NoNewDelivery c c' := by
  rcases h.outbox_cases with ⟨f, hf⟩ | ⟨s, rfl⟩
  · exact .stamped hf
  · exact .file s.room s hs.unique

/-- What the signal says of its delivery is what the row says. -/
theorem CareStep.told {c c' : CareTables} (h : CareStep c c') (ht : ∀ d ∈ c.outbox, d.Told) :
    ∀ d ∈ c'.outbox, d.Told := by
  intro d' hd'
  rcases h.outbox_cases with ⟨f, hf⟩ | ⟨s, rfl⟩
  · rw [hf] at hd'
    obtain ⟨d, hd, rfl⟩ := List.mem_map.mp hd'
    exact ⟨(ht d hd).room, (ht d hd).attention, (ht d hd).principal⟩
  · have hdel : ∀ d ∈ CareTables.deliver s.room s c.outbox, d.Told := by
      intro d hd
      unfold CareTables.deliver at hd
      split at hd
      · exact ht d hd
      · rcases mem_insertIgnore.mp hd with hd | ⟨rfl, -⟩
        · exact ht d hd
        · exact ⟨rfl, rfl, rfl⟩
    unfold CareTables.writeCare at hd'
    split at hd'
    · split at hd'
      · exact hdel d' hd'
      · exact ht d' hd'
    · exact hdel d' hd'

/-! ## Runs -/

/-- Any sequence of writes. -/
theorem CareSteps.lifecycle {c c' : CareTables} (h : CareSteps c c') (hs : LedgerSound c) :
    RowsKept c c' ∧ NoNewDelivery c c' := by
  induction h with
  | refl => exact ⟨.refl c, .refl c⟩
  | tail hsteps hstep ih =>
      obtain ⟨hk, hn⟩ := ih
      have hsound := CareSteps.ledger hsteps hs
      exact ⟨hk.trans hstep.rowsKept, hn.trans hk (hstep.noNewDelivery hsound)⟩

theorem CareSteps.told {c c' : CareTables} (h : CareSteps c c') (ht : ∀ d ∈ c.outbox, d.Told) :
    ∀ d ∈ c'.outbox, d.Told := by
  induction h with
  | refl => exact ht
  | tail _ hstep ih => exact hstep.told ih

theorem run_told {cfg : Config} (hp : cfg.persistent = true) {ok : Server → HubInput → Prop}
    {tr : List (HubInput × HubAnswer)} {s : Server} (r : Sys.Run (hubMachine cfg) ok tr s) :
    ∀ d ∈ s.world.db.care.outbox, d.Told := by
  refine Sys.Run.invariant (I := fun s => ∀ d ∈ s.world.db.care.outbox, d.Told) ?_ ?_ r
  · rintro s ⟨env, clock, rfl⟩
    exact CareSteps.told (build_care cfg env clock {}) fun d hd => by cases hd
  · exact fun s i h _ => CareSteps.told (step_care hp s i) h

/-- The deliveries of a resolved attention are not sent again. -/
theorem not_pending_of_resolved {cfg : Config} {env : Env} {room owner : String}
    {principal : Option String} {w : World} (hl : LedgerSound w.db.care) (ho : OutboxSound w.db.care)
    {r : AttentionRow} (hr : r ∈ w.db.care.attentions) (hres : r.resolvedAt.isSome = true)
    {d : OutboxRow} (hd : d ∈ w.db.care.outbox) (ha : d.attentionId = r.id) :
    ∀ x ∈ w.pendingCareScoped cfg env room owner principal, x.id ≠ d.id := by
  intro x hx hid
  unfold World.pendingCareScoped at hx
  split at hx
  · obtain ⟨hx, -⟩ := List.mem_filter.mp hx
    obtain ⟨hx, -⟩ := List.mem_filter.mp hx
    obtain ⟨d', hd', rfl⟩ := List.mem_map.mp hx
    simp only [CareTables.pendingRows, mem_orderBy, List.mem_filter, Bool.and_eq_true] at hd'
    obtain ⟨hmem, ⟨⟨-, hopen⟩, -⟩⟩ := hd'
    have hsame : d' = d := List.inj_on_of_nodup_map ho.unique hmem hd ((ho.own d' hmem).symm.trans hid)
    rw [hsame, ha, hl.row_eq hr rfl, Option.all_some, Option.isNone_iff_eq_none] at hopen
    rw [hopen] at hres
    cases hres
  · cases hx

/-- In every run on a persistent store, whatever is done later: an attention is still there and
has not moved back; once claimed, its claimer, the time of the claim, its owner and its signal are
what they were and no delivery was added; once resolved, the time of it is what it was and none of
its deliveries is sent again; and every delivery goes to the room its signal names. -/
theorem attention_lifecycle {cfg : Config} (hp : cfg.persistent = true)
    {tr : List (HubInput × HubAnswer)} {s : Server} (hrun : Sys.Run (hubMachine cfg) anyHubInput tr s)
    (is : List HubInput) {s' : Server} (hs' : s' = ((hubMachine cfg).exec is tr s).2) :
    (∀ r ∈ s.world.db.attentions, ∃ r' ∈ s'.world.db.attentions, r'.id = r.id ∧
      ReflTransGen AttentionStatus.Moves r.status r'.status ∧
      (r.claimedAt.isSome = true → r'.claimedBy = r.claimedBy ∧ r'.claimedAt = r.claimedAt ∧
        r'.owner = r.owner ∧ r'.signal = r.signal ∧
        ∀ d' ∈ s'.world.db.careOutbox, d'.attentionId = r.id →
          ∃ d ∈ s.world.db.careOutbox, d.id = d'.id ∧ d.attentionId = r.id) ∧
      (r.resolvedAt.isSome = true → r'.resolvedAt = r.resolvedAt ∧
        ∀ d' ∈ s'.world.db.careOutbox, d'.attentionId = r.id → ∀ env room owner principal,
          ∀ x ∈ s'.world.pendingCareScoped cfg env room owner principal, x.id ≠ d'.id)) ∧
    ∀ d' ∈ s'.world.db.careOutbox, d'.deliveryRoom = d'.signal.room := by
  have hsteps : CareSteps s.world.db.care s'.world.db.care := hs' ▸ exec_care hp is tr s
  have hl := run_ledgerSound hp hrun
  have hl' := CareSteps.ledger hsteps hl
  have ho' := CareSteps.sound hsteps (run_outboxSound hp hrun)
  obtain ⟨hkept, hnew⟩ := CareSteps.lifecycle hsteps hl
  refine ⟨fun r hr => ?_, fun d hd => (CareSteps.told hsteps (run_told hp hrun) d hd).room⟩
  obtain ⟨r', hr', hk⟩ := hkept r hr
  refine ⟨r', hr', hk.id, hk.moves, fun hc => ?_, fun hres => ⟨hk.resolved hres, ?_⟩⟩
  · obtain ⟨hby, hat, howner, hsignal⟩ := hk.claimed hc
    refine ⟨hby, hat, howner, hsignal, hnew r hr ?_⟩
    simp [AttentionRow.isOpen, ← Option.not_isSome, hc]
  · intro d' hd' ha env room owner principal
    have hres' : r'.resolvedAt.isSome = true := by rw [hk.resolved hres]; exact hres
    exact not_pending_of_resolved hl' ho' hr' hres' hd' (ha.trans hk.id.symm)

/-- `ann` claims the reminder; then the lead changes and the scheduler runs again. -/
def claimedInputs : List HubInput :=
  remindedInputs ++ [.call (sampleEnv 250000 fun _ => false)
    (.claimAttention "den" "attention:den:wait:bob:2000" "ann")]

def claimedServer : Server := ((hubMachine sampleConfig).exec claimedInputs [] sampleServer).2

theorem attention_lifecycle_sample :
    claimedServer.world.db.attentions.map (fun r => (r.id, r.claimedBy, r.status)) =
        [("attention:den:wait:bob:2000", some "ann", .claimed)] ∧
      ∀ is, ∃ r ∈ ((hubMachine sampleConfig).exec is
          ((hubMachine sampleConfig).exec claimedInputs [] sampleServer).1 claimedServer).2.world.db.attentions,
        r.id = "attention:den:wait:bob:2000" ∧ r.claimedBy = some "ann" ∧ r.owner = some "ann" := by
  refine ⟨by decide +kernel, fun is => ?_⟩
  have hrow : ∃ r ∈ claimedServer.world.db.attentions, r.id = "attention:den:wait:bob:2000" ∧
      r.claimedBy = some "ann" ∧ r.owner = some "ann" ∧ r.claimedAt.isSome = true := by decide +kernel
  obtain ⟨r, hr, hid, hby, howner, hc⟩ := hrow
  obtain ⟨r', hr', hid', -, hkeep, -⟩ :=
    (attention_lifecycle rfl (sampleServer_run claimedInputs) is rfl).1 r hr
  obtain ⟨hby', -, howner', -⟩ := hkeep hc
  exact ⟨r', hr', hid'.trans hid, hby'.trans hby, howner'.trans howner⟩

end Loca
