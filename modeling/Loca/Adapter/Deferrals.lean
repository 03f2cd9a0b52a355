/-
# `Loca.Adapter.Deferrals` — how often an attention is put off before it is given up

`defer_attention` gives an attention up when its `attempts` column reaches eight.  The column is
shared: an acceptance and a control raise it as well, and no requeue sets it back.  So it counts the
deferrals since the attention last became pending only where it was zero then.

What a call can do to one row is said once (`effect_row`).  A watch beside the store counts the
rejections of one attention since it last became pending and lists its waits; along every run the
column is what was carried in plus what was counted (`Watch.Counted`), which decides when giving up
is fair.
-/
import Loca.Adapter.Store

namespace Loca.Adapter

open Check Table

/-! ## The attempts column -/

/-- Neither accepted nor terminal. -/
def Attention.waiting (a : Attention) : Bool := a.acceptedAtMs.isNone && a.terminalStatus.isNone

def Attention.charge (a : Attention) : String × Nat := (a.attentionId, a.attempts)

/-- The attention whose attempts a call may raise. -/
def Mutation.charges : Mutation → Option String
  | .markAccepted a _ _ => some a
  | .finalizeDispatch a _ _ _ => some a
  | .deferAttention a _ _ => some a
  | .cancelPendingBeforeControl control _ => some control
  | .closeRoomForControl control _ => some control
  | _ => none

section

variable {l l' : Ledger} {f : Fence} {x : String}

theorem updateAttentions_charge {p : Attention → Bool} {g : Attention → Attention} (hg : ∀ r, (g r).charge = r.charge)
    (l : Ledger) : (l.updateAttentions p g).attentions.map Attention.charge = l.attentions.map Attention.charge :=
  map_key_updateWhere hg l.attentions

theorem requeueTurn_charge {back : Attention → Attention} (hb : ∀ r, (back r).charge = r.charge) (reason : String)
    (now : Int) (acc : Nat × Ledger) (turnId : String) :
    (Ledger.requeueTurn back reason now acc turnId).2.attentions.map Attention.charge =
      acc.2.attentions.map Attention.charge := by
  unfold Ledger.requeueTurn
  dsimp only
  split
  · rfl
  · exact updateAttentions_charge hb _

theorem interruptAttention_charge (turnId reason : String) (now : Int) (acc : Nat × Ledger) (a : Attention) :
    (Ledger.interruptAttention turnId reason now acc a).2.attentions.map Attention.charge =
      acc.2.attentions.map Attention.charge := by
  unfold Ledger.interruptAttention
  split
  · exact updateAttentions_charge (by exact fun _ => rfl) _
  · exact updateAttentions_charge (by exact fun _ => rfl) _

/-- An interruption, a requeue, a recovery or a relay raises no attempts. -/
theorem effect_charge {m : Mutation} (hm : m.charges = none) :
    (m.effect f l).attentions.map Attention.charge = l.attentions.map Attention.charge := by
  cases m <;> simp only [Mutation.effect]
  case markAccepted => cases hm
  case finalizeDispatch => cases hm
  case deferAttention => cases hm
  case cancelPendingBeforeControl => cases hm
  case closeRoomForControl => cases hm
  case prepareDispatch => split <;> rfl
  case retryUnobservedDispatch =>
    split
    · rfl
    · exact updateAttentions_charge (by exact fun _ => rfl) _
  case adoptRecoveredTurn =>
    split
    · rfl
    · exact updateAttentions_charge (by exact fun _ => rfl) _
  case reapStaleTurnsAfterRecovery =>
    refine foldl_view (fun l : Ledger => l.attentions.map Attention.charge) ?_ _ l
    exact fun _ _ => updateAttentions_charge (by exact fun _ => rfl) _
  case requeueMissingThread =>
    refine foldl_view (fun acc : Nat × Ledger => acc.2.attentions.map Attention.charge) ?_ _ (0, l)
    exact fun acc t => requeueTurn_charge (by exact fun _ => rfl) _ _ acc t
  case requeueMissingTurn =>
    split
    · exact requeueTurn_charge (by exact fun _ => rfl) _ _ (0, l) _
    · rfl
  case interruptTurnForControl =>
    split
    · refine foldl_view (fun acc : Nat × Ledger => acc.2.attentions.map Attention.charge) ?_ _ (0, _)
      exact fun acc a => interruptAttention_charge _ _ _ acc a
    · rfl
  case retireLegacyContext =>
    split
    · rfl
    · split
      · rfl
      · exact updateAttentions_charge (by exact fun _ => rfl) _
  case createRelayItem => split <;> rfl
  case markRelayFailed => split <;> rfl
  case markRelayAccepted =>
    split
    · rfl
    · refine foldl_view (fun l : Ledger => l.attentions.map Attention.charge) ?_ _ _
      exact fun _ _ => updateAttentions_charge (by exact fun _ => rfl) _
  case markTurnNoReply =>
    split
    · rfl
    · exact updateAttentions_charge (by exact fun _ => rfl) _
  case markTurnCompleted =>
    split
    · unfold Ledger.completeTurn
      dsimp only
      split
      · exact updateAttentions_charge (by exact fun _ => rfl) _
      · exact updateAttentions_charge (by exact fun _ => rfl) _
    · rfl

/-! ## One row, from before a call to after it -/

/-- The attempts stay, or they are one more and the attention is accepted. -/
def Attention.Steady (a b : Attention) : Prop :=
  b.attempts = a.attempts ∨ b.attempts = a.attempts + 1 ∧ b.acceptedAtMs.isSome

theorem attention?_charge (h : l'.attentions.map Attention.charge = l.attentions.map Attention.charge) :
    (l'.attention? x).map Attention.charge = (l.attention? x).map Attention.charge := by
  have hfind := congrArg (List.find? fun c : String × Nat => decide (c.1 = x)) h
  rw [List.find?_map, List.find?_map] at hfind
  exact hfind

theorem attention?_update {p : Attention → Bool} {g : Attention → Attention}
    (hg : ∀ r, (g r).attentionId = r.attentionId) (l : Ledger) (x : String) :
    (l.updateAttentions p g).attention? x = (l.attention? x).map fun r => if p r then g r else r :=
  find?_updateWhere fun r _ => by rw [hg r]

theorem attention?_linkTurn (turnId c : String) (l : Ledger) (x : String) :
    (l.linkTurn turnId c).attention? x = l.attention? x := by
  unfold Ledger.attention?
  rw [linkTurn_attentions]

theorem row_of_charge {a : Attention} (h : l'.attentions.map Attention.charge = l.attentions.map Attention.charge)
    (ha : l.attention? x = some a) : ∃ b, l'.attention? x = some b ∧ a.Steady b := by
  have hx := attention?_charge (x := x) h
  rw [ha, Option.map_some] at hx
  obtain ⟨b, hb, hc⟩ := Option.map_eq_some_iff.mp hx
  exact ⟨b, hb, .inl (congrArg Prod.snd hc)⟩

theorem acceptId_row {a : Attention} (c t u : String) (ha : l.attention? x = some a) :
    ∃ b, (l.acceptId f c t u).attention? x = some b ∧ a.Steady b := by
  unfold Ledger.acceptId
  split
  · exact ⟨a, ha, .inl rfl⟩
  · next row _ =>
      have hturns : ∀ turns, ({ l with turns := turns } : Ledger).attention? x = some a := fun _ => ha
      unfold Ledger.accept
      rw [attention?_update (by exact fun _ => rfl), attention?_linkTurn, hturns, Option.map_some]
      refine ⟨_, rfl, ?_⟩
      split
      · exact .inr ⟨rfl, rfl⟩
      · exact .inl rfl

/-- The delay of a call that defers the attention. -/
def Mutation.defers (x : String) : Mutation → Option Int
  | .deferAttention a _ delayMs => if a = x then some delayMs else none
  | _ => none

theorem effect_deferred {a : Attention} (reason : String) (d : Int) (ha : l.attention? x = some a) :
    ((Mutation.deferAttention x reason d).effect f l).attention? x = some (a.deferred reason d a.attempts f.now) := by
  simp only [Mutation.effect, ha]
  rw [attention?_update (fun r => congrArg Prod.fst (deferred_fixed reason d a.attempts f.now r)), ha, Option.map_some,
    if_pos (decide_eq_true (attention_some ha).2)]

/-- A call that does not defer the attention leaves its attempts, or accepts it with one more. -/
theorem effect_steady {a : Attention} {m : Mutation} (hm : m.defers x = none) (ha : l.attention? x = some a) :
    ∃ b, (m.effect f l).attention? x = some b ∧ a.Steady b := by
  have hquiet : m.charges = none → ∃ b, (m.effect f l).attention? x = some b ∧ a.Steady b :=
    fun hm => row_of_charge (effect_charge hm) ha
  cases m with
  | markAccepted c t u => exact acceptId_row c t u ha
  | finalizeDispatch c t u reconciled => exact acceptId_row c t u ha
  | deferAttention c reason d =>
      have hc : ¬ c = x := fun hc => by simp [Mutation.defers, hc] at hm
      simp only [Mutation.effect]
      split
      · exact ⟨a, ha, .inl rfl⟩
      · next row _ =>
          have hne : ¬ a.attentionId = c := fun he => hc (he.symm.trans (attention_some ha).2)
          rw [attention?_update (fun r => congrArg Prod.fst (deferred_fixed reason d row.attempts f.now r)), ha,
            Option.map_some, if_neg (by simpa using hne)]
          exact ⟨a, rfl, .inl rfl⟩
  | cancelPendingBeforeControl control reason =>
      simp only [Mutation.effect]
      split
      · exact ⟨a, ha, .inl rfl⟩
      · rw [attention?_update (by exact fun _ => rfl), attention?_update (by exact fun _ => rfl), ha, Option.map_some,
          Option.map_some]
        refine ⟨_, rfl, ?_⟩
        split <;> split
        · exact .inr ⟨rfl, rfl⟩
        · exact .inl rfl
        · exact .inr ⟨rfl, rfl⟩
        · exact .inl rfl
  | closeRoomForControl control reason =>
      simp only [Mutation.effect]
      split
      · exact ⟨a, ha, .inl rfl⟩
      · next c _ =>
          have hrows : (l.closeRoom f c reason).attention? x = ((l.updateAttentions (Ledger.closedBy c) fun r =>
              { r with
                turnCompletedAtMs := some (r.turnCompletedAtMs.getD f.now),
                terminalStatus := some .cancelled, terminalReason := some reason }).updateAttentions
              (fun r => r.attentionId = c.attentionId) fun r =>
              { r with
                acceptedAtMs := some (r.acceptedAtMs.getD f.now), leaseEpoch := some f.epoch,
                attempts := r.attempts + 1 }).attention? x := rfl
          rw [hrows, attention?_update (by exact fun _ => rfl), attention?_update (by exact fun _ => rfl), ha,
            Option.map_some, Option.map_some]
          refine ⟨_, rfl, ?_⟩
          split <;> split
          · exact .inr ⟨rfl, rfl⟩
          · exact .inl rfl
          · exact .inr ⟨rfl, rfl⟩
          · exact .inl rfl
  | _ => exact hquiet rfl

/-! ## Deferrals -/

/-- How long a positive delay waits after a number of attempts. -/
def backoff (delayMs : Int) (attempts : Nat) : Int := min deferMaxDelayMs (delayMs * 2 ^ attempts)

theorem backoff_le (d : Int) (k : Nat) : backoff d k ≤ deferMaxDelayMs := Int.min_le_left ..

theorem backoff_mono {d : Int} (hd : 0 ≤ d) {j k : Nat} (h : j ≤ k) : backoff d j ≤ backoff d k := by
  have hpow : (2 : Int) ^ j ≤ 2 ^ k := by exact_mod_cast Nat.pow_le_pow_right (by decide : 0 < 2) h
  have hmul : d * 2 ^ j ≤ d * 2 ^ k := Int.mul_le_mul_of_nonneg_left hpow hd
  unfold backoff
  omega

variable {reason : String} {d now : Int} {a : Attention}

theorem deferred_now (hd : d ≤ 0) : a.deferred reason d a.attempts now =
    { a with nextAttemptAtMs := now + d, terminalReason := some reason } := if_pos hd

theorem deferred_failed (hd : 0 < d) (hc : deferMaxAttempts ≤ a.attempts + 1) :
    (a.deferred reason d a.attempts now).terminalStatus = some .failed ∧
      (a.deferred reason d a.attempts now).attempts = a.attempts + 1 := by
  unfold Attention.deferred
  dsimp only
  rw [if_neg (by omega), if_pos hc]
  exact ⟨rfl, rfl⟩

theorem deferred_later (hd : 0 < d) (hc : a.attempts + 1 < deferMaxAttempts) : a.deferred reason d a.attempts now =
    { a with
      attempts := a.attempts + 1, nextAttemptAtMs := now + backoff d a.attempts,
      terminalReason := some reason } := by
  unfold Attention.deferred
  dsimp only
  rw [if_neg (by omega), if_neg (by omega)]
  rfl

end

/-! ## The watch -/

/-- The delay and the fence of a call that defers the attention. -/
def StoreInput.defers (x : String) : StoreInput → Option (Int × Fence)
  | .call (.mutate m f) _ => (m.defers x).map fun d => (d, f)
  | _ => none

/-- A deferral that was carried out and asked for a delay. -/
def StoreInput.rejects (x : String) (i : StoreInput) (o : Except Fault Reply) : Option (Int × Fence) :=
  if o.isOk then (i.defers x).filter fun d => 0 < d.1 else none

def Ledger.isWaiting (x : String) (l : Ledger) : Bool := (l.attention? x).any Attention.waiting

def Ledger.hasFailed (x : String) (l : Ledger) : Bool := (l.attention? x).any fun a => a.terminalStatus = some .failed

def Ledger.attemptsOf (x : String) (l : Ledger) : Nat := ((l.attention? x).map Attention.attempts).getD 0

/-- How far off the next attempt has been put, unless the attention has been given up. -/
def waitLeft (x : String) (now : Int) (l l' : Ledger) : Option Int :=
  match l.attention? x, l'.attention? x with
  | some _, some b => if b.terminalStatus = some .failed then none else some (b.nextAttemptAtMs - now)
  | _, _ => none

/-- The ledger, and what can be seen of one attention from outside: the attempts it had when it last
became pending, its rejections since, and all its delays with the waits they led to, latest first. -/
structure Watch where
  ledger : Ledger := {}
  carried : Nat := 0
  rejections : Nat := 0
  waits : List (Int × Int) := []

def Watch.step (py : Python) (x : String) (w : Watch) (i : StoreInput) : Except Fault Reply × Watch :=
  let s := w.ledger.storeStep py i
  let rejected := i.rejects x s.1
  let back := !w.ledger.isWaiting x && s.2.isWaiting x
  (s.1, {
    ledger := s.2
    carried := if back then s.2.attemptsOf x else w.carried
    rejections := if back then 0 else w.rejections + if rejected.isSome && w.ledger.isWaiting x then 1 else 0
    waits := (rejected.bind fun r => (waitLeft x r.2.now w.ledger s.2).map fun wait => (r.1, wait)).toList ++ w.waits })

def watchMachine (py : Python) (x : String) : Sys.Machine Watch StoreInput (Except Fault Reply) where
  init w := w = {}
  step := Watch.step py x

section

variable {py : Python} {x : String} {l : Ledger} {i : StoreInput} {a : Attention}

theorem rejects_ok {m : Mutation} {f : Fence} {crashed : Bool} {r : Reply} {d : Int} (hd : m.defers x = some d) :
    StoreInput.rejects x (.call (.mutate m f) crashed) (.ok r) = if 0 < d then some (d, f) else none := by
  have hok : (Except.ok r : Except Fault Reply).isOk = true := rfl
  simp [StoreInput.rejects, StoreInput.defers, hd, hok, Option.filter]

theorem defers_some {m : Mutation} {d : Int} (hd : m.defers x = some d) : ∃ reason, m = .deferAttention x reason d := by
  cases m with
  | deferAttention c reason d' =>
      simp only [Mutation.defers] at hd
      split at hd
      · next hc =>
          cases hd
          exact ⟨reason, by rw [hc]⟩
      · cases hd
  | _ => cases hd

/-- What one step does to the attention: a rejection puts it off or fails it, anything else leaves its attempts
or accepts it. -/
theorem step_row (py : Python) (i : StoreInput) (ha : l.attention? x = some a) :
    ∃ b, (l.storeStep py i).2.attention? x = some b ∧
      (i.rejects x (l.storeStep py i).1 = none ∧ a.Steady b ∨
        ∃ reason d f, i.rejects x (l.storeStep py i).1 = some (d, f) ∧ 0 < d ∧
          b = a.deferred reason d a.attempts f.now) := by
  rcases storeStep_cases py l i with ⟨e, hs⟩ | ⟨hm, hf⟩ | ⟨m, f, crashed, r, rfl, hs⟩
  · rw [hs]
    exact ⟨a, ha, .inl ⟨rfl, .inl rfl⟩⟩
  · obtain ⟨new, he, -⟩ := hf.attentions
    refine ⟨a, ?_, .inl ⟨?_, .inl rfl⟩⟩
    · unfold Ledger.attention? at ha ⊢
      rw [he, List.find?_append, ha, Option.some_or]
    · have hd : i.defers x = none := by
        cases i with
        | call c crashed => cases c <;> first | rfl | cases hm
        | ingest path identity now file crashed => rfl
      simp [StoreInput.rejects, hd]
  · rw [hs]
    cases hd : m.defers x with
    | none =>
        obtain ⟨b, hb, hsteady⟩ := effect_steady (f := f) hd ha
        exact ⟨b, hb, .inl ⟨by simp [StoreInput.rejects, StoreInput.defers, hd], hsteady⟩⟩
    | some d =>
        obtain ⟨reason, rfl⟩ := defers_some hd
        refine ⟨_, effect_deferred reason d ha, ?_⟩
        rw [rejects_ok hd]
        by_cases hpos : 0 < d
        · exact .inr ⟨reason, d, f, if_pos hpos, hpos, rfl⟩
        · rw [deferred_now (by omega)]
          exact .inl ⟨if_neg hpos, .inl rfl⟩

/-- A deferral that the lease allows and no crash ends is carried out. -/
theorem defer_isOk {reason : String} {d : Int} {f : Fence} {crashed : Bool} (ha : l.attention? x = some a) :
    (l.storeStep py (.call (.mutate (.deferAttention x reason d) f) crashed)).1.isOk ↔
      crashed = false ∧ l.fenced a.identity f = .ok () := by
  cases crashed with
  | true => simp [Ledger.storeStep, Ledger.step, atomically, Except.isOk, Except.toBool]
  | false =>
      cases hf : l.fenced a.identity f <;>
        simp [Ledger.storeStep, Ledger.step, atomically, LedgerCall.run, Mutation.run, Adapter.deferAttention, ha, hf,
          answer, Except.map, Except.isOk, Except.toBool]

/-! ## Counting -/

/-- What the watch counts, against the row. -/
structure Watch.Counted (x : String) (w : Watch) : Prop where
  count : ∀ a, w.ledger.attention? x = some a → a.waiting → a.attempts = w.carried + w.rejections
  young : ∀ a, w.ledger.attention? x = some a → a.waiting → w.rejections = 0 ∨ a.attempts < deferMaxAttempts
  waits : ∀ e ∈ w.waits, 0 < e.1 ∧ ∃ a k, w.ledger.attention? x = some a ∧ k < a.attempts ∧ e.2 = backoff e.1 k
  steady : w.waits.Pairwise fun later earlier => later.1 = earlier.1 → earlier.2 ≤ later.2

variable {w : Watch} {b : Attention}

theorem isWaiting_some (ha : l.attention? x = some a) : l.isWaiting x = a.waiting := by
  simp [Ledger.isWaiting, ha]

theorem watch_quiet (ha : w.ledger.attention? x = some a) (hb : (w.ledger.storeStep py i).2.attention? x = some b)
    (hr : i.rejects x (w.ledger.storeStep py i).1 = none) : (w.step py x i).2 =
      { ledger := (w.ledger.storeStep py i).2
        carried := if !a.waiting && b.waiting then b.attempts else w.carried
        rejections := if !a.waiting && b.waiting then 0 else w.rejections
        waits := w.waits } := by
  simp [Watch.step, hr, isWaiting_some ha, isWaiting_some hb, Ledger.attemptsOf, hb]

theorem watch_rejected {d : Int} {f : Fence} (ha : w.ledger.attention? x = some a)
    (hb : (w.ledger.storeStep py i).2.attention? x = some b)
    (hr : i.rejects x (w.ledger.storeStep py i).1 = some (d, f)) : (w.step py x i).2 =
      { ledger := (w.ledger.storeStep py i).2
        carried := if !a.waiting && b.waiting then b.attempts else w.carried
        rejections := if !a.waiting && b.waiting then 0 else w.rejections + if a.waiting then 1 else 0
        waits := (if b.terminalStatus = some .failed then [] else [(d, b.nextAttemptAtMs - f.now)]) ++ w.waits } := by
  have hw : waitLeft x f.now w.ledger (w.ledger.storeStep py i).2 =
      if b.terminalStatus = some .failed then none else some (b.nextAttemptAtMs - f.now) := by
    simp only [waitLeft, ha, hb]
  simp only [Watch.step, hr, isWaiting_some ha, isWaiting_some hb, Ledger.attemptsOf, hb, hw, Option.map_some,
    Option.getD_some, Option.isSome_some, Bool.true_and, Option.bind_some]
  by_cases ht : b.terminalStatus = some .failed
  · rw [if_pos ht, if_pos ht]
    rfl
  · rw [if_neg ht, if_neg ht]
    rfl

theorem waiting_of_failed (h : a.terminalStatus = some .failed) : a.waiting = false := by
  simp [Attention.waiting, h]

theorem deferred_waiting {reason : String} {d now : Int} (hd : 0 < d) (hc : a.attempts + 1 < deferMaxAttempts) :
    (a.deferred reason d a.attempts now).waiting = a.waiting := by
  rw [deferred_later hd hc]
  rfl

/-- A rejection below the ceiling: one more attempt, one more wait, and the attention waits as it did. -/
theorem watch_later {reason : String} {d : Int} {f : Fence} (ha : w.ledger.attention? x = some a)
    (hb : (w.ledger.storeStep py i).2.attention? x = some (a.deferred reason d a.attempts f.now))
    (hr : i.rejects x (w.ledger.storeStep py i).1 = some (d, f)) (hd : 0 < d)
    (hc : a.attempts + 1 < deferMaxAttempts) : (w.step py x i).2 =
      { ledger := (w.ledger.storeStep py i).2
        carried := w.carried
        rejections := w.rejections + if a.waiting then 1 else 0
        waits := (if a.terminalStatus = some .failed then [] else [(d, backoff d a.attempts)]) ++ w.waits } := by
  rw [watch_rejected ha hb hr, deferred_waiting hd hc, Bool.not_and_self, deferred_later hd hc]
  dsimp only
  rw [show f.now + backoff d a.attempts - f.now = backoff d a.attempts from by omega]
  rfl

theorem Attention.Steady.le (h : a.Steady b) : a.attempts ≤ b.attempts := by
  rcases h with h | ⟨h, -⟩ <;> omega

/-- What still waits has not been accepted, so its attempts are the same. -/
theorem Attention.Steady.of_waiting (h : a.Steady b) (hb : b.waiting) : b.attempts = a.attempts := by
  rcases h with h | ⟨-, hacc⟩
  · exact h
  · simp only [Attention.waiting, Bool.and_eq_true, Option.isNone_iff_eq_none] at hb
    rw [hb.1] at hacc
    cases hacc

/-- The waits that were there are still below the attempts, which never go down. -/
theorem Watch.Counted.waits_le (h : w.Counted x) (ha : w.ledger.attention? x = some a) (hab : a.attempts ≤ b.attempts) :
    ∀ e ∈ w.waits, 0 < e.1 ∧ ∃ k, k < b.attempts ∧ e.2 = backoff e.1 k := by
  intro e he
  obtain ⟨hpos, a', k, ha', hk, hwait⟩ := h.waits e he
  rw [ha, Option.some.injEq] at ha'
  subst ha'
  exact ⟨hpos, k, by omega, hwait⟩

/-- A step that rejects nothing keeps the count. -/
theorem Watch.Counted.quiet (h : w.Counted x) (ha : w.ledger.attention? x = some a)
    (hb : (w.ledger.storeStep py i).2.attention? x = some b)
    (hr : i.rejects x (w.ledger.storeStep py i).1 = none) (hab : a.Steady b) : (w.step py x i).2.Counted x := by
  rw [watch_quiet ha hb hr]
  refine ⟨?_, ?_, ?_, h.steady⟩
  · intro c hc hwait
    rw [hb, Option.some.injEq] at hc
    subst hc
    cases hwas : a.waiting with
    | false => simp [hwait]
    | true => simpa [hab.of_waiting hwait] using h.count a ha hwas
  · intro c hc hwait
    rw [hb, Option.some.injEq] at hc
    subst hc
    cases hwas : a.waiting with
    | false => simp [hwait]
    | true => simpa [hab.of_waiting hwait] using h.young a ha hwas
  · intro e he
    obtain ⟨hpos, k, hk, hwait⟩ := h.waits_le ha hab.le e he
    exact ⟨hpos, b, k, hb, hk, hwait⟩

/-- So does a rejection: it is counted while the attention waits, and it ends the waiting at the ceiling. -/
theorem Watch.Counted.rejected {reason : String} {d : Int} {f : Fence} (h : w.Counted x)
    (ha : w.ledger.attention? x = some a)
    (hb : (w.ledger.storeStep py i).2.attention? x = some (a.deferred reason d a.attempts f.now))
    (hr : i.rejects x (w.ledger.storeStep py i).1 = some (d, f)) (hd : 0 < d) : (w.step py x i).2.Counted x := by
  by_cases hc : deferMaxAttempts ≤ a.attempts + 1
  · obtain ⟨hstatus, hattempts⟩ := @deferred_failed reason d f.now a hd hc
    rw [watch_rejected ha hb hr, if_pos hstatus]
    have hover : ∀ c, (w.ledger.storeStep py i).2.attention? x = some c → ¬ c.waiting := by
      intro c hc' hwait
      rw [hb, Option.some.injEq] at hc'
      subst hc'
      rw [waiting_of_failed hstatus] at hwait
      cases hwait
    refine ⟨fun c hc' hwait => absurd hwait (hover c hc'), fun c hc' hwait => absurd hwait (hover c hc'), ?_, h.steady⟩
    intro e he
    obtain ⟨hpos, k, hk, hwait⟩ := h.waits_le ha (Nat.le_of_succ_le (Nat.le_of_eq hattempts.symm)) e he
    exact ⟨hpos, _, k, hb, hk, hwait⟩
  · have hlow : a.attempts + 1 < deferMaxAttempts := by omega
    rw [watch_later ha hb hr hd hlow]
    rw [deferred_later hd hlow] at hb
    have hone : ∀ c, (w.ledger.storeStep py i).2.attention? x = some c →
        c.attempts = a.attempts + 1 ∧ c.waiting = a.waiting := by
      intro c hc'
      rw [hb, Option.some.injEq] at hc'
      subst hc'
      exact ⟨rfl, rfl⟩
    refine ⟨?_, ?_, ?_, ?_⟩
    · intro c hc' hwait
      obtain ⟨hc1, hwas⟩ := hone c hc'
      rw [hwas] at hwait
      have := h.count a ha hwait
      simp only [hwait, if_true]
      omega
    · intro c hc' _
      have := (hone c hc').1
      exact .inr (by omega)
    · intro e he
      refine (List.mem_append.mp he).elim (fun hnew => ?_) fun hold => ?_
      · split at hnew
        · cases hnew
        · rw [List.mem_singleton.mp hnew]
          exact ⟨hd, _, a.attempts, hb, Nat.lt_succ_self _, rfl⟩
      · obtain ⟨hpos, a', k, ha', hk, hwait⟩ := h.waits e hold
        rw [ha, Option.some.injEq] at ha'
        subst ha'
        exact ⟨hpos, _, k, hb, Nat.lt_succ_of_lt hk, hwait⟩
    · dsimp only
      split
      · exact h.steady
      · refine List.Pairwise.cons (fun e he heq => ?_) h.steady
        obtain ⟨hpos, a', k, ha', hk, hwait⟩ := h.waits e he
        rw [ha, Option.some.injEq] at ha'
        subst ha'
        rw [hwait, ← show d = e.1 from heq]
        exact backoff_mono (by omega) (by omega)

/-- What one step preserves. -/
theorem Watch.Counted.step (h : w.Counted x) (py : Python) (i : StoreInput) : (w.step py x i).2.Counted x := by
  cases ha : w.ledger.attention? x with
  | some a =>
      obtain ⟨b, hb, ⟨hr, hab⟩ | ⟨reason, d, f, hr, hd, rfl⟩⟩ := step_row py i ha
      · exact h.quiet ha hb hr hab
      · exact h.rejected ha hb hr hd
  | none =>
      -- the attention is not there yet: nothing is counted, and no wait is left
      have hnone : w.ledger.isWaiting x = false := by simp [Ledger.isWaiting, ha]
      have hwaits : (w.step py x i).2.waits = [] := by
        have hold : w.waits = [] := by
          refine List.eq_nil_iff_forall_not_mem.mpr fun e he => ?_
          obtain ⟨-, a, k, ha', -⟩ := h.waits e he
          rw [ha] at ha'
          cases ha'
        have hleft : ∀ now l', waitLeft x now w.ledger l' = none := fun now l' => by simp only [waitLeft, ha]
        simp [Watch.step, hold, hleft]
      refine ⟨?_, ?_, by simp [hwaits], by simp [hwaits]⟩
      · intro b hb hwait
        have hb' : (w.ledger.storeStep py i).2.attention? x = some b := hb
        simp [Watch.step, hnone, isWaiting_some hb', hwait, Ledger.attemptsOf, hb']
      · intro b hb hwait
        have hb' : (w.ledger.storeStep py i).2.attention? x = some b := hb
        exact .inl (by simp [Watch.step, hnone, isWaiting_some hb', hwait])

theorem counted_start (x : String) : ({} : Watch).Counted x :=
  ⟨fun _ h => (nomatch h), fun _ h => (nomatch h), fun _ h => (nomatch h), List.Pairwise.nil⟩

/-- What a whole run preserves. -/
theorem run_counted {ok : Watch → StoreInput → Prop} {tr : List (StoreInput × Except Fault Reply)}
    (r : Sys.Run (watchMachine py x) ok tr w) : w.Counted x := by
  refine Sys.Run.invariant (I := Watch.Counted x) ?_ (fun w i h _ => h.step py i) r
  intro w hw
  obtain rfl : w = {} := hw
  exact counted_start x

end

/-! ## When giving up is fair -/

/-- What a step of the store may do to the attention that is watched. -/
structure DeferLaw (py : Python) (x : String) (w : Watch) (i : StoreInput) : Prop where
  /-- A deferral fails it only after the ceiling's number of rejections since it last became pending. -/
  failed : (i.defers x).isSome → ¬ w.ledger.hasFailed x → (w.step py x i).2.ledger.hasFailed x →
    deferMaxAttempts ≤ (w.step py x i).2.rejections
  /-- An immediate one costs nothing. -/
  immediate : ∀ d f, i.defers x = some (d, f) → d ≤ 0 → ∀ a, w.ledger.attention? x = some a →
    ∃ b, (w.step py x i).2.ledger.attention? x = some b ∧ b.attempts = a.attempts ∧ b.terminalStatus = a.terminalStatus
  /-- The waits are bounded, and at the same delay they never get shorter. -/
  bounded : ∀ e ∈ (w.step py x i).2.waits, e.2 ≤ deferMaxDelayMs
  steady : (w.step py x i).2.waits.Pairwise fun later earlier => later.1 = earlier.1 → earlier.2 ≤ later.2

/-- A deferral that is carried out at the ceiling meets an attention that became pending with no attempts,
or that is no longer pending and had been rejected often enough. -/
def Watch.Fair (x : String) (w : Watch) (i : StoreInput) : Prop :=
  ∀ reason d f a, i = .call (.mutate (.deferAttention x reason d) f) false → w.ledger.attention? x = some a →
    w.ledger.fenced a.identity f = .ok () → 0 < d → deferMaxAttempts ≤ a.attempts + 1 →
    a.terminalStatus ≠ some .failed → if a.waiting then w.carried = 0 else deferMaxAttempts ≤ w.rejections

section

variable {py : Python} {x : String} {l : Ledger} {i : StoreInput} {a : Attention} {w : Watch}

theorem deferral_cases {d : Int} {f : Fence} (hi : i.defers x = some (d, f)) : ∃ reason crashed,
    i = .call (.mutate (.deferAttention x reason d) f) crashed ∧ ((∃ e, l.storeStep py i = (.error e, l)) ∨
      ∃ r, l.storeStep py i = (.ok r, (Mutation.deferAttention x reason d).effect f l)) := by
  obtain ⟨m, crashed, rfl, hm⟩ : ∃ m crashed, i = .call (.mutate m f) crashed ∧ m.defers x = some d := by
    cases i with
    | ingest path identity now file crashed => cases hi
    | call c crashed =>
        cases c with
        | mutate m f' =>
            obtain ⟨d', hm, he⟩ := Option.map_eq_some_iff.mp hi
            cases he
            exact ⟨m, crashed, rfl, hm⟩
        | _ => cases hi
  obtain ⟨reason, rfl⟩ := defers_some hm
  refine ⟨reason, crashed, rfl, ?_⟩
  rcases storeStep_cases py l (.call (.mutate (.deferAttention x reason d) f) crashed) with he | ⟨hno, -⟩ |
    ⟨m', f', crashed', r, heq, hs⟩
  · exact .inl he
  · cases hno
  · cases heq
    exact .inr ⟨r, hs⟩

theorem hasFailed_some (ha : l.attention? x = some a) : l.hasFailed x = true ↔ a.terminalStatus = some .failed := by
  simp [Ledger.hasFailed, ha]

/-- A deferral that gives the attention up counts if it was still waiting. -/
theorem watch_failed {reason : String} {d : Int} {f : Fence} (ha : w.ledger.attention? x = some a)
    (hb : (w.ledger.storeStep py i).2.attention? x = some (a.deferred reason d a.attempts f.now))
    (hr : i.rejects x (w.ledger.storeStep py i).1 = some (d, f)) (hd : 0 < d)
    (hc : deferMaxAttempts ≤ a.attempts + 1) :
    (w.step py x i).2.rejections = w.rejections + if a.waiting then 1 else 0 := by
  have hstatus := (@deferred_failed reason d f.now a hd hc).1
  rw [watch_rejected ha hb hr, waiting_of_failed hstatus, Bool.and_false]
  rfl

/-- At the ceiling, enough rejections and nothing carried in are the same. -/
theorem Watch.Counted.enough_iff (h : w.Counted x) (ha : w.ledger.attention? x = some a)
    (hc : deferMaxAttempts ≤ a.attempts + 1) :
    (deferMaxAttempts ≤ w.rejections + if a.waiting then 1 else 0) ↔
      if a.waiting then w.carried = 0 else deferMaxAttempts ≤ w.rejections := by
  cases hw : a.waiting with
  | false => simp
  | true =>
      have hcount := h.count a ha hw
      have hyoung := h.young a ha hw
      simp only [if_true]
      unfold deferMaxAttempts at *
      omega

/-- A positive deferral that is carried out: the row after it, and that the watch sees it. -/
theorem carried_out {reason : String} {d : Int} {f : Fence} {crashed : Bool} {r : Reply}
    (ha : l.attention? x = some a) (hd : 0 < d)
    (hs : l.storeStep py (.call (.mutate (.deferAttention x reason d) f) crashed) =
      (.ok r, (Mutation.deferAttention x reason d).effect f l)) :
    (l.storeStep py (.call (.mutate (.deferAttention x reason d) f) crashed)).2.attention? x =
        some (a.deferred reason d a.attempts f.now) ∧
      StoreInput.rejects x (.call (.mutate (.deferAttention x reason d) f) crashed)
        (l.storeStep py (.call (.mutate (.deferAttention x reason d) f) crashed)).1 = some (d, f) := by
  rw [hs]
  exact ⟨effect_deferred reason d ha, (rejects_ok (by simp [Mutation.defers])).trans (if_pos hd)⟩

/-- An immediate deferral leaves the attempts and the ending. -/
theorem watch_immediate {d : Int} {f : Fence} (hi : i.defers x = some (d, f)) (hd : d ≤ 0)
    (ha : w.ledger.attention? x = some a) : ∃ b, (w.step py x i).2.ledger.attention? x = some b ∧
      b.attempts = a.attempts ∧ b.terminalStatus = a.terminalStatus := by
  obtain ⟨reason, crashed, rfl, ⟨e, hs⟩ | ⟨r, hs⟩⟩ := @deferral_cases py x w.ledger i d f hi
  · refine ⟨a, ?_, rfl, rfl⟩
    unfold Watch.step
    rw [hs]
    exact ha
  · refine ⟨a.deferred reason d a.attempts f.now, ?_, ?_⟩
    · unfold Watch.step
      rw [hs]
      exact effect_deferred reason d ha
    · rw [deferred_now hd]
      exact ⟨rfl, rfl⟩

/-- What fails the attention is a positive deferral at the ceiling, carried out. -/
theorem gave_up (hi : (i.defers x).isSome) (hbefore : ¬ w.ledger.hasFailed x)
    (hafter : (w.step py x i).2.ledger.hasFailed x) : ∃ reason d f a r,
      i = .call (.mutate (.deferAttention x reason d) f) false ∧ w.ledger.attention? x = some a ∧
      w.ledger.fenced a.identity f = .ok () ∧ 0 < d ∧ deferMaxAttempts ≤ a.attempts + 1 ∧
      a.terminalStatus ≠ some .failed ∧
      w.ledger.storeStep py i = (.ok r, (Mutation.deferAttention x reason d).effect f w.ledger) := by
  obtain ⟨⟨d, f⟩, hdf⟩ := Option.isSome_iff_exists.mp hi
  have hledger : (w.step py x i).2.ledger = (w.ledger.storeStep py i).2 := rfl
  rw [hledger] at hafter
  obtain ⟨reason, crashed, rfl, ⟨e, hs⟩ | ⟨r, hs⟩⟩ := @deferral_cases py x w.ledger i d f hdf
  · rw [hs] at hafter
    exact absurd hafter hbefore
  · cases ha : w.ledger.attention? x with
    | none =>
        rw [hs] at hafter
        simp only [Mutation.effect, ha] at hafter
        exact absurd hafter hbefore
    | some a =>
        have hb : (w.ledger.storeStep py (.call (.mutate (.deferAttention x reason d) f) crashed)).2.attention? x =
            some (a.deferred reason d a.attempts f.now) := by
          rw [hs]
          exact effect_deferred reason d ha
        have hok : crashed = false ∧ w.ledger.fenced a.identity f = .ok () := by
          refine (@defer_isOk py x w.ledger a reason d f crashed ha).mp ?_
          rw [hs]
          rfl
        rw [hasFailed_some hb] at hafter
        rw [hasFailed_some ha] at hbefore
        have hd : 0 < d := by
          refine Int.not_le.mp fun hd => hbefore ?_
          rwa [deferred_now hd] at hafter
        have hc : deferMaxAttempts ≤ a.attempts + 1 := by
          refine Nat.not_lt.mp fun hc => hbefore ?_
          rwa [deferred_later hd hc] at hafter
        rw [hok.1] at hs ⊢
        exact ⟨reason, d, f, a, r, rfl, rfl, hok.2, hd, hc, hbefore, hs⟩

/-- From every state that the store reaches: the next step keeps the law exactly where giving up is fair. -/
theorem deferral_budget_iff {tr : List (StoreInput × Except Fault Reply)}
    (r : Sys.Run (watchMachine py x) (fun _ _ => True) tr w) (i : StoreInput) : DeferLaw py x w i ↔ w.Fair x i := by
  have hcount := run_counted r
  constructor
  · rintro hlaw reason d f a rfl ha hf hd hc hlive
    have hdefers : (StoreInput.call (.mutate (.deferAttention x reason d) f) false).defers x = some (d, f) := by
      simp [StoreInput.defers, Mutation.defers]
    obtain ⟨reason', crashed, heq, ⟨e, hs⟩ | ⟨a', hs⟩⟩ := @deferral_cases py x w.ledger _ d f hdefers
    · have hok := (@defer_isOk py x w.ledger a reason d f false ha).mpr ⟨rfl, hf⟩
      rw [hs] at hok
      cases hok
    · cases heq
      obtain ⟨hb, hr⟩ := carried_out ha hd hs
      have henough := hlaw.failed (by rw [hdefers]; rfl) (by rw [hasFailed_some ha]; exact hlive)
        ((hasFailed_some hb).mpr (deferred_failed hd hc).1)
      rw [watch_failed ha hb hr hd hc] at henough
      exact (hcount.enough_iff ha hc).mp henough
  · intro hfair
    have hafter := hcount.step py i
    refine ⟨?_, fun d f hi hd a ha => watch_immediate hi hd ha, ?_, hafter.steady⟩
    · intro hi hbefore hfailed
      obtain ⟨reason, d, f, a, a', rfl, ha, hf, hd, hc, hlive, hs⟩ := gave_up hi hbefore hfailed
      obtain ⟨hb, hr⟩ := carried_out ha hd hs
      rw [watch_failed ha hb hr hd hc]
      exact (hcount.enough_iff ha hc).mpr (hfair reason d f a rfl ha hf hd hc hlive)
    · intro e he
      obtain ⟨-, a, k, -, -, hwait⟩ := hafter.waits e he
      rw [hwait]
      exact backoff_le _ _

end

/-! One task: put off eight times it is fairly given up; accepted once and requeued, it is given up at the seventh. -/

def oneTask : List Delivery := [⟨"1", "den", "task"⟩]

def putOff : StoreInput := (Mutation.deferAttention (attentionNo "1") "not ready" 1000).at 5

def watched (is : List StoreInput) : List (StoreInput × Except Fault Reply) × Watch :=
  (watchMachine (clerk oneTask) (attentionNo "1")).exec (opened oneTask ++ is) [] {}

theorem watched_run (is : List StoreInput) :
    Sys.Run (watchMachine (clerk oneTask) (attentionNo "1")) (fun _ _ => True) (watched is).1 (watched is).2 :=
  Sys.Run.exec _ (Sys.Machine.admits_of_all (fun _ _ => trivial) _ _) (.nil rfl)

def sevenTimes : Watch := (watched (List.replicate 7 putOff)).2

theorem deferral_budget_iff_sample :
    (sevenTimes.rejections = 7 ∧ sevenTimes.waits.map Prod.snd = [30000, 30000, 16000, 8000, 4000, 2000, 1000]) ∧
    (DeferLaw (clerk oneTask) (attentionNo "1") sevenTimes putOff ↔ sevenTimes.Fair (attentionNo "1") putOff) :=
  ⟨by decide +kernel, deferral_budget_iff (watched_run (List.replicate 7 putOff)) putOff⟩

def requeuedOnce : List StoreInput :=
  [(Mutation.markAccepted (attentionNo "1") "thread-1" "turn-1").at 1,
    (Mutation.requeueMissingTurn "reviewer" "thread-1" "turn-1" "gone").at 2] ++ List.replicate 6 putOff

theorem seventh_rejection_gives_up :
    ¬ ∀ (py : Python) (x : String) (tr : List (StoreInput × Except Fault Reply)) (w : Watch),
      Sys.Run (watchMachine py x) (fun _ _ => True) tr w → ∀ i, DeferLaw py x w i := by
  intro h
  have hlaw := h _ _ _ _ (watched_run requeuedOnce) putOff
  have hgone : (putOff.defers (attentionNo "1")).isSome ∧ ¬ (watched requeuedOnce).2.ledger.hasFailed (attentionNo "1") ∧
      ((watched requeuedOnce).2.step (clerk oneTask) (attentionNo "1") putOff).2.ledger.hasFailed (attentionNo "1") ∧
      ((watched requeuedOnce).2.step (clerk oneTask) (attentionNo "1") putOff).2.rejections = 7 := by
    decide +kernel
  have henough := hlaw.failed hgone.1 hgone.2.1 hgone.2.2.1
  rw [hgone.2.2.2] at henough
  exact absurd henough (by decide)

end Loca.Adapter
