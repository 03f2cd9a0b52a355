/-
# `Loca.Adapter.Terminal` — what is over stays over

An attention ends as failed, interrupted, cancelled or expired, and a turn ends as one of these or
normally.  Most calls write an ending only where there is none.  A requeue and an interruption write
over every attention of the turn, a control over itself, a deferral at its ceiling over what it
defers, and the completion of a turn over the turn's own ending; a relay covers whatever it is told.

`Mutation.Respects` says when a call writes over nothing; along every run of such calls, endings last.
-/
import Loca.Adapter.Links

namespace Loca.Adapter

open Check Table

/-! ## Rows and turns that last -/

/-- The same attention later: an ending is still there. -/
def Attention.keeps (a b : Attention) : Prop :=
  b.attentionId = a.attentionId ∧ ∀ status, a.terminalStatus = some status → b.terminalStatus = some status

def Lasting (l l' : Ledger) : Prop := ∀ a ∈ l.attentions, ∃ b ∈ l'.attentions, a.keeps b

/-- The same turn later: if it had ended abnormally, it still has. -/
def Turn.keeps (t u : Turn) : Prop := u.turnId = t.turnId ∧ (t.terminalStatus.isSome → u.terminalStatus.isSome)

def TurnsLast (l l' : Ledger) : Prop := ∀ t ∈ l.turns, ∃ u ∈ l'.turns, t.keeps u

section

variable {l l' l₁ l₂ l₃ : Ledger} {f : Fence}

theorem Attention.keeps_self (a : Attention) : a.keeps a := ⟨rfl, fun _ h => h⟩

theorem Attention.keeps_of_none {a b : Attention} (hid : b.attentionId = a.attentionId)
    (ha : a.terminalStatus = none) : a.keeps b := by
  refine ⟨hid, fun status h => ?_⟩
  rw [ha] at h
  cases h

theorem Attention.keeps_of_eq {a b : Attention} (hid : b.attentionId = a.attentionId)
    (ht : b.terminalStatus = a.terminalStatus) : a.keeps b := ⟨hid, fun _ h => ht.trans h⟩

/-- The ending that is written is the one that is there, if there is one. -/
theorem Attention.keeps_of_or {a b : Attention} {status : TerminalStatus} (hid : b.attentionId = a.attentionId)
    (ha : a.terminalStatus = none ∨ a.terminalStatus = some status) (hb : b.terminalStatus = some status) :
    a.keeps b := by
  rcases ha with ha | ha
  · exact Attention.keeps_of_none hid ha
  · exact Attention.keeps_of_eq hid (hb.trans ha.symm)

theorem Lasting.refl (l : Ledger) : Lasting l l := fun a ha => ⟨a, ha, a.keeps_self⟩

theorem Lasting.trans {a b c : Ledger} (h₁ : Lasting a b) (h₂ : Lasting b c) : Lasting a c := by
  intro x hx
  obtain ⟨y, hy, hxy⟩ := h₁ x hx
  obtain ⟨z, hz, hyz⟩ := h₂ y hy
  exact ⟨z, hz, hyz.1.trans hxy.1, fun status h => hyz.2 status (hxy.2 status h)⟩

theorem Lasting.of_eq (h : l'.attentions = l.attentions) : Lasting l l' := fun a ha => ⟨a, h ▸ ha, a.keeps_self⟩

theorem Lasting.update {p : Attention → Bool} {g : Attention → Attention}
    (h : ∀ a ∈ l.attentions, p a = true → a.keeps (g a)) : Lasting l (l.updateAttentions p g) := by
  intro a ha
  refine ⟨if p a then g a else a, mem_updateWhere.mpr ⟨a, ha, rfl⟩, ?_⟩
  split
  · next hp => exact h a ha hp
  · exact a.keeps_self

theorem TurnsLast.refl (l : Ledger) : TurnsLast l l := fun t ht => ⟨t, ht, rfl, id⟩

theorem TurnsLast.trans {a b c : Ledger} (h₁ : TurnsLast a b) (h₂ : TurnsLast b c) : TurnsLast a c := by
  intro t ht
  obtain ⟨u, hu, htu⟩ := h₁ t ht
  obtain ⟨v, hv, huv⟩ := h₂ u hu
  exact ⟨v, hv, huv.1.trans htu.1, fun h => huv.2 (htu.2 h)⟩

theorem TurnsLast.of_eq (h : l'.turns = l.turns) : TurnsLast l l' := fun t ht => ⟨t, h ▸ ht, rfl, id⟩

theorem TurnsLast.update {p : Turn → Bool} {g : Turn → Turn} (h : ∀ t ∈ l.turns, p t = true → t.keeps (g t)) :
    TurnsLast l (l.updateTurns p g) := by
  intro t ht
  refine ⟨if p t then g t else t, mem_updateWhere.mpr ⟨t, ht, rfl⟩, ?_⟩
  split
  · next hp => exact h t ht hp
  · exact ⟨rfl, id⟩

/-! ## When a call writes over nothing -/

/-- An attention of an interrupted turn that goes back must not have ended; one that ends may already be interrupted. -/
def Attention.Interruptible (a : Attention) : Prop :=
  if protectedPriorities.contains a.priority && a.finalResponseAtMs.isNone then a.terminalStatus = none
  else a.terminalStatus = none ∨ a.terminalStatus = some .interrupted

instance (a : Attention) : Decidable a.Interruptible := by
  unfold Attention.Interruptible
  infer_instance

/-- The attentions of each turn that is requeued have not ended, or have their final answer. -/
def Mutation.RequeuesOpen (l : Ledger) (m : Mutation) : Prop :=
  ∀ turnId ∈ m.requeues l, (l.relays.any fun r => r.turnId = turnId) = false →
    ∀ id ∈ l.linkedTo turnId, ∀ r ∈ l.attentions, r.attentionId = id → r.finalResponseAtMs = none →
      r.terminalStatus = none

instance (l : Ledger) (m : Mutation) : Decidable (m.RequeuesOpen l) := by
  unfold Mutation.RequeuesOpen
  infer_instance

def Mutation.Respects (l : Ledger) (m : Mutation) : Prop :=
  match m with
  | .requeueMissingThread .. | .requeueMissingTurn .. => m.RequeuesOpen l
  | .deferAttention a _ delayMs => ∀ r ∈ l.attentions, r.attentionId = a →
      delayMs ≤ 0 ∨ r.attempts + 1 < deferMaxAttempts ∨ r.terminalStatus = none ∨ r.terminalStatus = some .failed
  | .cancelPendingBeforeControl control _ => ∀ r ∈ l.attentions, r.attentionId = control →
      r.terminalStatus = none ∨ r.terminalStatus = some .cancelled
  | .interruptTurnForControl turnId _ =>
      ∀ id ∈ l.linkedTo turnId, ∀ r ∈ l.attentions, r.attentionId = id → r.Interruptible
  | .markTurnCompleted turnId status _ => ∀ t ∈ l.turns, t.turnId = turnId → t.terminalStatus.isSome →
      (terminalOf status).isSome
  | .createRelayItem q => (l.relays.any fun r => r.opId = q.opId ||
        (r.turnId = q.turnId && r.itemId = q.itemId && r.relayKind = q.relayKind)) ∨
      ∀ r ∈ l.attentions, r.terminalStatus.isSome → r.attentionId ∉ q.coveredAttentionIds
  | _ => True

instance (l : Ledger) (m : Mutation) : Decidable (m.Respects l) := by
  cases m <;> dsimp only [Mutation.Respects] <;> infer_instance

/-- The step writes over no ending. -/
def Ledger.Settling (l : Ledger) (i : StoreInput) : Prop := ∀ m ∈ i.mutation.toList, m.Respects l

instance (l : Ledger) (i : StoreInput) : Decidable (l.Settling i) := by
  unfold Ledger.Settling
  infer_instance

/-! ## The loops -/

/-- A requeue gives back attentions that had not ended; the columns it decides by are read in the same way after it. -/
theorem requeueTurn_lasting {back : Attention → Attention} (hid : ∀ r, (back r).attentionId = r.attentionId)
    {reason : String} {now : Int} {acc : Nat × Ledger} {turnId : String}
    (hopen : (acc.2.relays.any fun r => r.turnId = turnId) = false → ∀ id ∈ acc.2.linkedTo turnId,
      ∀ r ∈ acc.2.attentions, r.attentionId = id → r.finalResponseAtMs = none → r.terminalStatus = none) :
    Lasting acc.2 (Ledger.requeueTurn back reason now acc turnId).2 := by
  unfold Ledger.requeueTurn
  dsimp only
  split
  · exact Lasting.refl _
  · next hrel =>
      refine Lasting.update fun a ha hp => ?_
      simp only [Bool.and_eq_true, List.contains_iff_mem, Option.isNone_iff_eq_none] at hp
      exact Attention.keeps_of_none (hid a) (hopen (Bool.eq_false_iff.mpr hrel) _ hp.1 a ha rfl hp.2)

theorem requeueTurn_turnsLast (back : Attention → Attention) (reason : String) (now : Int) (acc : Nat × Ledger)
    (turnId : String) : TurnsLast acc.2 (Ledger.requeueTurn back reason now acc turnId).2 := by
  unfold Ledger.requeueTurn
  dsimp only
  split
  · exact TurnsLast.refl _
  · exact TurnsLast.update fun t _ _ => ⟨rfl, fun _ => rfl⟩

theorem linkedTo_sublist {turnId id : String} (h : l'.turnLinks.Sublist l.turnLinks) (hid : id ∈ l'.linkedTo turnId) :
    id ∈ l.linkedTo turnId := by
  obtain ⟨k, hk, hkt, hka⟩ := mem_linkedTo.mp hid
  exact mem_linkedTo.mpr ⟨k, h.subset hk, hkt, hka⟩

/-- The rows after a requeue are those before, or have gone back. -/
theorem requeueTurn_rows {back : Attention → Attention} (hback : ∀ r, (back r).attentionId = r.attentionId ∧
      (back r).finalResponseAtMs = r.finalResponseAtMs ∧ (back r).terminalStatus = none) {reason : String} {now : Int}
    {acc : Nat × Ledger} {turnId : String} {b : Attention}
    (hb : b ∈ (Ledger.requeueTurn back reason now acc turnId).2.attentions) :
    ∃ a ∈ acc.2.attentions, a.attentionId = b.attentionId ∧ a.finalResponseAtMs = b.finalResponseAtMs ∧
      (b.terminalStatus = none ∨ b.terminalStatus = a.terminalStatus) := by
  unfold Ledger.requeueTurn at hb
  dsimp only at hb
  split at hb
  · exact ⟨b, hb, rfl, rfl, .inr rfl⟩
  · obtain ⟨a, ha, rfl⟩ := mem_updateWhere.mp hb
    refine ⟨a, ha, ?_⟩
    split
    · exact ⟨(hback a).1.symm, (hback a).2.1.symm, .inl (hback a).2.2⟩
    · exact ⟨rfl, rfl, .inr rfl⟩

theorem requeueTurns_lasting {back : Attention → Attention} (hback : ∀ r, (back r).attentionId = r.attentionId ∧
      (back r).finalResponseAtMs = r.finalResponseAtMs ∧ (back r).terminalStatus = none) {reason : String} {now : Int}
    {turns : List String} {acc : Nat × Ledger}
    (hopen : ∀ turnId ∈ turns, (acc.2.relays.any fun r => r.turnId = turnId) = false →
      ∀ id ∈ acc.2.linkedTo turnId, ∀ r ∈ acc.2.attentions, r.attentionId = id → r.finalResponseAtMs = none →
        r.terminalStatus = none) :
    Lasting acc.2 (turns.foldl (Ledger.requeueTurn back reason now) acc).2 := by
  induction turns generalizing acc with
  | nil => exact Lasting.refl _
  | cons t turns ih =>
      refine (requeueTurn_lasting (fun r => (hback r).1) (hopen t List.mem_cons_self)).trans (ih ?_)
      intro u hu hrel id hid r hr hrid hfinal
      rw [requeueTurn_relays] at hrel
      obtain ⟨a, ha, haid, hafinal, hterm⟩ := requeueTurn_rows hback hr
      have hnone := hopen u (List.mem_cons_of_mem _ hu) hrel id
        (linkedTo_sublist (requeueTurn_rest back reason now acc t).1 hid) a ha (haid.trans hrid) (hafinal.trans hfinal)
      rcases hterm with hterm | hterm
      · exact hterm
      · exact hterm.trans hnone

/-- What the loop of an interruption may meet under the id of a row. -/
def Attention.Meets (a b : Attention) : Prop :=
  if protectedPriorities.contains a.priority && a.finalResponseAtMs.isNone then b.terminalStatus = none
  else b.terminalStatus = none ∨ b.terminalStatus = some .interrupted

theorem interruptAttention_lasting {turnId reason : String} {now : Int} {acc : Nat × Ledger} {a : Attention}
    (h : ∀ b ∈ acc.2.attentions, b.attentionId = a.attentionId → a.Meets b) :
    Lasting acc.2 (Ledger.interruptAttention turnId reason now acc a).2 := by
  unfold Ledger.interruptAttention
  split
  · next hc =>
      refine Lasting.update fun b hb hp => ?_
      have hm := h b hb (by simpa using hp)
      rw [Attention.Meets, if_pos hc] at hm
      exact Attention.keeps_of_none rfl hm
  · next hc =>
      refine Lasting.update fun b hb hp => ?_
      have hm := h b hb (by simpa using hp)
      rw [Attention.Meets, if_neg hc] at hm
      exact Attention.keeps_of_or rfl hm rfl

/-- After its turn in the loop a row still meets what the loop may meet. -/
theorem interruptAttention_meets {turnId reason : String} {now : Int} {acc : Nat × Ledger} {a c : Attention}
    (hac : a.attentionId = c.attentionId → a = c)
    (h : ∀ b ∈ acc.2.attentions, b.attentionId = c.attentionId → c.Meets b) :
    ∀ b ∈ (Ledger.interruptAttention turnId reason now acc a).2.attentions, b.attentionId = c.attentionId →
      c.Meets b := by
  intro b hb hid
  unfold Ledger.interruptAttention at hb
  split at hb
  · next hc =>
      obtain ⟨d, hd, rfl⟩ := mem_updateWhere.mp hb
      split at hid
      · next hp =>
          obtain rfl := hac ((of_decide_eq_true hp).symm.trans hid)
          rw [if_pos hp, Attention.Meets, if_pos hc]
          rfl
      · next hp => rw [if_neg hp]; exact h d hd hid
  · next hc =>
      obtain ⟨d, hd, rfl⟩ := mem_updateWhere.mp hb
      split at hid
      · next hp =>
          obtain rfl := hac ((of_decide_eq_true hp).symm.trans hid)
          rw [if_pos hp, Attention.Meets, if_neg hc]
          exact .inr rfl
      · next hp => rw [if_neg hp]; exact h d hd hid

theorem interruptRows_lasting {turnId reason : String} {now : Int} {rows : List Attention} {acc : Nat × Ledger}
    (hone : ∀ a ∈ rows, ∀ c ∈ rows, a.attentionId = c.attentionId → a = c)
    (h : ∀ a ∈ rows, ∀ b ∈ acc.2.attentions, b.attentionId = a.attentionId → a.Meets b) :
    Lasting acc.2 (rows.foldl (Ledger.interruptAttention turnId reason now) acc).2 := by
  induction rows generalizing acc with
  | nil => exact Lasting.refl _
  | cons a rows ih =>
      refine (interruptAttention_lasting (h a List.mem_cons_self)).trans (ih ?_ ?_)
      · exact fun c hc d hd => hone c (List.mem_cons_of_mem _ hc) d (List.mem_cons_of_mem _ hd)
      · intro c hc
        exact interruptAttention_meets (hone a List.mem_cons_self c (List.mem_cons_of_mem _ hc))
          (h c (List.mem_cons_of_mem _ hc))

theorem interruptTurn_lasting {turnId reason : String}
    (hids : (l.attentions.map Attention.attentionId).Nodup)
    (h : ∀ id ∈ l.linkedTo turnId, ∀ r ∈ l.attentions, r.attentionId = id → r.Interruptible) :
    Lasting l (l.interruptTurn f turnId reason) := by
  have hloop := @interruptRows_lasting turnId reason f.now
    ((l.linkedTo turnId).filterMap fun id => l.attention? id)
    (0, l.updateTurns (fun t => t.turnId = turnId) fun t =>
      { t with
        completedAtMs := some f.now, terminalStatus := some .interrupted, terminalReason := some reason }) ?_ ?_
  · exact hloop
  · intro a ha c hc he
    obtain ⟨x, -, hx⟩ := List.mem_filterMap.mp ha
    obtain ⟨y, -, hy⟩ := List.mem_filterMap.mp hc
    exact eq_of_key hids (attention_some hx).1 (attention_some hy).1 he
  · intro a ha b hb he
    obtain ⟨x, hx, hrow⟩ := List.mem_filterMap.mp ha
    obtain ⟨hin, hid⟩ := attention_some hrow
    obtain rfl := eq_of_key hids hin hb he.symm
    exact h x hx a hin hid

/-! ## Every call -/

theorem deferred_keeps {a : Attention} {reason : String} {delayMs now : Int}
    (h : delayMs ≤ 0 ∨ a.attempts + 1 < deferMaxAttempts ∨ a.terminalStatus = none ∨ a.terminalStatus = some .failed) :
    a.keeps (a.deferred reason delayMs a.attempts now) := by
  unfold Attention.deferred
  dsimp only
  split
  · exact Attention.keeps_of_eq rfl rfl
  · next hd =>
      split
      · next hmax =>
          rcases h with h | h | h
          · exact absurd h hd
          · omega
          · exact Attention.keeps_of_or rfl h rfl
      · exact Attention.keeps_of_eq rfl rfl

theorem acceptId_lasting (a t u : String) : Lasting l (l.acceptId f a t u) := by
  unfold Ledger.acceptId
  split
  · exact Lasting.refl l
  · next row _ =>
      unfold Ledger.accept
      refine Lasting.trans (Lasting.of_eq (by rw [linkTurn_attentions])) (Lasting.update ?_)
      exact fun r _ _ => Attention.keeps_of_eq rfl rfl

/-- A call that writes over nothing leaves every ending. -/
theorem effect_lasting {m : Mutation} (hids : (l.attentions.map Attention.attentionId).Nodup) (h : m.Respects l) :
    Lasting l (m.effect f l) := by
  cases m with
  | setThread identity server room threadId => exact Lasting.of_eq rfl
  | markAccepted a t u => exact acceptId_lasting a t u
  | finalizeDispatch a t u b => exact (acceptId_lasting a t u).trans (Lasting.of_eq rfl)
  | prepareDispatch a t o c =>
      simp only [Mutation.effect]
      split <;> exact Lasting.of_eq rfl
  | retryUnobservedDispatch a reason =>
      simp only [Mutation.effect]
      split
      · exact Lasting.refl l
      · refine Lasting.trans (Lasting.of_eq rfl) (Lasting.update fun r _ _ => ?_)
        exact Attention.keeps_of_eq rfl rfl
  | deferAttention a reason delayMs =>
      simp only [Mutation.effect]
      split
      · exact Lasting.refl l
      · next row hrow =>
          refine Lasting.update fun r hr hp => ?_
          obtain ⟨hin, hid⟩ := attention_some hrow
          obtain rfl := eq_of_key hids hin hr (hid.trans (of_decide_eq_true hp).symm)
          exact deferred_keeps (h row hin hid)
  | adoptRecoveredTurn t =>
      simp only [Mutation.effect]
      split
      · exact Lasting.refl l
      · refine Lasting.trans (Lasting.of_eq rfl) (Lasting.update fun r _ _ => ?_)
        exact Attention.keeps_of_eq rfl rfl
  | reapStaleTurnsAfterRecovery identity =>
      refine Sys.foldl_rel (R := Lasting) Lasting.refl (fun _ _ _ => Lasting.trans) (fun l t => ?_) _ l
      refine Lasting.trans (b := l.updateAttentions _ _) (Lasting.update fun r _ hp => ?_) (Lasting.of_eq rfl)
      simp only [Bool.and_eq_true, Option.isNone_iff_eq_none] at hp
      exact Attention.keeps_of_none rfl hp.1.2
  | requeueMissingThread identity threadId reason =>
      refine Lasting.trans (@requeueTurns_lasting (Attention.requeued reason f.now) ?_ reason f.now _ (0, l) h)
        (Lasting.of_eq rfl)
      exact fun r => ⟨rfl, rfl, rfl⟩
  | requeueMissingTurn identity threadId turnId reason =>
      simp only [Mutation.effect]
      split
      · next hc =>
          refine @requeueTurn_lasting _ ?_ reason f.now (0, l) turnId ?_
          · exact fun r => rfl
          · exact h turnId (by simp only [Mutation.requeues, if_pos hc, List.mem_singleton])
      · exact Lasting.refl l
  | cancelPendingBeforeControl control reason =>
      simp only [Mutation.effect]
      split
      · exact Lasting.refl l
      · next c hc =>
          have h₁ : Lasting l (l.updateAttentions (Ledger.cancelledBy c) fun r =>
              { r with terminalStatus := some .cancelled, terminalReason := some reason }) := by
            refine Lasting.update fun r _ hp => ?_
            simp only [Ledger.cancelledBy, Bool.and_eq_true, Option.isNone_iff_eq_none] at hp
            exact Attention.keeps_of_none rfl hp.1.1.1.2
          refine h₁.trans (Lasting.update fun r hr hp => ?_)
          -- the control itself, which the first update leaves or cancels
          obtain ⟨a, ha, rfl⟩ := mem_updateWhere.mp hr
          refine Attention.keeps_of_or rfl ?_ rfl
          split
          · exact .inr rfl
          · next hno =>
              rw [if_neg hno] at hp
              exact h a ha (of_decide_eq_true hp)
  | interruptTurnForControl turnId reason =>
      simp only [Mutation.effect]
      split
      · exact interruptTurn_lasting hids h
      · exact Lasting.refl l
  | closeRoomForControl control reason =>
      simp only [Mutation.effect]
      split
      · exact Lasting.refl l
      · next c hc =>
          have h₁ : Lasting l (l.updateAttentions (Ledger.closedBy c) fun r =>
              { r with
                turnCompletedAtMs := some (r.turnCompletedAtMs.getD f.now),
                terminalStatus := some .cancelled, terminalReason := some reason }) := by
            refine Lasting.update fun r _ hp => ?_
            simp only [Ledger.closedBy, Bool.and_eq_true, Option.isNone_iff_eq_none] at hp
            exact Attention.keeps_of_none rfl hp.1.2
          refine h₁.trans (Lasting.trans (b := Ledger.updateAttentions _ _ _) (Lasting.update ?_) (Lasting.of_eq rfl))
          exact fun r _ _ => Attention.keeps_of_eq rfl rfl
  | retireLegacyContext a identity =>
      simp only [Mutation.effect]
      split
      · exact Lasting.refl l
      · next row hrow =>
          split
          · exact Lasting.refl l
          · next hno =>
              refine Lasting.update fun r hr hp => ?_
              have hrow' := List.find?_some hrow
              simp only [Bool.and_eq_true, decide_eq_true_eq] at hrow' hp
              obtain rfl := eq_of_key hids (List.mem_of_find?_eq_some hrow) hr (hrow'.1.trans hp.symm)
              refine Attention.keeps_of_none rfl ?_
              simp only [Bool.or_eq_true, not_or, Bool.not_eq_true, Option.isSome_eq_false_iff,
                Option.isNone_iff_eq_none] at hno
              exact hno.1.1.2
  | createRelayItem q =>
      simp only [Mutation.effect]
      split <;> exact Lasting.of_eq rfl
  | markRelayFailed op error retryDelayMs =>
      simp only [Mutation.effect]
      split <;> exact Lasting.of_eq rfl
  | markRelayAccepted op =>
      simp only [Mutation.effect]
      split
      · exact Lasting.refl l
      · intro a ha
        refine Sys.foldl_rel (R := Lasting) Lasting.refl (fun _ _ _ => Lasting.trans) (fun l id => ?_) _ _ a ha
        exact Lasting.update fun r _ _ => Attention.keeps_of_eq rfl rfl
  | markTurnNoReply t =>
      simp only [Mutation.effect]
      split
      · exact Lasting.refl l
      · refine Lasting.update fun r _ hp => ?_
        simp only [Bool.and_eq_true, Option.isNone_iff_eq_none] at hp
        exact Attention.keeps_of_none rfl hp.1.2
  | markTurnCompleted t status reason =>
      simp only [Mutation.effect]
      split
      · have h₁ : Lasting l (l.updateAttentions (fun r => r.turnId = some t) fun r =>
            { r with
              turnCompletedAtMs := some f.now, terminalStatus := r.terminalStatus.or (terminalOf status),
              terminalReason := if (terminalOf status).isNone then r.terminalReason else reasonOrNone reason }) := by
          refine Lasting.update fun r _ _ => ⟨rfl, fun st hst => ?_⟩
          simp only [hst, Option.some_or]
        unfold Ledger.completeTurn
        dsimp only
        split <;> exact h₁.trans (Lasting.of_eq rfl)
      · exact Lasting.refl l

theorem acceptId_turnsLast (a t u : String) : TurnsLast l (l.acceptId f a t u) := by
  unfold Ledger.acceptId
  split
  · exact TurnsLast.refl l
  · intro x hx
    refine ⟨x, ?_, rfl, id⟩
    rw [accept_turns, mem_insertIgnore]
    exact .inl hx

theorem completeTurn_turns (turnId status reason : String) : (l.completeTurn f turnId status reason).turns =
    (l.updateTurns (fun t => t.turnId = turnId) fun t =>
      { t with
        completedAtMs := some f.now, terminalStatus := terminalOf status, terminalReason := reasonOrNone reason }).turns := by
  unfold Ledger.completeTurn
  dsimp only
  split <;> rfl

theorem interruptTurn_turns (turnId reason : String) : (l.interruptTurn f turnId reason).turns =
    (l.updateTurns (fun t => t.turnId = turnId) fun t =>
      { t with
        completedAtMs := some f.now, terminalStatus := some .interrupted, terminalReason := some reason }).turns := by
  refine foldl_view (fun acc : Nat × Ledger => acc.2.turns) ?_ _ (0, _)
  exact fun acc a => interruptAttention_turns _ _ _ acc a

/-- A call that writes over nothing leaves every turn's abnormal ending. -/
theorem effect_turnsLast {m : Mutation} (h : m.Respects l) : TurnsLast l (m.effect f l) := by
  cases m with
  | setThread identity server room threadId => exact TurnsLast.of_eq rfl
  | markAccepted a t u => exact acceptId_turnsLast a t u
  | finalizeDispatch a t u b => exact (acceptId_turnsLast a t u).trans (TurnsLast.of_eq rfl)
  | adoptRecoveredTurn t =>
      simp only [Mutation.effect]
      split
      · exact TurnsLast.refl l
      · refine TurnsLast.trans (b := l.updateTurns _ _) (TurnsLast.update ?_) (TurnsLast.of_eq rfl)
        exact fun x _ _ => ⟨rfl, id⟩
  | reapStaleTurnsAfterRecovery identity =>
      refine Sys.foldl_rel (R := TurnsLast) TurnsLast.refl (fun _ _ _ => TurnsLast.trans) (fun l t => ?_) _ l
      refine TurnsLast.trans (b := l.updateTurns _ _) (TurnsLast.update ?_) (TurnsLast.of_eq rfl)
      exact fun x _ _ => ⟨rfl, fun _ => rfl⟩
  | requeueMissingThread identity threadId reason =>
      refine TurnsLast.trans ?_ (TurnsLast.of_eq rfl)
      refine Sys.foldl_rel (R := fun b b' : Nat × Ledger => TurnsLast b.2 b'.2) (fun _ => TurnsLast.refl _)
        (fun _ _ _ => TurnsLast.trans) ?_ _ (0, l)
      exact fun acc t => requeueTurn_turnsLast _ _ _ acc t
  | requeueMissingTurn identity threadId turnId reason =>
      simp only [Mutation.effect]
      split
      · exact requeueTurn_turnsLast _ _ _ (0, l) turnId
      · exact TurnsLast.refl l
  | interruptTurnForControl turnId reason =>
      simp only [Mutation.effect]
      split
      · refine TurnsLast.trans (b := l.updateTurns _ _) (TurnsLast.update ?_)
          (TurnsLast.of_eq (interruptTurn_turns turnId reason))
        exact fun x _ _ => ⟨rfl, fun _ => rfl⟩
      · exact TurnsLast.refl l
  | closeRoomForControl control reason =>
      simp only [Mutation.effect]
      split
      · exact TurnsLast.refl l
      · refine TurnsLast.trans (b := l.updateTurns _ _) (TurnsLast.update ?_) (TurnsLast.of_eq rfl)
        exact fun x _ _ => ⟨rfl, fun _ => rfl⟩
  | markRelayAccepted op =>
      simp only [Mutation.effect]
      split
      · exact TurnsLast.refl l
      · refine TurnsLast.of_eq ?_
        refine foldl_view (fun l : Ledger => l.turns) ?_ _ _
        exact fun _ _ => rfl
  | markTurnCompleted t status reason =>
      simp only [Mutation.effect]
      split
      · refine TurnsLast.trans (b := l.updateTurns _ _) (TurnsLast.update ?_)
          (TurnsLast.of_eq (completeTurn_turns t status reason))
        exact fun x hx hp => ⟨rfl, h x hx (of_decide_eq_true hp)⟩
      · exact TurnsLast.refl l
  | _ =>
      refine TurnsLast.of_eq ?_
      simp only [Mutation.effect]
      repeat' split
      all_goals rfl

/-! ## The law -/

/-- What a relay that was made since does not cover. -/
def FreshCover (l l' : Ledger) : Prop :=
  ∀ r ∈ l'.relays, (∃ q ∈ l.relays, q.fixed = r.fixed) ∨
    ∀ a ∈ l.attentions, a.terminalStatus.isSome → a.attentionId ∉ r.coveredAttentionIds

/-- From one ledger to a later one: endings last. -/
structure Since (l l' : Ledger) : Prop where
  rows : Lasting l l'
  turns : TurnsLast l l'
  relays : FreshCover l l'

theorem Since.refl (l : Ledger) : Since l l := ⟨Lasting.refl l, TurnsLast.refl l, fun r hr => .inl ⟨r, hr, rfl⟩⟩

theorem Since.trans (h₁ : Since l₁ l₂) (h₂ : Since l₂ l₃) : Since l₁ l₃ := by
  refine ⟨h₁.rows.trans h₂.rows, h₁.turns.trans h₂.turns, fun r hr => ?_⟩
  rcases h₂.relays r hr with ⟨q, hq, hqr⟩ | hnew
  · rcases h₁.relays q hq with ⟨q', hq', hqq⟩ | hnew
    · exact .inl ⟨q', hq', hqq.trans hqr⟩
    · refine .inr fun a ha ht => ?_
      have hcover : q.coveredAttentionIds = r.coveredAttentionIds := by
        simp only [RelayItem.fixed, Prod.mk.injEq] at hqr
        exact hqr.2.2.2.2.2.2
      exact hcover ▸ hnew a ha ht
  · refine .inr fun a ha ht => ?_
    obtain ⟨b, hb, hid, hkeep⟩ := h₁.rows a ha
    obtain ⟨status, hstatus⟩ := Option.isSome_iff_exists.mp ht
    rw [← hid]
    exact hnew b hb (by rw [hkeep status hstatus]; rfl)

theorem effect_freshCover {m : Mutation} (h : m.Respects l) : FreshCover l (m.effect f l) := by
  intro r hr
  cases hm : m.creates with
  | none =>
      have hmem : r.fixed ∈ l.relays.map RelayItem.fixed := effect_relays (f := f) hm ▸ List.mem_map_of_mem hr
      obtain ⟨q, hq, he⟩ := List.mem_map.mp hmem
      exact .inl ⟨q, hq, he⟩
  | some q =>
      cases m <;> cases hm
      simp only [Mutation.effect] at hr
      split at hr
      · exact .inl ⟨r, hr, rfl⟩
      · next hnew =>
          rcases List.mem_append.mp hr with hr | hr
          · exact .inl ⟨r, hr, rfl⟩
          · rcases h with htaken | hcover
            · exact absurd htaken hnew
            · refine .inr fun a ha ht hin => hcover a ha ht ?_
              rw [List.mem_singleton.mp hr] at hin
              exact mem_firstOccurrences.mp hin

theorem Filed.since (hf : Filed l l') : Since l l' := by
  obtain ⟨new, he, -⟩ := hf.attentions
  refine ⟨fun a ha => ⟨a, he ▸ List.mem_append_left _ ha, a.keeps_self⟩, TurnsLast.of_eq hf.turns, ?_⟩
  exact fun r hr => .inl ⟨r, hf.relays ▸ hr, rfl⟩

/-- What one step of the store preserves. -/
theorem step_since {py : Python} {i : StoreInput} (hk : Keyed l) (h : l.Settling i) :
    Since l (l.storeStep py i).2 := by
  rcases storeStep_cases py l i with ⟨e, hs⟩ | ⟨-, hf⟩ | ⟨m, f, crashed, r, rfl, hs⟩
  · rw [hs]
    exact Since.refl l
  · exact hf.since
  · rw [hs]
    have hm : m.Respects l := h m (by simp [StoreInput.mutation])
    exact ⟨effect_lasting hk.attentions hm, effect_turnsLast hm, effect_freshCover hm⟩

end

/-- What holds of an earlier ledger and a later one. -/
structure TerminalLaw (l l' : Ledger) : Prop where
  status : ∀ a ∈ l.attentions, ∀ status, a.terminalStatus = some status →
    ∃ b, l'.attention? a.attentionId = some b ∧ b.terminalStatus = some status
  retired : ∀ a ∈ l.attentions, a.terminalStatus.isSome → ∀ identity now b,
    l'.nextPending identity now = some b → b.attentionId ≠ a.attentionId
  uncovered : ∀ r ∈ l'.relays, (∀ q ∈ l.relays, q.opId ≠ r.opId) → ∀ a ∈ l.attentions, a.terminalStatus.isSome →
    a.attentionId ∉ r.coveredAttentionIds
  turns : ∀ t ∈ l.turns, t.terminalStatus.isSome → ∀ u ∈ l'.turns, u.turnId = t.turnId →
    ¬ (u.completedAtMs.isSome ∧ u.terminalStatus = none)

theorem nextPending_live {l : Ledger} {identity : String} {now : Int} {b : Attention}
    (h : l.nextPending identity now = some b) : b ∈ l.attentions ∧ b.terminalStatus = none := by
  unfold Ledger.nextPending at h
  have hmem := (List.perm_insertionSort _ _).mem_iff.mp (List.mem_of_head? h)
  simp only [List.mem_filter, Ledger.isPending, Bool.and_eq_true, Option.isNone_iff_eq_none] at hmem
  exact ⟨hmem.1, hmem.2.1.2⟩

theorem Since.law {l l' : Ledger} (h : Since l l') (hk' : Keyed l') : TerminalLaw l l' where
  status := by
    intro a ha status hstatus
    obtain ⟨b, hb, hid, hkeep⟩ := h.rows a ha
    exact ⟨b, hid ▸ attention_of_mem hk'.attentions hb, hkeep status hstatus⟩
  retired := by
    intro a ha ht identity now b hnext hid
    obtain ⟨c, hc, hcid, hkeep⟩ := h.rows a ha
    obtain ⟨status, hstatus⟩ := Option.isSome_iff_exists.mp ht
    obtain ⟨hb, hnone⟩ := nextPending_live hnext
    have hc' := hkeep status hstatus
    rw [eq_of_key hk'.attentions hc hb (hcid.trans hid.symm), hnone] at hc'
    cases hc'
  uncovered := by
    intro r hr hnew a ha ht
    rcases h.relays r hr with ⟨q, hq, he⟩ | hcover
    · exact absurd (congrArg Prod.fst he) (hnew q hq)
    · exact hcover a ha ht
  turns := by
    rintro t ht hend u hu hid ⟨-, hnone⟩
    obtain ⟨v, hv, hvid, hkeep⟩ := h.turns t ht
    have hend' := hkeep hend
    rw [eq_of_key hk'.turns hv hu (hvid.trans hid.symm), hnone] at hend'
    cases hend'

/-- From every state that the store reaches, along every run of calls that write over no ending: what is over stays over. -/
theorem endings_last {py : Python} {tr : List (StoreInput × Except Fault Reply)} {l : Ledger}
    (r : Sys.Run (storeMachine py) (fun l i => l.Settling i) tr l) {is : List StoreInput}
    (ha : (storeMachine py).Admits (fun l i => l.Settling i) is l) :
    TerminalLaw l ((storeMachine py).exec is tr l).2 := by
  have h : Keyed ((storeMachine py).exec is tr l).2 ∧ Since l ((storeMachine py).exec is tr l).2 := by
    refine Sys.Machine.Admits.invariant (I := fun l' => Keyed l' ∧ Since l l') ?_ ha tr ⟨run_keyed r, Since.refl l⟩
    intro l' i hl hok
    exact ⟨hl.1.step py i, hl.2.trans (step_since hl.1 hok)⟩
  exact h.2.law h.1

/-! A note that the model declines to answer is over; then its turn is missing, and it goes out again. -/

def oneNote : List Delivery := [⟨"1", "den", "broadcast"⟩]

def declined : List StoreInput := opened oneNote ++
  [(Mutation.markAccepted (attentionNo "1") "thread-1" "turn-1").at 1, (Mutation.markTurnNoReply "turn-1").at 2]

def afterDecline : List (StoreInput × Except Fault Reply) × Ledger :=
  (storeMachine (clerk oneNote)).exec declined [] {}

def completedThen : List StoreInput := [(Mutation.markTurnCompleted "turn-1" "completed" "").at 3]

theorem endings_last_sample :
    (afterDecline.2.attentions.map Attention.terminalStatus) = [some .cancelled] ∧
    TerminalLaw afterDecline.2 ((storeMachine (clerk oneNote)).exec completedThen afterDecline.1 afterDecline.2).2 :=
  ⟨by decide +kernel, endings_last (Sys.Run.exec declined (by decide +kernel) (.nil rfl)) (by decide +kernel)⟩

def goneThen : List StoreInput := [(Mutation.requeueMissingTurn "reviewer" "thread-1" "turn-1" "gone").at 3]

theorem declined_note_goes_out_again :
    ¬ ∀ (py : Python) (tr : List (StoreInput × Except Fault Reply)) (l : Ledger),
      Sys.Run (storeMachine py) (fun _ _ => True) tr l → ∀ is, TerminalLaw l ((storeMachine py).exec is tr l).2 := by
  intro h
  have hrun : Sys.Run (storeMachine (clerk oneNote)) (fun _ _ => True) afterDecline.1 afterDecline.2 :=
    Sys.Run.exec declined (Sys.Machine.admits_of_all (fun _ _ => trivial) _ _) (.nil rfl)
  have hlaw := (h _ _ _ hrun goneThen).status
  have hback : ∃ a ∈ afterDecline.2.attentions, a.terminalStatus = some .cancelled ∧
      ∀ b ∈ ((storeMachine (clerk oneNote)).exec goneThen afterDecline.1 afterDecline.2).2.attentions,
        b.terminalStatus = none := by
    decide +kernel
  obtain ⟨a, ha, hstatus, hnone⟩ := hback
  obtain ⟨b, hb, hb'⟩ := hlaw a ha .cancelled hstatus
  rw [hnone b (attention_some hb).1] at hb'
  cases hb'

end Loca.Adapter
