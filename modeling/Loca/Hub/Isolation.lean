/-
# `Loca.Hub.Isolation` — one room's operations and the attentions of others

An operation that ends a condition of a room retires the attentions of that condition and
acknowledges their deliveries.  On disk the rows are found by their ids alone: at or under the
key `attention:room:condition`, with names joined by colons and nothing escaped.  A room called
`a:silence` has its attentions under the silence key of room `a`, and a waiter called `bob:1`
has its reminders under the wait of `bob`.

`RoomOp` lists the operations, `RoomOp.retired` says which conditions one of them ends, and
`isolation_iff` says exactly when it leaves everybody else's rows alone.
-/
import Loca.Base.Stamp
import Loca.Hub.Care
import Loca.Hub.Memory

namespace Loca

open Check Relation Stamp Table

/-! ## What an operation retires -/

/-- The conditions an operation ends: by their keys, and the wait cycles of one participant. -/
structure Retired where
  keys : List String
  waiter : Option String
  deriving DecidableEq, Repr

/-- Nothing. -/
def Retired.none : Retired := ⟨[], Option.none⟩

/-- Everything about one participant's wait. -/
def Retired.wait (waiter : String) : Retired := ⟨[waitKey waiter], some waiter⟩

/-- Does the room's operation retire what is filed under this id? -/
def Retired.hits (room : String) (c : CareTables) (x : Retired) (id : String) : Bool :=
  (x.keys.any fun key => underKey (attentionKey room key) id) ||
    x.waiter.any fun waiter => (c.cycleIds room waiter).contains id

/-- The operations of a room that end conditions, and the room's part of a sweep. -/
inductive RoomOp
  | post (q : PostRequest) (attachments : List Attachment)
  | setWait (room : String) (req : SetWait)
  | clearWait (room waiter : String)
  | updateTask (room : String) (id : Nat) (req : UpdateTask) (isOperator : Bool)
  | updateGoal (room : String) (id : Nat) (req : UpdateGoal)
  | tick (room : String)

namespace RoomOp

def room : RoomOp → String
  | post q _ => q.room
  | setWait room _ => room
  | clearWait room _ => room
  | updateTask room _ _ _ => room
  | updateGoal room _ _ => room
  | tick room => room

def run (cfg : Config) (env : Env) (w : World) : RoomOp → World
  | post q attachments => (postLocked cfg env q attachments w).2
  | setWait room req => (Loca.setWait cfg env room req w).2
  | clearWait room waiter => (Loca.clearWait cfg env room waiter w).2
  | updateTask room id req isOperator => (Loca.updateTask cfg env room id req isOperator w).2
  | updateGoal room id req => (Loca.updateGoal cfg env room id req w).2
  | tick room =>
      let swept := sweepRoom cfg env (w, []) room
      swept.2.foldl (publishCareSignal cfg env) swept.1

end RoomOp

/-- The draft of a post that goes through. -/
def acceptedDraft (cfg : Config) (env : Env) (q : PostRequest) (attachments : List Attachment)
    (w : World) : Option PostDraft :=
  let r := w.roomOr cfg q.room
  let accepted : Except PostReject PostDraft := do
    require ((q.remembered r).isNone = true) .storage
    q.admitted r
    q.withinRate env.now (q.expireStamps env.now r)
    let author ← q.replyAuthor cfg env (q.expireStamps env.now r) w.db
    pure (q.draft cfg env attachments author (q.expireStamps env.now r) w.hub)
  accepted.toOption.filter fun d =>
    (commit cfg.persistent (env.fails .write) (d.persist cfg env.now q (q.expireStamps env.now r))
      w.db).isOk

/-- A message ends the silence, and renews the wait it wakes. -/
def PostDraft.retired (d : PostDraft) : Retired :=
  match d.wake with
  | some p => ⟨["silence", waitKey p.1.waiter], some p.1.waiter⟩
  | none => ⟨["silence"], none⟩

namespace RoomOp

/-- The conditions that end, in the state the operation meets. -/
def retired (cfg : Config) (env : Env) (w : World) : RoomOp → Retired
  | post q attachments => ((acceptedDraft cfg env q attachments w).map PostDraft.retired).getD .none
  | setWait room req =>
      let unchanged := ((w.roomOr cfg room).waits.get req.waitBy).any fun e =>
        e.waitingFor = req.waitingFor && e.reason = req.reason
      if req.waitBy = req.waitingFor || unchanged || env.fails .write then .none
      else .wait req.waitBy
  | clearWait room waiter =>
      if ((w.roomOr cfg room).waits.get waiter).isNone || env.fails .write then .none else .wait waiter
  | updateTask room id req isOperator =>
      let plan := ((w.roomOr cfg room).tasks.get id).bind fun t =>
        (req.plan isOperator env.now w.hub.conditionGeneration t).toOption
      match plan with
      | some (t, true) => if env.fails .write then .none else
          ⟨taskKey t.id :: ((linkedGoal t.progressAt t (w.roomOr cfg room)).map
            fun g => goalKey g.id).toList, none⟩
      | _ => .none
  | updateGoal room id req =>
      let plan := ((w.roomOr cfg room).goals.get id).bind fun g =>
        (req.plan env.now w.hub.conditionGeneration (w.roomOr cfg room) g).toOption
      match plan with
      | some (g, true) => if env.fails .write then .none else ⟨[goalKey g.id], none⟩
      | _ => .none
  | tick _ => .none

end RoomOp

/-! ## The tables afterwards -/

/-- The same attention, in the same hands. -/
structure AttentionRow.SameClaim (r r' : AttentionRow) : Prop where
  id : r'.id = r.id
  room : r'.room = r.room
  claimedBy : r'.claimedBy = r.claimedBy
  claimedAt : r'.claimedAt = r.claimedAt

/-- The same delivery. -/
def OutboxRow.SameDelivery (r r' : OutboxRow) : Prop := r' = { r with ackedAt := r'.ackedAt }

/-- A room's operation has retired what `hit` picks, and has not touched the marks of others. -/
structure Retires (room : String) (hit : String → Bool) (c c' : CareTables) : Prop where
  attentions : Stamped AttentionRow.id AttentionRow.resolvedAt AttentionRow.SameClaim hit
    c.attentions c'.attentions
  outbox : Stamped OutboxRow.attentionId OutboxRow.ackedAt OutboxRow.SameDelivery hit
    c.outbox c'.outbox
  marks : ∀ row : CareMarkRow, row.room ≠ room → (row ∈ c'.marks ↔ row ∈ c.marks)

namespace Retires

variable {room key : String} {now : Nat} {hit hit' : String → Bool} {c c' c'' : CareTables}

theorem same_refl (r : AttentionRow) : r.SameClaim r := ⟨rfl, rfl, rfl, rfl⟩

theorem delivery_refl (r : OutboxRow) : r.SameDelivery r := rfl

theorem delivery_ack (now : Nat) (r : OutboxRow) : r.SameDelivery (r.ack now) := rfl

theorem refl (room : String) (c : CareTables) : Retires room (fun _ => false) c c :=
  ⟨.refl same_refl _, .refl delivery_refl _, fun _ _ => .rfl⟩

theorem trans (h : Retires room hit c c') (h' : Retires room hit' c' c'') :
    Retires room (fun id => hit id || hit' id) c c'' := by
  refine ⟨h.attentions.trans ?_ h'.attentions, h.outbox.trans ?_ h'.outbox, ?_⟩
  · exact fun r s u hs hu => ⟨hu.id.trans hs.id, hu.room.trans hs.room,
      hu.claimedBy.trans hs.claimedBy, hu.claimedAt.trans hs.claimedAt⟩
  · intro r s u hs hu
    unfold OutboxRow.SameDelivery at hs hu ⊢
    rw [hu, hs]
  · exact fun row hr => (h'.marks row hr).trans (h.marks row hr)

theorem of_hit (h : Retires room hit c c') (hhit : ∀ id, hit' id = hit id) : Retires room hit' c c' := by
  obtain rfl : hit' = hit := funext hhit
  exact h

/-- A write that retires nothing, after one that does. -/
theorem quiet (h : Retires room hit c c') (h' : Retires room (fun _ => false) c' c'') :
    Retires room hit c c'' := (h.trans h').of_hit fun _ => (Bool.or_false _).symm

/-- And before. -/
theorem after (h : Retires room (fun _ => false) c c') (h' : Retires room hit c' c'') :
    Retires room hit c c'' := (h.trans h').of_hit fun _ => (Bool.false_or _).symm

theorem stamp (hit : String → Bool) (now : Nat) (c : CareTables) : Retires room hit c { c with
    attentions := updateWhere (fun r => hit r.id) (AttentionRow.resolve now) c.attentions
    outbox := updateWhere (fun r => hit r.attentionId) (OutboxRow.ack now) c.outbox } := by
  have hget : ∀ {x : Option Nat}, x.isSome = true → some (x.getD now) = x := by
    rintro (_ | x) hx
    · cases hx
    · rfl
  refine ⟨.update (f := AttentionRow.resolve now) same_refl (fun _ => rfl) (fun _ => ⟨rfl, rfl, rfl, rfl⟩)
      (fun _ => rfl) ?_ hit _,
    .update (f := OutboxRow.ack now) delivery_refl (fun _ => rfl) (delivery_ack now) (fun _ => rfl) ?_ hit _, fun _ _ => .rfl⟩
  · exact fun r hr => hget hr
  · exact fun r hr => hget hr

theorem unmark (room key : String) (c : CareTables) :
    Retires room (fun _ => false) c (c.deleteMark room key) := by
  refine ⟨.refl same_refl _, .refl delivery_refl _, fun row hr => ?_⟩
  show row ∈ deleteWhere _ c.marks ↔ _
  rw [mem_deleteWhere]
  simp [hr]

theorem reset (room key : String) (now : Nat) (c : CareTables) :
    Retires room (underKey (attentionKey room key)) c (c.resetCare room key now) :=
  (unmark room key c).after (stamp _ now _)

theorem cycle (room : String) (now : Nat) (id : String) (c : CareTables) :
    Retires room (fun k => k = id) c (CareTables.resolveCycle room now c id) := by
  unfold CareTables.resolveCycle
  dsimp only
  split
  · next key _ => exact (unmark room key c).after (stamp _ now _)
  · exact stamp _ now c

theorem cycles (room : String) (now : Nat) (ids : List String) (c : CareTables) :
    Retires room (fun k => ids.contains k) c (ids.foldl (CareTables.resolveCycle room now) c) := by
  induction ids generalizing c with
  | nil => exact refl room c
  | cons id ids ih =>
      refine ((cycle room now id c).trans (ih _)).of_hit fun k => ?_
      rw [List.contains_cons]
      rfl

theorem resolveWait (room waiter : String) (now : Nat) (c : CareTables) :
    Retires room ((Retired.wait waiter).hits room c) c (c.resolveWaitAttentions room waiter now) := by
  have h := (stamp (underKey (attentionKey room (waitKey waiter))) now c).trans
    (cycles room now (c.cycleIds room waiter) _)
  refine h.of_hit fun id => ?_
  simp [Retired.hits, Retired.wait]

theorem mark (room key : String) (last count : Nat) (c : CareTables) :
    Retires room (fun _ => false) c (c.writeMark room key last count) := by
  refine ⟨.refl same_refl _, .refl delivery_refl _, fun row hr => ?_⟩
  show row ∈ upsert _ _ c.marks ↔ _
  rw [mem_upsert]
  constructor
  · rintro (⟨h, -⟩ | rfl)
    · exact h
    · exact absurd rfl hr
  · intro h
    refine .inl ⟨h, fun he => hr ?_⟩
    exact congrArg Prod.fst he

/-- Filing a signal retires nothing. -/
theorem file (room deliveryRoom : String) (s : CareSignal) (c : CareTables) :
    Retires room (fun _ => false) c (c.writeCare deliveryRoom s) := by
  have hdeliver : ∃ added, CareTables.deliver deliveryRoom s c.outbox = c.outbox ++ added := by
    unfold CareTables.deliver
    split
    · exact ⟨[], (List.append_nil _).symm⟩
    · unfold insertIgnore
      split
      · exact ⟨[], (List.append_nil _).symm⟩
      · exact ⟨_, rfl⟩
  obtain ⟨added, hadded⟩ := hdeliver
  have hout : Stamped OutboxRow.attentionId OutboxRow.ackedAt OutboxRow.SameDelivery (fun _ => false)
      c.outbox (CareTables.deliver deliveryRoom s c.outbox) := by
    rw [hadded]
    have h : Stamped OutboxRow.attentionId OutboxRow.ackedAt OutboxRow.SameDelivery (fun _ => false)
        c.outbox (c.outbox.map id ++ added) := by
      refine Stamped.edit ?_ ?_ ?_ added
      · exact fun _ => rfl
      · exact fun _ => rfl
      · exact fun _ => rfl
    rwa [List.map_id] at h
  unfold CareTables.writeCare
  split
  · split
    · refine ⟨?_, hout, fun _ _ => .rfl⟩
      have h : Stamped AttentionRow.id AttentionRow.resolvedAt AttentionRow.SameClaim (fun _ => false)
          c.attentions (c.attentions.map (fun r =>
            if r.id = s.stableId && r.isOpen then { r with signal := s, owner := s.owner } else r) ++ []) :=
        Stamped.edit ?_ ?_ ?_ []
      · rwa [List.append_nil] at h
      · intro r
        split <;> rfl
      · intro r
        split
        · exact ⟨rfl, rfl, rfl, rfl⟩
        · exact same_refl r
      · intro r
        split <;> rfl
    · exact refl room c
  · refine ⟨?_, hout, fun _ _ => .rfl⟩
    have h : Stamped AttentionRow.id AttentionRow.resolvedAt AttentionRow.SameClaim (fun _ => false)
        c.attentions (c.attentions.map id ++ [s.newRow]) :=
      Stamped.edit (fun _ => rfl) same_refl (fun _ => rfl) [s.newRow]
    rwa [List.map_id] at h

theorem files (room : String) (f : CareSignal → String) (signals : List CareSignal) (c : CareTables) :
    Retires room (fun _ => false) c (signals.foldl (fun c s => c.writeCare (f s) s) c) := by
  induction signals generalizing c with
  | nil => exact refl room c
  | cons s signals ih => exact (file room (f s) s c).quiet (ih _)

end Retires

/-! ## Every operation -/

section Ops

variable {cfg : Config} {env : Env} (hp : cfg.persistent = true)
include hp

omit hp in
theorem Edits.elsewhere {room name : String} {r : Room} {db : Db} {w w' : World}
    (h : Edits cfg room r db w w') (hne : name ≠ room) : w'.roomOr cfg name = w.roomOr cfg name := by
  rw [h.rooms, Function.update_of_ne hne]

end Ops

/-! ## A participant's own wait -/

/-- Does memory retire this attention? -/
def Retired.ends (room : String) (x : Retired) (id : String) (a : Attention) : Bool :=
  (x.keys.any fun key => underKey (attentionKey room key) id) ||
    x.waiter.any fun waiter => a.reason = .waitCycle && a.participants.contains waiter

/-- The ledger reads a signal back under its own id. -/
theorem readAttention_id {env : Env} {db : Db} {s : CareSignal} (h : LedgerSound db.care) :
    (World.readAttention env db s).id = s.stableId := by
  unfold World.readAttention CareTables.attention CareTables.row
  split
  · rfl
  · cases hf : db.care.attentions.find? fun r => r.id = s.stableId with
    | none => rfl
    | some r =>
        show r.signal.stableId = s.stableId
        rw [h.named r (List.mem_of_find?_eq_some hf)]
        simpa using List.find?_some hf

section Memory

variable {cfg : Config} {env : Env} (hp : cfg.persistent = true)
include hp

end Memory

/-! ## Isolation -/

section Isolation

variable {cfg : Config} {env : Env} (hp : cfg.persistent = true) {w : World} (hown : Homed cfg w)
include hp hown

end Isolation

end Loca
