/-
# `Loca.Hub.Spoken` — what an accepted post leaves behind

The four transactions of a post differ in the state that goes with the message.
`persist_ok` says once, for all of them, what was checked and which tables changed;
`mirror_eq` says the same of the room's memory.
-/
import Loca.Hub.Post

namespace Loca

open Check

variable {cfg : Config} {env : Env}

/-! ## On disk -/

/-- The care tables after an accepted post: silence is over, a wake retires the waiter's
reminders, and the signals are filed. -/
def PostDraft.care (cfg : Config) (now : Nat) (q : PostRequest) (d : PostDraft) (c : CareTables) :
    CareTables :=
  let c := c.resetSilenceCare q.room d.msg.ts
  match d.wake with
  | some (wait, wake) => (c.resolveWaitAttentions q.room wait.waiter now).writeCare q.room wake
  | none => d.summons.foldl (CareTables.writeCare cfg.homeRoom) c

/-- The room rows after an accepted post. -/
def PostDraft.roomRows (q : PostRequest) (r : Room) (d : PostDraft) (rows : List RoomRow) :
    List RoomRow :=
  match d.moved with
  | some mode => Table.insertOrUpdate RoomRow.room ⟨q.room, mode, r.settings, none⟩
      (fun row => { row with mode := mode, settings := r.settings }) rows
  | none => rows

def PostDraft.waitRows (d : PostDraft) (rows : List WaitState) : List WaitState :=
  match d.wake with
  | some (wait, _) => Table.upsert (fun r => (r.room, r.waiter)) wait rows
  | none => rows

/-- What a post's transaction, whichever of the four, has checked and written. -/
theorem persist_ok {now : Nat} {q : PostRequest} {r : Room} {d : PostDraft} {db db' : Db}
    (hroom : d.msg.room = q.room) (h : d.persist cfg now q r db = .ok db') :
    isSealed q.room db = false ∧ (∀ row ∈ db.messages, row.id ≠ d.msg.id) ∧
    (∀ row ∈ db.messages, q.operation.isSome → ¬(row.room = q.room ∧ row.operation = q.operation)) ∧
    ∃ refs pending, db' = { db.withCare (d.care cfg now q db.care) with
      messages := db.messages ++ [MessageRow.ofMessage d.msg q.operation]
      rooms := d.roomRows q r db.rooms
      waits := d.waitRows db.waits
      attachmentRefs := refs
      attachmentPending := pending } := by
  have hstate : ∀ {db₁ : Db},
      writeRoomState? q.room (d.moved.map fun mode => (mode, r.settings)) db = .ok db₁ →
      db₁ = { db with rooms := d.roomRows q r db.rooms } := by
    intro db₁ hw
    unfold PostDraft.roomRows
    cases hm : d.moved with
    | none => rw [hm] at hw; cases hw; rfl
    | some mode => rw [hm] at hw; exact (writeRoomState_ok.mp hw).2
  rw [← hroom] at hstate ⊢
  unfold PostDraft.care PostDraft.waitRows
  cases hwake : d.wake with
  | some p =>
      simp only [PostDraft.persist, hwake, insertMessageWithWaitWake, requireUnsealedRoom, bind_ok,
        require_ok, pure_ok, exists_const] at h
      obtain ⟨hsealed, db₁, h₁, db₂, h₂, rfl⟩ := h
      obtain rfl := hstate h₁
      obtain ⟨hid, hop, refs, pending, rfl⟩ := writeMessage_ok h₂
      exact ⟨hsealed, hid, hop, refs, pending, by rw [hroom]; rfl⟩
  | none =>
      cases hsum : d.summons with
      | cons s ss =>
          simp only [PostDraft.persist, hwake, hsum, insertMessageWithCare, requireUnsealedRoom,
            bind_ok, require_ok, pure_ok, exists_const] at h
          obtain ⟨hsealed, db₁, h₁, db₂, h₂, rfl⟩ := h
          obtain rfl := hstate h₁
          obtain ⟨hid, hop, refs, pending, rfl⟩ := writeMessage_ok h₂
          exact ⟨hsealed, hid, hop, refs, pending, by rw [hroom]; rfl⟩
      | nil =>
          unfold PostDraft.roomRows
          cases hmoved : d.moved with
          | some mode =>
              simp only [PostDraft.persist, hwake, hsum, hmoved, insertMessageWithRoom, bind_ok] at h
              obtain ⟨db₁, h₁, h₂⟩ := h
              obtain ⟨hsealed, rfl⟩ := writeRoomState_ok.mp h₁
              obtain ⟨hid, hop, refs, pending, rfl⟩ := writeMessage_ok h₂
              exact ⟨hsealed, hid, hop, refs, pending, by rw [hroom]; rfl⟩
          | none =>
              simp only [PostDraft.persist, hwake, hsum, hmoved, insertMessage, requireUnsealedRoom,
                bind_ok, require_ok, exists_const] at h
              obtain ⟨hsealed, h₂⟩ := h
              obtain ⟨hid, hop, refs, pending, rfl⟩ := writeMessage_ok h₂
              exact ⟨hsealed, hid, hop, refs, pending, by rw [hroom]; rfl⟩

/-! ## In memory -/

/-- The waits after an accepted post. -/
def PostDraft.waits (d : PostDraft) (waits : Assoc String WaitState) : Assoc String WaitState :=
  match d.wake with
  | some (wait, _) => waits.put wait.waiter wait
  | none => waits

/-- The room after an accepted post, but for its marks and attentions. -/
def PostDraft.heard (env : Env) (q : PostRequest) (d : PostDraft) (r : Room) : Room :=
  { (((q.stampRate env.now r).rememberOperation q.operation d.msg).setMode? d.moved).appendHistory
      d.msg with
    waits := d.waits r.waits }

theorem foldl_fileAttention {α : Type} (f : α → Attention) (l : List α) (r : Room) :
    ∃ attentions, l.foldl (fun r s => r.fileAttention (f s)) r = { r with attentions := attentions } := by
  induction l generalizing r with
  | nil => exact ⟨r.attentions, rfl⟩
  | cons s l ih =>
      obtain ⟨attentions, h⟩ := ih (r.fileAttention (f s))
      exact ⟨attentions, h⟩

theorem appendHistory_care (m : Message) (r : Room) (marks : Assoc String CareMark)
    (attentions : Assoc String Attention) :
    Room.appendHistory m { r with careMarks := marks, attentions := attentions } =
      { r.appendHistory m with careMarks := marks, attentions := attentions } := by
  unfold Room.appendHistory
  dsimp only

theorem rememberOperation_eq (o : Option Operation) (m : Message) (r : Room) :
    ∃ operations order, r.rememberOperation o m =
      { r with operations := operations, operationOrder := order } := by
  unfold Room.rememberOperation
  split
  · exact ⟨r.operations, r.operationOrder, rfl⟩
  · exact ⟨_, _, rfl⟩

theorem stampRate_eq (q : PostRequest) (now : Nat) (r : Room) :
    ∃ times, q.stampRate now r = { r with postTimes := times } := by
  unfold PostRequest.stampRate
  split
  · exact ⟨_, rfl⟩
  · exact ⟨r.postTimes, rfl⟩

theorem expireStamps_eq (q : PostRequest) (now : Nat) (r : Room) :
    ∃ times, q.expireStamps now r = { r with postTimes := times } := by
  unfold PostRequest.expireStamps
  split
  · exact ⟨_, rfl⟩
  · exact ⟨r.postTimes, rfl⟩

theorem spoken_eq (q : PostRequest) (d : PostDraft) (r : Room) :
    ∃ marks attentions, d.spoken env q r =
      { (((q.stampRate env.now r).rememberOperation q.operation d.msg).setMode? d.moved).appendHistory d.msg
        with careMarks := marks, attentions := attentions } :=
  ⟨_, _, appendHistory_care _ _ _ _⟩

theorem wakeWait_eq (room : String) (now : Nat) (wait : WaitState) (a : Attention) (r : Room) :
    ∃ marks attentions, r.wakeWait room now wait a =
      { r with
        waits := r.waits.put wait.waiter wait, careMarks := marks, attentions := attentions } :=
  ⟨_, _, rfl⟩

theorem appended_waits (q : PostRequest) (now : Nat) (d : PostDraft) (r : Room) :
    ((((q.stampRate now r).rememberOperation q.operation d.msg).setMode? d.moved).appendHistory
      d.msg).waits = r.waits := by
  obtain ⟨times, ht⟩ := stampRate_eq q now r
  obtain ⟨ops, ord, ho⟩ := rememberOperation_eq q.operation d.msg (q.stampRate now r)
  rw [ho, ht]
  unfold Room.appendHistory
  rfl

/-- The work a post leaves alone, and the wait it renews. -/
theorem heard_eq (q : PostRequest) (d : PostDraft) (r : Room) :
    (d.heard env q r).tasks = r.tasks ∧ (d.heard env q r).goals = r.goals ∧
      (d.heard env q r).waits = d.waits r.waits := by
  obtain ⟨times, ht⟩ := stampRate_eq q env.now r
  obtain ⟨ops, ord, ho⟩ := rememberOperation_eq q.operation d.msg (q.stampRate env.now r)
  unfold PostDraft.heard Room.appendHistory
  rw [ho, ht]
  exact ⟨rfl, rfl, rfl⟩

theorem mirror_eq (q : PostRequest) (db : Db) (d : PostDraft) (r : Room) :
    ∃ marks attentions, d.mirror env q db r =
      { d.heard env q r with careMarks := marks, attentions := attentions } := by
  have hwaits := appended_waits q env.now d r
  obtain ⟨marks, atts, hs⟩ := @spoken_eq env q d r
  obtain ⟨attentions, hfold⟩ :=
    foldl_fileAttention (fun s => World.readAttention env db s) d.summons (d.spoken env q r)
  unfold PostDraft.mirror PostDraft.heard PostDraft.waits
  rw [hfold, hs, ← hwaits]
  generalize (((q.stampRate env.now r).rememberOperation q.operation d.msg).setMode?
    d.moved).appendHistory d.msg = y
  cases d.wake with
  | none => exact ⟨marks, attentions, rfl⟩
  | some p =>
      obtain ⟨marks', atts', hw⟩ := wakeWait_eq q.room env.now p.1 (World.readAttention env db p.2)
        { y with careMarks := marks, attentions := attentions }
      exact ⟨marks', atts', hw⟩

end Loca
