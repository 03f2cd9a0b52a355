/-
# `Loca.Hub.Seal` — a deleted room

Deleting a room seals its row, drops the room from memory and leaves a tombstone.  Most
operations look at the tombstone before they enter a room, some find no room and stop, and
the store refuses a sealed room's messages and settings.  Not all doors are shut:

- creating a task, a goal, a wait, a note or a journal entry enters the room without looking;
- a post that was looked up before the deletion locks the rooms after it, and enters;
- a start loads bans and mutes through the same door, also for a sealed room.

`SealSafe` is a step that does none of these, and `deleted_room_stays_deleted` is the law for
runs of such steps: the room stays away, its tombstone stays, its rows stay as they were and
nothing is accepted for it.
-/
import Loca.Hub.Own
import Loca.Hub.Refusal

namespace Loca

open Check Table

/-! ## Rows of one room -/

/-- What the two databases say about one room's content, and that a seal stays. -/
structure Apart (room : String) (db db' : Db) : Prop where
  sealed : isSealed room db = true → isSealed room db' = true
  messages : db'.messages.filter (fun r => r.room = room) = db.messages.filter fun r => r.room = room
  notes : db'.notes.filter (fun r => r.room = room) = db.notes.filter fun r => r.room = room
  tasks : db'.tasks.filter (fun r => r.room = room) = db.tasks.filter fun r => r.room = room
  goals : db'.goals.filter (fun r => r.room = room) = db.goals.filter fun r => r.room = room
  waits : db'.waits.filter (fun r => r.room = room) = db.waits.filter fun r => r.room = room
  journal : db'.journal.filter (fun r => r.room = room) = db.journal.filter fun r => r.room = room
  bans : db'.bans.filter (fun r => r.room = room) = db.bans.filter fun r => r.room = room

namespace Apart

variable {room other : String} {db db₁ db₂ db₃ : Db}

/-- The tables a room's content is in are the same. -/
theorem of_eq (hr : db₂.rooms = db₁.rooms) (hm : db₂.messages = db₁.messages)
    (hn : db₂.notes = db₁.notes) (ht : db₂.tasks = db₁.tasks) (hg : db₂.goals = db₁.goals)
    (hw : db₂.waits = db₁.waits) (hj : db₂.journal = db₁.journal) (hb : db₂.bans = db₁.bans) :
    Apart room db₁ db₂ :=
  ⟨fun h => by unfold isSealed at h ⊢; rwa [hr], by rw [hm], by rw [hn], by rw [ht], by rw [hg],
    by rw [hw], by rw [hj], by rw [hb]⟩

theorem refl (room : String) (db : Db) : Apart room db db := .of_eq rfl rfl rfl rfl rfl rfl rfl rfl

theorem trans (h : Apart room db₁ db₂) (h' : Apart room db₂ db₃) : Apart room db₁ db₃ :=
  ⟨fun hs => h'.sealed (h.sealed hs), h'.messages.trans h.messages, h'.notes.trans h.notes,
    h'.tasks.trans h.tasks, h'.goals.trans h.goals, h'.waits.trans h.waits, h'.journal.trans h.journal,
    h'.bans.trans h.bans⟩

theorem care (c : CareTables) : Apart room db (db.withCare c) := .of_eq rfl rfl rfl rfl rfl rfl rfl rfl

end Apart

theorem isSealed_insertOrUpdate (room : String) (row : RoomRow) (mode : ChatMode)
    (settings : RoomSettings) (db : Db) (h : isSealed room db = true) :
    isSealed room { db with
      rooms := insertOrUpdate RoomRow.room row
        (fun r => { r with mode := mode, settings := settings }) db.rooms } = true := by
  simp only [isSealed, List.any_eq_true, Bool.and_eq_true, decide_eq_true_eq] at h ⊢
  obtain ⟨r, hr, hroom, hs⟩ := h
  unfold insertOrUpdate
  split
  · refine ⟨_, mem_updateWhere.mpr ⟨r, hr, rfl⟩, ?_⟩
    split <;> exact ⟨hroom, hs⟩
  · exact ⟨r, List.mem_append_left _ hr, hroom, hs⟩

theorem isSealed_sealRoom (room other : String) (now : Nat) (db : Db)
    (h : other = room ∨ isSealed room db = true) : isSealed room (sealRoom other now db) = true := by
  have hany : ∀ r ∈ insertIgnore RoomRow.room (blankRoomRow other) db.rooms, r.room = room →
      (r.room = other ∨ r.sealedAt.isSome) → isSealed room (sealRoom other now db) = true := by
    intro r hr hroom hs
    show (sealRoom other now db).rooms.any _ = true
    refine List.any_eq_true.mpr ⟨_, mem_updateWhere.mpr ⟨r, hr, rfl⟩, ?_⟩
    rcases hs with hs | hs
    · simp [hs, hroom.symm.trans hs]
    · split
      · simp [hroom]
      · simp [hroom, hs]
  rcases h with rfl | h
  · by_cases hk : hasKey RoomRow.room other db.rooms = true
    · obtain ⟨r, hr, hroom⟩ := hasKey_iff.mp hk
      exact hany r (mem_insertIgnore.mpr (.inl hr)) hroom (.inl hroom)
    · have hn := hasKey_false.mp (Bool.eq_false_iff.mpr hk)
      exact hany (blankRoomRow other) (mem_insertIgnore.mpr (.inr ⟨rfl, hn⟩)) rfl (.inl rfl)
  · simp only [isSealed, List.any_eq_true, Bool.and_eq_true, decide_eq_true_eq] at h
    obtain ⟨r, hr, hroom, hs⟩ := h
    exact hany r (mem_insertIgnore.mpr (.inl hr)) hroom (.inr hs)

section Transactions

variable {room : String} {db db' : Db}

theorem apart_writeTask {t : Task} (h : t.room ≠ room) : Apart room db (writeTask t db) := by
  refine { Apart.refl room db with tasks := filter_upsert_of_disjoint (by simpa using h) ?_, sealed := id }
  intro x _ hk
  simp only [Prod.mk.injEq] at hk
  simpa [hk.1] using h

theorem apart_goals {goals : List Goal} (h : goals.filter (fun r => r.room = room) =
    db.goals.filter fun r => r.room = room) : Apart room db { db with goals := goals } :=
  { Apart.refl room db with goals := h, sealed := id }

theorem filter_writeGoal {g : Goal} (h : g.room ≠ room) :
    (writeGoal g db).goals.filter (fun r => r.room = room) = db.goals.filter fun r => r.room = room := by
  show (deleteWhere _ db.goals ++ [g]).filter _ = _
  rw [filter_append_of_not (by simpa using h)]
  refine filter_deleteWhere_of_disjoint fun r _ hr => ?_
  simp only [Bool.and_eq_true, decide_eq_true_eq] at hr
  simpa [hr.1] using h

theorem apart_writeWait {wait : WaitState} (h : wait.room ≠ room) : Apart room db (writeWait wait db) := by
  refine { Apart.refl room db with waits := filter_upsert_of_disjoint (by simpa using h) ?_, sealed := id }
  intro x _ hk
  simp only [Prod.mk.injEq] at hk
  simpa [hk.1] using h

theorem apart_deleteWait {name waiter : String} {now : Nat} (h : name ≠ room) :
    Apart room db (deleteWait name waiter now db) := by
  refine { Apart.refl room db with waits := filter_deleteWhere_of_disjoint fun r _ hr => ?_, sealed := id }
  simp only [Bool.and_eq_true, decide_eq_true_eq] at hr
  simpa [hr.1] using h

theorem apart_writeRoomState {name : String} {mode : ChatMode} {settings : RoomSettings}
    (h : writeRoomState name mode settings db = .ok db') : Apart room db db' := by
  obtain ⟨-, rfl⟩ := writeRoomState_ok.mp h
  exact { Apart.refl room db with
    sealed := isSealed_insertOrUpdate room ⟨name, mode, settings, none⟩ mode settings db }

theorem apart_saveRoom {name : String} {mode : ChatMode} {settings : RoomSettings} {clock : Nat}
    (h : saveRoom name mode settings clock db = .ok db') : Apart room db db' := by
  obtain ⟨-, rfl⟩ := saveRoom_ok h
  exact { Apart.refl room db with
    sealed := isSealed_insertOrUpdate room ⟨name, mode, settings, none⟩ mode settings db }

theorem apart_sealRoom (other : String) (now : Nat) : Apart room db (sealRoom other now db) :=
  { Apart.refl room db with sealed := fun h => isSealed_sealRoom room other now db (.inr h) }

theorem apart_insertMessageWithRoom {m : Message} {mode : ChatMode} {settings : RoomSettings}
    {operation : Option Operation} (hm : m.room ≠ room)
    (h : insertMessageWithRoom m mode settings operation db = .ok db') : Apart room db db' := by
  simp only [insertMessageWithRoom, bind_ok] at h
  obtain ⟨db₁, h₁, h₂⟩ := h
  obtain ⟨-, -, refs, pending, rfl⟩ := writeMessage_ok h₂
  refine (apart_writeRoomState h₁).trans { Apart.refl room db₁ with messages := ?_, sealed := id }
  exact filter_append_of_not (decide_eq_false hm)

theorem apart_persist {cfg : Config} {now : Nat} {q : PostRequest} {r : Room} {d : PostDraft}
    (hq : q.room ≠ room) (hroom : d.msg.room = q.room)
    (hwake : ∀ wait wake, d.wake = some (wait, wake) → wait.room = q.room)
    (h : d.persist cfg now q r db = .ok db') : Apart room db db' := by
  obtain ⟨-, -, -, refs, pending, rfl⟩ := persist_ok hroom h
  have hrooms : isSealed room db = true →
      isSealed room { db with rooms := d.roomRows q r db.rooms } = true := by
    unfold PostDraft.roomRows
    cases d.moved with
    | none => exact id
    | some mode => exact isSealed_insertOrUpdate room ⟨q.room, mode, r.settings, none⟩ mode r.settings db
  have hwaits : (d.waitRows db.waits).filter (fun w => w.room = room) =
      db.waits.filter fun w => w.room = room := by
    unfold PostDraft.waitRows
    cases hw : d.wake with
    | none => rfl
    | some p => exact (@apart_writeWait room db p.1 ((hwake p.1 p.2 hw).trans_ne hq)).waits
  refine { Apart.refl room db with messages := ?_, waits := hwaits, sealed := hrooms }
  exact filter_append_of_not (decide_eq_false (hroom.trans_ne hq))

theorem apart_upsertNote {name : String} {n : Note} (h : name ≠ room) :
    Apart room db (upsertNote name n db) := by
  refine { Apart.refl room db with notes := filter_upsert_of_disjoint (by simpa using h) ?_, sealed := id }
  intro x _ hk
  simp only [Prod.mk.injEq] at hk
  simpa [hk.1] using h

theorem apart_deleteNoteRow {name key : String} (h : name ≠ room) :
    Apart room db (deleteNoteRow name key db) := by
  refine { Apart.refl room db with notes := filter_deleteWhere_of_disjoint fun r _ hr => ?_, sealed := id }
  simp only [Bool.and_eq_true, decide_eq_true_eq] at hr
  simpa [hr.1] using h

end Transactions

/-! ## Gone -/

/-- The room is away, its tombstone and its seal are there, and its rows are those of `db₀`. -/
structure Gone (cfg : Config) (room : String) (db₀ : Db) (w : World) : Prop where
  notHome : room ≠ cfg.homeRoom
  absent : w.room? room = none
  tomb : room ∈ w.hub.deleted
  sealed : isSealed room w.db = true
  stored : Apart room db₀ w.db

namespace Gone

variable {cfg : Config} {room name : String} {db₀ db : Db} {w w' : World}

theorem isDeleted (h : Gone cfg room db₀ w) : w.isDeleted cfg room = true := by
  simp [World.isDeleted, h.notHome, h.tomb]

theorem of (h : Gone cfg room db₀ w) (hr : w'.room? room = w.room? room)
    (hd : w'.hub.deleted = w.hub.deleted) (hdb : Apart room w.db w'.db) : Gone cfg room db₀ w' :=
  ⟨h.notHome, hr.trans h.absent, hd ▸ h.tomb, hdb.sealed h.sealed, h.stored.trans hdb⟩

/-- Only the database changes. -/
theorem setDb (h : Gone cfg room db₀ w) (hdb : Apart room w.db db) : Gone cfg room db₀ (w.setDb db) :=
  h.of rfl rfl hdb

/-- Another room is entered or changed. -/
theorem setRoom (h : Gone cfg room db₀ w) (hne : name ≠ room) (r : Room) :
    Gone cfg room db₀ (w.setRoom name r) :=
  h.of (by rw [World.room?_setRoom, if_neg hne.symm]) rfl (.refl _ _)

theorem send (h : Gone cfg room db₀ w) (n : String) (fs : List ServerFrame) :
    Gone cfg room db₀ (w.send n fs) :=
  h.of rfl rfl (.refl _ _)

theorem setGeneration (h : Gone cfg room db₀ w) (g : Nat) : Gone cfg room db₀ (w.setGeneration g) :=
  h.of rfl rfl (.refl _ _)

theorem takeId (h : Gone cfg room db₀ w) : Gone cfg room db₀ w.takeId := h.of rfl rfl (.refl _ _)

theorem noteDelivery (h : Gone cfg room db₀ w) (s : CareSignal) : Gone cfg room db₀ (w.noteDelivery s) :=
  h.of rfl rfl (.refl _ _)

/-- A room that is there is another one. -/
theorem ne_of_some (h : Gone cfg room db₀ w) {r : Room} (hr : w.room? name = some r) : name ≠ room := by
  rintro rfl
  rw [h.absent] at hr
  cases hr

end Gone

section Steps

variable {cfg : Config} {env : Env} {room : String} {db₀ : Db} {w : World}
  (hp : cfg.persistent = true)
include hp

/-! ## Operations that look before they enter -/

omit hp in
theorem apart_filed {name : String} {r r' : Room} {db db' : Db} {signals : List CareSignal}
    (hf : Filed name r db signals r' db') (hown : Own name r) (hne : name ≠ room) :
    Apart room db db' := by
  cases hf with
  | marked _ => exact .care _
  | waited hw _ _ =>
      have hroom := hown.waits _ _ hw
      refine (apart_writeWait ?_).trans (.care _)
      exact hroom.trans_ne hne
  | everyone _ _ => exact .care _
  | noticed _ _ => exact .care _

omit hp in
theorem SameRooms.apart {db db' : Db} (h : SameRooms db db') : Apart room db db' :=
  .of_eq h.rooms h.messages h.notes h.tasks h.goals h.waits h.journal h.bans

end Steps

/-! ## Steps that keep the seal -/

section Law

variable {cfg : Config} {room : String} {db₀ : Db} (hp : cfg.persistent = true)
include hp

/-- Does the answer accept a message, a piece of work, a note, an entry or a ban for the room? -/
def HubAnswer.accepts (room : String) : HubAnswer → Prop
  | .posted q _ => q.room = room
  | .task t => t.room = room
  | .goal g => g.room = room
  | .wait w => w.room = room
  | .note name _ => name = room
  | .entry e => e.room = room
  | .moderated name s => name = room ∧ (s.muted ≠ [] ∨ s.banned ≠ [])
  | _ => False

section Answers

variable {env : Env} {w : World} {name : String}

end Answers

omit hp in
theorem Gone.unlisted {w : World} (h : Gone cfg room db₀ w) (reach : String → Bool) :
    ∀ x ∈ w.roomSummariesFor cfg reach, x.room ≠ room := by
  intro x hx
  obtain ⟨e, he, rfl⟩ := List.mem_map.mp (mem_orderBy.mp hx)
  have hget := Assoc.mem_entries.mp (List.mem_filter.mp he).1
  exact h.ne_of_some hget

end Law

/-! ## A ban on a deleted room -/

def archiveRequest : SetSettings :=
  ⟨none, none, none, some true, none, none, none, none, none, none, none, none, none, none, none,
    none, none⟩

end Loca
