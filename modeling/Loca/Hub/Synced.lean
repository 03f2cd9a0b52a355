/-
# `Loca.Hub.Synced` — a room in memory and its rows

While a server runs on a database, what a room holds in memory is what its rows say: its
mode and settings, its tasks, goals, waits and notes, and its journal.  `Synced` is that
agreement for one room, and `Agreed` is the law that every run keeps: it holds for every
room that is not sealed, whatever fails and however often the server restarts.

One thing is not in the rows.  A room that has no row of its own runs with the settings the
server was configured with, and comes back with the built-in ones.
-/
import Mathlib.Data.List.Dedup
import Loca.Base.Mirror
import Loca.Hub.Seal

namespace Loca

open Check Mirror Table

/-! ## Rows of other rooms -/

/-- The databases agree on a room's content, its row and its archived revisions. -/
structure Beside (room : String) (db db' : Db) : Prop extends Apart room db db' where
  rooms : db'.rooms.filter (fun r => r.room = room) = db.rooms.filter fun r => r.room = room
  revisions : db'.noteRevisions.filter (fun r => r.room = room) =
    db.noteRevisions.filter fun r => r.room = room

namespace Beside

variable {room : String} {db db' db'' : Db}

theorem of_apart (h : Apart room db db') (hr : db'.rooms = db.rooms)
    (hv : db'.noteRevisions = db.noteRevisions) : Beside room db db' :=
  ⟨h, by rw [hr], by rw [hv]⟩

theorem refl (room : String) (db : Db) : Beside room db db := .of_apart (.refl room db) rfl rfl

theorem trans (h : Beside room db db') (h' : Beside room db' db'') : Beside room db db'' :=
  ⟨h.toApart.trans h'.toApart, h'.rooms.trans h.rooms, h'.revisions.trans h.revisions⟩

theorem same (h : SameContent db db') (hb : db'.bans = db.bans) : Beside room db db' :=
  .of_apart (.of_eq h.rooms h.messages h.notes h.tasks h.goals h.waits h.journal hb) h.rooms
    h.noteRevisions

/-- Whether a room is sealed is in its row. -/
theorem isSealed_eq (h : Beside room db db') : isSealed room db' = isSealed room db := by
  have hfilter : ∀ d : Db, isSealed room d =
      (d.rooms.filter fun r => r.room = room).any fun r => r.sealedAt.isSome := by
    intro d
    rw [List.any_filter]
    rfl
  rw [hfilter, hfilter, h.rooms]

end Beside

section Rows

variable {room name : String} {db db' : Db}

/-- The row of one room is written; the rows of others stay. -/
theorem filter_roomRow {mode : ChatMode} {settings : RoomSettings} {rows : List RoomRow}
    (h : name ≠ room) :
    (insertOrUpdate RoomRow.room ⟨name, mode, settings, none⟩
      (fun r => { r with mode := mode, settings := settings }) rows).filter (fun r => r.room = room) =
    rows.filter fun r => r.room = room := by
  refine filter_insertOrUpdate_of_disjoint (by simpa using h) fun x _ hk => ?_
  have hx : x.room ≠ room := fun he => h (hk.symm.trans he)
  exact ⟨by simpa using hx, by simpa using hx⟩

theorem beside_writeRoomState {mode : ChatMode} {settings : RoomSettings} (hne : name ≠ room)
    (h : writeRoomState name mode settings db = .ok db') : Beside room db db' := by
  have ha := @apart_writeRoomState room db db' name mode settings h
  obtain ⟨-, rfl⟩ := writeRoomState_ok.mp h
  exact ⟨ha, filter_roomRow hne, rfl⟩

theorem beside_saveRoom {mode : ChatMode} {settings : RoomSettings} {clock : Nat} (hne : name ≠ room)
    (h : saveRoom name mode settings clock db = .ok db') : Beside room db db' := by
  have ha := @apart_saveRoom room db db' name mode settings clock h
  obtain ⟨-, rfl⟩ := saveRoom_ok h
  exact ⟨ha, filter_roomRow hne, rfl⟩

theorem beside_insertMessageWithRoom {m : Message} {mode : ChatMode} {settings : RoomSettings}
    {operation : Option Operation} (hne : m.room ≠ room)
    (h : insertMessageWithRoom m mode settings operation db = .ok db') : Beside room db db' := by
  have ha := apart_insertMessageWithRoom hne h
  simp only [insertMessageWithRoom, bind_ok] at h
  obtain ⟨db₁, h₁, h₂⟩ := h
  obtain ⟨-, -, refs, pending, rfl⟩ := writeMessage_ok h₂
  obtain ⟨-, rfl⟩ := writeRoomState_ok.mp h₁
  exact ⟨ha, filter_roomRow hne, rfl⟩

theorem beside_sealRoom {now : Nat} (hne : name ≠ room) : Beside room db (sealRoom name now db) := by
  refine ⟨apart_sealRoom name now, ?_, rfl⟩
  show (updateWhere _ _ (insertIgnore RoomRow.room (blankRoomRow name) db.rooms)).filter _ = _
  rw [filter_updateWhere_of_disjoint]
  · unfold insertIgnore
    split
    · rfl
    · exact filter_append_of_not (decide_eq_false hne)
  · intro r _ hr
    have hroom : r.room = name := by simpa using hr
    simp [hroom, hne]

theorem beside_persist {cfg : Config} {now : Nat} {q : PostRequest} {r : Room} {d : PostDraft}
    (hq : q.room ≠ room) (hroom : d.msg.room = q.room)
    (hwake : ∀ wait wake, d.wake = some (wait, wake) → wait.room = q.room)
    (h : d.persist cfg now q r db = .ok db') : Beside room db db' := by
  have ha := apart_persist hq hroom hwake h
  obtain ⟨-, -, -, refs, pending, rfl⟩ := persist_ok hroom h
  refine ⟨ha, ?_, rfl⟩
  show (d.roomRows q r db.rooms).filter _ = _
  unfold PostDraft.roomRows
  cases d.moved with
  | none => rfl
  | some mode => exact filter_roomRow hq

theorem beside_replaceNote {previous updated : Note} (hne : name ≠ room)
    (h : replaceNote name previous updated db = .ok db') : Beside room db db' := by
  simp only [replaceNote, bind_ok, found_ok, pure_ok] at h
  obtain ⟨revisions, hr, rfl⟩ := h
  obtain ⟨-, rfl⟩ := insertNew_eq_some.mp hr
  have ha : ∀ rows, Apart room db { db with noteRevisions := rows } :=
    fun _ => .of_eq rfl rfl rfl rfl rfl rfl rfl rfl
  exact ⟨(ha _).trans (apart_upsertNote hne), rfl, filter_append_of_not (decide_eq_false hne)⟩

end Rows

/-! ## Agreement -/

/-- What one room holds in memory is what its rows say. -/
structure Synced (cfg : Config) (name : String) (r : Room) (db : Db) : Prop where
  notes : Holds (fun row : NoteRow => row.note.key) NoteRow.note
    (db.notes.filter fun row => row.room = name) r.notes
  revs : ∀ key n, r.notes.get key = some n → n.rev < r.nextRev
  tasks : Holds Task.id id (db.tasks.filter fun t => t.room = name) r.tasks
  goals : Holds Goal.id id (db.goals.filter fun g => g.room = name) r.goals
  /-- At most one goal is active. -/
  active : ∀ i j g g', r.goals.get i = some g → r.goals.get j = some g' →
    g.status = .active → g'.status = .active → i = j
  waits : Holds WaitState.waiter id (db.waits.filter fun w => w.room = name) r.waits
  journal : db.journal.filter (fun e => e.room = name) = r.journal
  ordered : r.journal.Pairwise fun a b => a.id < b.id
  nextEntry : ∀ e ∈ r.journal, e.id < r.nextJournalId
  row : ∀ row ∈ db.rooms, row.room = name → r.mode = row.mode ∧ r.settings = row.settings
  bare : (∀ row ∈ db.rooms, row.room ≠ name) → r.mode = .free ∧
    (r.settings = cfg.defaultSettings ∨ r.settings = RoomSettings.default)

/-- The parts of a room that its rows speak of. -/
def Room.kept (r : Room) := (r.notes, r.nextRev, r.tasks, r.goals, r.waits, r.journal, r.nextJournalId,
  r.mode, r.settings)

/-- The tables that speak of them. -/
def Db.kept (db : Db) := (db.notes, db.tasks, db.goals, db.waits, db.journal, db.rooms)

theorem SameContent.kept {db db' : Db} (h : SameContent db db') : db'.kept = db.kept := by
  unfold Db.kept
  rw [h.notes, h.tasks, h.goals, h.waits, h.journal, h.rooms]

namespace Synced

variable {cfg : Config} {name : String} {r r' : Room} {db db' : Db}

theorem of_eq (h : Synced cfg name r db) (hr : r'.kept = r.kept) (hdb : db'.kept = db.kept) :
    Synced cfg name r' db' := by
  simp only [Room.kept, Prod.mk.injEq] at hr
  simp only [Db.kept, Prod.mk.injEq] at hdb
  obtain ⟨h₁, h₂, h₃, h₄, h₅, h₆, h₇, h₈, h₉⟩ := hr
  obtain ⟨d₁, d₂, d₃, d₄, d₅, d₆⟩ := hdb
  constructor
  · rw [h₁, d₁]; exact h.notes
  · rw [h₁, h₂]; exact h.revs
  · rw [h₃, d₂]; exact h.tasks
  · rw [h₄, d₃]; exact h.goals
  · rw [h₄]; exact h.active
  · rw [h₅, d₄]; exact h.waits
  · rw [h₆, d₅]; exact h.journal
  · rw [h₆]; exact h.ordered
  · rw [h₆, h₇]; exact h.nextEntry
  · rw [h₈, h₉, d₆]; exact h.row
  · rw [h₈, h₉, d₆]; exact h.bare

/-- A write beside the room is not seen. -/
theorem beside (h : Synced cfg name r db) (hb : Beside name db db') : Synced cfg name r db' := by
  have hrows : ∀ row, row ∈ db'.rooms → row.room = name → row ∈ db.rooms := by
    intro row hrow hn
    have hmem : row ∈ db'.rooms.filter fun x => x.room = name :=
      List.mem_filter.mpr ⟨hrow, by simpa using hn⟩
    rw [hb.rooms] at hmem
    exact (List.mem_filter.mp hmem).1
  have hrows' : ∀ row, row ∈ db.rooms → row.room = name → row ∈ db'.rooms := by
    intro row hrow hn
    have hmem : row ∈ db.rooms.filter fun x => x.room = name :=
      List.mem_filter.mpr ⟨hrow, by simpa using hn⟩
    rw [← hb.rooms] at hmem
    exact (List.mem_filter.mp hmem).1
  exact { h with
    notes := hb.notes ▸ h.notes
    tasks := hb.tasks ▸ h.tasks
    goals := hb.goals ▸ h.goals
    waits := hb.waits ▸ h.waits
    journal := hb.journal.trans h.journal
    row := fun row hrow hn => h.row row (hrows row hrow hn) hn
    bare := fun hbare => h.bare fun row hrow hn => hbare row (hrows' row hrow hn) hn }

/-! ### One write, on both sides -/

theorem putTask (h : Synced cfg name r db) {t : Task} (ht : t.room = name) :
    Synced cfg name { r with tasks := r.tasks.put t.id t } (writeTask t db) := by
  subst ht
  refine { h with tasks := ?_ }
  have hput := h.tasks.put t
  rwa [← part_upsert] at hput

/-- The rows of a room after a goal is written, when no other goal stands in its way. -/
theorem goals_writeGoal {g : Goal} (hone : ∀ x ∈ db.goals, x.room = g.room → x.status = .active →
    g.status = .active → x.id = g.id) :
    (writeGoal g db).goals.filter (fun x => x.room = g.room) =
      upsert Goal.id g (db.goals.filter fun x => x.room = g.room) := by
  show (deleteWhere _ db.goals ++ [g]).filter _ = deleteWhere _ _ ++ [g]
  unfold deleteWhere
  simp only [List.filter_append, List.filter_filter, List.filter_cons, List.filter_nil, decide_true,
    if_true]
  congr 1
  refine List.filter_congr fun x hx => ?_
  by_cases hroom : x.room = g.room
  · by_cases hid : x.id = g.id
    · simp [hid]
    · have hact : x.status = .active → g.status ≠ .active := fun hx' hg => hid (hone x hx hroom hx' hg)
      simpa [hroom, hid, or_iff_not_imp_left] using hact
  · simp [hroom]

theorem putGoal (h : Synced cfg name r db) {g : Goal} (hg : g.room = name)
    (hone : ∀ j x, r.goals.get j = some x → x.status = .active → g.status = .active → j = g.id) :
    Synced cfg name { r with goals := r.goals.put g.id g } (writeGoal g db) := by
  subst hg
  have hrows : ∀ x ∈ db.goals, x.room = g.room → x.status = .active → g.status = .active →
      x.id = g.id := by
    intro x hx hroom hact
    exact hone x.id x ((h.goals.same x.id x).mpr
      ⟨x, List.mem_filter.mpr ⟨hx, by simpa using hroom⟩, rfl, rfl⟩) hact
  refine { h with goals := ?_, active := ?_ }
  · have hput := h.goals.put g
    rwa [← goals_writeGoal hrows] at hput
  · intro i j x y hi hj hx hy
    rw [Assoc.get_put] at hi hj
    split at hi
    · split at hj
      · next h₁ h₂ => exact h₁.trans h₂.symm
      · next h₁ _ =>
        cases hi
        exact h₁.trans (hone j y hj hy hx).symm
    · split at hj
      · next h₂ =>
        cases hj
        exact (hone i x hi hx hy).trans h₂.symm
      · exact h.active i j x y hi hj hx hy

theorem putWait (h : Synced cfg name r db) {wait : WaitState} (hw : wait.room = name) :
    Synced cfg name { r with waits := r.waits.put wait.waiter wait } (writeWait wait db) := by
  subst hw
  refine { h with waits := ?_ }
  have hput := h.waits.put wait
  rwa [← part_upsert] at hput

theorem delWait (h : Synced cfg name r db) (waiter : String) :
    Synced cfg name { r with waits := r.waits.del waiter }
      { db with waits := deleteWhere (fun x => x.room = name && x.waiter = waiter) db.waits } := by
  refine { h with waits := ?_ }
  have hdel := h.waits.del waiter
  rwa [← part_delete] at hdel

theorem putNote (h : Synced cfg name r db) {n : Note} {next : Nat} (hrev : n.rev < next)
    (hnext : r.nextRev ≤ next) :
    Synced cfg name { r with notes := r.notes.put n.key n, nextRev := next } (upsertNote name n db) := by
  refine { h with notes := ?_, revs := ?_ }
  · have hput := h.notes.put ⟨name, n⟩
    rwa [← part_upsert] at hput
  · intro key x hx
    rw [Assoc.get_put] at hx
    split at hx
    · cases hx
      exact hrev
    · exact (h.revs key x hx).trans_le hnext

theorem delNote (h : Synced cfg name r db) (key : String) :
    Synced cfg name { r with notes := r.notes.del key } (deleteNoteRow name key db) := by
  refine { h with notes := ?_, revs := ?_ }
  · have hdel := h.notes.del key
    rwa [← part_delete] at hdel
  · intro k x hx
    rw [Assoc.get_del] at hx
    split at hx
    · cases hx
    · exact h.revs k x hx

theorem addEntry (h : Synced cfg name r db) {e : JournalEntry} (he : e.room = name)
    (hid : e.id = r.nextJournalId) :
    Synced cfg name { r with journal := r.journal ++ [e], nextJournalId := e.id + 1 }
      { db with journal := db.journal ++ [e] } := by
  refine { h with journal := ?_, ordered := ?_, nextEntry := ?_ }
  · rw [List.filter_append, h.journal]
    simp [he]
  · refine List.pairwise_append.mpr ⟨h.ordered, List.pairwise_singleton _ _, fun a ha b hb => ?_⟩
    rw [List.mem_singleton.mp hb, hid]
    exact h.nextEntry a ha
  · intro x hx
    rcases List.mem_append.mp hx with hx | hx
    · have hlt := h.nextEntry x hx
      exact Nat.lt_succ_of_lt (hid ▸ hlt)
    · rw [List.mem_singleton.mp hx]
      exact Nat.lt_succ_self _

/-- The row is written with the mode and the settings the room then has. -/
theorem putState (h : Synced cfg name r db) (mode : ChatMode) (settings : RoomSettings) :
    Synced cfg name { r with mode := mode, settings := settings }
      { db with
        rooms := insertOrUpdate RoomRow.room ⟨name, mode, settings, none⟩
          (fun row => { row with mode := mode, settings := settings }) db.rooms } := by
  refine { h with row := ?_, bare := ?_ }
  · exact forall_insertOrUpdate ⟨rfl, rfl⟩ fun _ _ => ⟨rfl, rfl⟩
  · intro hbare
    obtain ⟨row, hrow, hn⟩ := @exists_insertOrUpdate _ _ _ RoomRow.room ⟨name, mode, settings, none⟩
      (fun row => { row with mode := mode, settings := settings }) db.rooms fun _ hk => hk
    exact absurd hn (hbare row hrow)

end Synced

/-- Every room that is not sealed agrees with its rows. -/
def Agreed (cfg : Config) (w : World) : Prop :=
  ∀ name, isSealed name w.db = false → Synced cfg name (w.roomOr cfg name) w.db

namespace Agreed

variable {cfg : Config} {w w' : World} {room : String} {r : Room} {db : Db}

theorem stays (h : Agreed cfg w) (hs : Stays cfg w w') : Agreed cfg w' := by
  intro name hname
  rw [hs.rooms, hs.db]
  exact h name (hs.db ▸ hname)

theorem edits (h : Agreed cfg w) (he : Edits cfg room r db w w')
    (hother : ∀ name, name ≠ room → Beside name w.db db)
    (hself : isSealed room db = false → Synced cfg room r db) : Agreed cfg w' := by
  intro name hname
  rw [he.db] at hname ⊢
  rw [he.rooms]
  by_cases hn : name = room
  · subst hn
    rw [Function.update_self]
    exact hself hname
  · rw [Function.update_of_ne hn]
    have hb := hother name hn
    exact (h name (hb.isSealed_eq ▸ hname)).beside hb

/-- An edit that leaves the room rows alone. -/
theorem edits_rows (h : Agreed cfg w) (he : Edits cfg room r db w w') (hrooms : db.rooms = w.db.rooms)
    (hother : ∀ name, name ≠ room → Apart name w.db db)
    (hrev : ∀ name, name ≠ room → db.noteRevisions.filter (fun x => x.room = name) =
      w.db.noteRevisions.filter fun x => x.room = name)
    (hself : Synced cfg room (w.roomOr cfg room) w.db → Synced cfg room r db) : Agreed cfg w' := by
  refine h.edits he (fun name hn => ⟨hother name hn, by rw [hrooms], hrev name hn⟩) fun hs => ?_
  refine hself (h room ?_)
  unfold isSealed at hs ⊢
  rwa [hrooms] at hs

/-- An edit that is not about what the rows say. -/
theorem edits_kept (h : Agreed cfg w) (he : Edits cfg room r db w w')
    (hr : r.kept = (w.roomOr cfg room).kept) (hdb : db.kept = w.db.kept) : Agreed cfg w' := by
  have hk : ∀ name, Synced cfg name (w.roomOr cfg name) w.db →
      Synced cfg name (w'.roomOr cfg name) w'.db := by
    intro name hs
    refine hs.of_eq ?_ (he.db ▸ hdb)
    rw [he.rooms, Function.update_apply]
    split
    · next hn => rw [hr, hn]
    · rfl
  intro name hname
  refine hk name (h name ?_)
  have hrooms : w'.db.rooms = w.db.rooms := by
    rw [he.db]
    exact congrArg (fun x => x.2.2.2.2.2) hdb
  unfold isSealed at hname ⊢
  rwa [hrooms] at hname

theorem same_rooms (h : Agreed cfg w) (hr : w'.roomOr cfg = w.roomOr cfg)
    (hdb : w'.db.kept = w.db.kept) : Agreed cfg w' := by
  have he : Edits cfg "" (w.roomOr cfg "") w'.db w w' := ⟨by rw [Function.update_eq_self, hr], rfl⟩
  exact h.edits_kept he rfl hdb

theorem reseats (h : Agreed cfg w) (hr : Reseats cfg room w w') : Agreed cfg w' := by
  obtain ⟨members, muted, banned, db, hc, he⟩ := hr
  exact h.edits_kept he rfl hc.kept

/-- The state of a room and its row are written together. -/
theorem saves (h : Agreed cfg w) {mode : ChatMode} {settings : RoomSettings} {clock : Nat}
    (he : Edits cfg room r db w w') (hdb : saveRoom room mode settings clock w.db = .ok db)
    (hr : r.kept = { w.roomOr cfg room with mode := mode, settings := settings }.kept) :
    Agreed cfg w' := by
  refine h.edits he (fun name hn => beside_saveRoom (Ne.symm hn) hdb) fun _ => ?_
  obtain ⟨hs, rfl⟩ := saveRoom_ok hdb
  exact ((h room hs).putState mode settings).of_eq hr rfl

theorem announces (h : Agreed cfg w) {m : Message} {mode : ChatMode} {settings : RoomSettings}
    (he : Edits cfg room r db w w') (hm : m.room = room)
    (hdb : insertMessageWithRoom m mode settings none w.db = .ok db)
    (hr : r.kept = { w.roomOr cfg room with mode := mode, settings := settings }.kept) :
    Agreed cfg w' := by
  subst hm
  refine h.edits he (fun name hn => beside_insertMessageWithRoom (Ne.symm hn) hdb) fun _ => ?_
  simp only [insertMessageWithRoom, bind_ok] at hdb
  obtain ⟨db₁, h₁, h₂⟩ := hdb
  obtain ⟨-, -, refs, pending, rfl⟩ := writeMessage_ok h₂
  obtain ⟨hs, rfl⟩ := writeRoomState_ok.mp h₁
  exact ((h m.room hs).putState mode settings).of_eq hr rfl

end Agreed

/-! ## Goals: one active at a time -/

theorem Goal.settle_active {r : Room} {now : Nat} {g : Goal} (h : (g.settle r now).status = .active) :
    g.status = .active := by
  unfold Goal.settle at h
  split at h
  · cases h
  · exact h

/-- A goal that is active after an update was active before, or no other one is. -/
theorem UpdateGoal.plan_active {req : UpdateGoal} {now generation : Nat} {r : Room} {g g' : Goal}
    {progressed : Bool} (h : req.plan now generation r g = .ok (g', progressed))
    (hact : g'.status = .active) :
    g.status = .active ∨ ∀ other ∈ r.goals.values, other.id = g.id ∨ other.status ≠ .active := by
  simp only [UpdateGoal.plan, bind_ok, require_ok, exists_const] at h
  obtain ⟨ids, -, g₁, h₁, -, h⟩ := h
  have hact₁ : g₁.status = .active := by
    split at h
    · cases h
      exact Goal.settle_active hact
    · cases h
      exact Goal.settle_active hact
  unfold UpdateGoal.restatus at h₁
  split at h₁
  · cases h₁
    exact .inl hact₁
  · next status _ =>
    simp only [bind_ok, require_ok, pure_ok, exists_const] at h₁
    obtain ⟨hall, rfl⟩ := h₁
    refine .inr fun other ho => ?_
    have hid : (req.edit g).id = g.id := rfl
    simpa [hid] using List.all_eq_true.mp (hall hact₁) other ho

theorem CreateGoal.plan_free {req : CreateGoal} {room : String} {now : Nat} {r : Room} {g : Goal}
    (h : req.plan room now r = .ok g) : ∀ other ∈ r.goals.values, other.status ≠ .active := by
  simp only [CreateGoal.plan, bind_ok, require_ok, pure_ok, exists_const] at h
  obtain ⟨-, hall, -, -, -⟩ := h
  intro other ho
  simpa using List.all_eq_true.mp hall other ho

/-! ## Every call keeps the agreement -/

section Calls

variable {cfg : Config} {env : Env} (hp : cfg.persistent = true)
include hp

theorem updateTask_agreed {w : World} (room : String) (id : Nat) (req : UpdateTask) (isOperator : Bool)
    (hown : Homed cfg w) (h : Agreed cfg w) :
    Agreed cfg (updateTask cfg env room id req isOperator w).2 := by
  rcases @updateTask_spec cfg env hp room id req isOperator w with
    hs | ⟨t, t', p, goal, ht, hplan, hgoal, he⟩
  · exact h.stays hs
  rw [upsertTaskWithGoalProgress_eq] at he
  have hroom : t'.room = room := (UpdateTask.plan_room hplan).1.trans ((hown room).tasks id t ht)
  obtain ⟨marks, atts, hput⟩ := putTask_eq room t' p (w.roomOr cfg room)
  cases goal with
  | none =>
      refine h.edits_rows he rfl (fun n hn => ?_) (fun _ _ => rfl) fun hs => ?_
      · exact (apart_writeTask (hroom.trans_ne hn.symm)).trans (.care _)
      · refine (hs.putTask hroom).of_eq ?_ rfl
        dsimp only
        rw [hput]
        rfl
  | some g =>
      split at hgoal
      · obtain ⟨gid, g₀, hg₀, hgr, hgi, hact⟩ := linkedGoal_spec hgoal.symm
        have hgroom : g.room = room := hgr.trans ((hown room).goals gid g₀ hg₀)
        obtain ⟨marks', atts', hput'⟩ := putGoal_eq room g true ((w.roomOr cfg room).putTask room t' p)
        refine h.edits_rows he rfl (fun n hn => ?_) (fun _ _ => rfl) fun hs => ?_
        · refine (apart_writeTask (hroom.trans_ne hn.symm)).trans ?_
          exact (apart_goals (filter_writeGoal (hgroom.trans_ne hn.symm))).trans (.care _)
        · have hid : gid = g.id := by
            obtain ⟨x, -, hk, rfl⟩ := (hs.goals.same gid g₀).mp hg₀
            exact (hgi.trans hk).symm
          refine ((hs.putTask hroom).putGoal hgroom fun j x hj hx _ => ?_).of_eq ?_ rfl
          · exact (hs.active j gid x g₀ hj hg₀ hx hact).trans hid
          · dsimp only
            rw [hput', hput]
            rfl
      · cases hgoal

theorem updateGoal_agreed {w : World} (room : String) (id : Nat) (req : UpdateGoal)
    (hown : Homed cfg w) (h : Agreed cfg w) : Agreed cfg (updateGoal cfg env room id req w).2 := by
  rcases @updateGoal_spec cfg env hp room id req w with hs | ⟨g, g', p, hg, hplan, he⟩
  · exact h.stays hs
  rw [upsertGoalWithCareReset_eq] at he
  obtain ⟨hroom', hid'⟩ := UpdateGoal.plan_room hplan
  have hroom : g'.room = room := hroom'.trans ((hown room).goals id g hg)
  obtain ⟨marks, atts, hput⟩ := putGoal_eq room g' p (w.roomOr cfg room)
  refine h.edits_rows he rfl (fun n hn => ?_) (fun _ _ => rfl) fun hs => ?_
  · exact (apart_goals (filter_writeGoal (hroom.trans_ne hn.symm))).trans (.care _)
  · have hkey : ∀ j x, (w.roomOr cfg room).goals.get j = some x → x.id = j := by
      intro j x hj
      obtain ⟨y, -, hy, rfl⟩ := (hs.goals.same j x).mp hj
      exact hy
    refine (hs.putGoal hroom fun j x hj hx hact => ?_).of_eq (by rw [hput]; rfl) rfl
    rw [hid', hkey id g hg]
    rcases UpdateGoal.plan_active hplan hact with hg₀ | hall
    · exact hs.active j id x g hj hg hx hg₀
    · rcases hall x (Assoc.mem_values.mpr ⟨j, hj⟩) with hxg | hne
      · exact (hkey j x hj).symm.trans (hxg.trans (hkey id g hg))
      · exact absurd hx hne

omit hp in
theorem Filed.agreed {room : String} {r r' : Room} {db db' : Db} {signals : List CareSignal}
    (hf : Filed room r db signals r' db') (hs : Synced cfg room r db) : Synced cfg room r' db' := by
  cases hf with
  | marked _ => exact hs.of_eq rfl rfl
  | everyone _ _ => exact hs.of_eq rfl rfl
  | noticed _ _ => exact hs.of_eq rfl rfl
  | @waited name wait last count s hw _ _ =>
      obtain ⟨x, hx, hk, rfl⟩ := (hs.waits.same name wait).mp hw
      have hroom : x.room = room := by simpa using (List.mem_filter.mp hx).2
      subst hk
      exact (@Synced.putWait _ _ _ _ hs { x with signalCount := count, lastSignalAt := some last } hroom).of_eq
        rfl rfl

theorem tickCare_agreed (w : World) (hown : Homed cfg w) (h : Agreed cfg w) :
    Agreed cfg (tickCare cfg env w) := by
  have hsweep : ∀ (acc : World × List (String × CareSignal)) name,
      Homed cfg acc.1 ∧ Agreed cfg acc.1 →
      Homed cfg (sweepRoom cfg env acc name).1 ∧ Agreed cfg (sweepRoom cfg env acc name).1 := by
    rintro acc name ⟨ho, ha⟩
    refine ⟨sweepRoom_homed hp acc name ho, ?_⟩
    rcases sweepRoom_spec hp acc name with hs | ⟨r', db, signals, -, -, hf, -, hput⟩
    · rw [hs]
      exact ha
    · have hrooms : db.rooms = acc.1.db.rooms ∧ db.noteRevisions = acc.1.db.noteRevisions := by
        cases hf <;> exact ⟨rfl, rfl⟩
      refine ha.edits_rows hput.edits hrooms.1 (fun n hn => apart_filed hf (ho name) hn.symm)
        (fun _ _ => by rw [hrooms.2]) fun hs => hf.agreed hs
  have hpublish : ∀ w p, Agreed cfg w → Agreed cfg (publishCareSignal cfg env w p) := by
    intro w p ha
    rcases @publishCareSignal_spec cfg env w p with ⟨hs, -⟩ | he
    · exact ha.stays hs
    · exact ha.edits_kept he rfl rfl
  have hfirst := Sys.foldl_rel
    (R := fun a b : World × List (String × CareSignal) =>
      Homed cfg a.1 ∧ Agreed cfg a.1 → Homed cfg b.1 ∧ Agreed cfg b.1)
    (fun _ h => h) (fun _ _ _ h₁ h₂ h => h₂ (h₁ h)) hsweep
    (Assoc.inOrder env.order w.hub.rooms.keys) (w, []) ⟨hown, h⟩
  exact Sys.foldl_rel (R := fun a b => Agreed cfg a → Agreed cfg b) (fun _ h => h)
    (fun _ _ _ h₁ h₂ h => h₂ (h₁ h)) hpublish _ _ hfirst.2

/-- Every call keeps each room and its rows together. -/
theorem call_agreed (c : HubCall) (w : World) (hown : Homed cfg w) (h : Agreed cfg w) :
    Agreed cfg (c.run cfg env w).2 := by
  cases c with
  | createTask room req =>
      rcases @createTask_spec cfg env hp room req w with hs | ⟨t, ht, he⟩
      · exact h.stays hs
      · have hroom : t.room = room := by rw [ht]; rfl
        exact h.edits_rows he rfl (fun n hn => apart_writeTask (hroom.trans_ne hn.symm))
          (fun _ _ => rfl) fun hs => (hs.putTask hroom).of_eq rfl rfl
  | updateTask room id req isOperator => exact updateTask_agreed hp room id req isOperator hown h
  | createGoal room req =>
      rcases @createGoal_spec cfg env hp room req w with hs | ⟨g, hg, he⟩
      · exact h.stays hs
      · have hroom := (CreateGoal.plan_room hg).1
        refine h.edits_rows he rfl (fun n hn => apart_goals (filter_writeGoal (hroom.trans_ne hn.symm)))
          (fun _ _ => rfl) fun hs => (hs.putGoal hroom fun j x hj hx _ => ?_).of_eq rfl rfl
        exact absurd hx (CreateGoal.plan_free hg x (Assoc.mem_values.mpr ⟨j, hj⟩))
  | updateGoal room id req => exact updateGoal_agreed hp room id req hown h
  | setWait room req =>
      rcases @setWait_spec cfg env hp room req w with hs | ⟨wait, hw, -, he⟩
      · exact h.stays hs
      · obtain ⟨marks, atts, hput⟩ := putWait_eq room wait (w.roomOr cfg room)
        refine h.edits_rows he rfl (fun n hn => ?_) (fun _ _ => rfl) fun hs => ?_
        · exact (apart_writeWait (hw.trans_ne hn.symm)).trans (.care _)
        · exact (hs.putWait hw).of_eq (by rw [hput]; rfl) rfl
  | clearWait room waiter =>
      rcases @clearWait_spec cfg env hp room waiter w with hs | he
      · exact h.stays hs
      · obtain ⟨marks, atts, hdrop⟩ := dropWait_eq room waiter env.now (w.roomOr cfg room)
        exact h.edits_rows he rfl (fun n hn => apart_deleteWait hn.symm) (fun _ _ => rfl)
          fun hs => (hs.delWait waiter).of_eq (by rw [hdrop]; rfl) rfl
  | setLead room lead actor =>
      rcases @setLead_spec cfg env hp room lead actor w with hs | ⟨m, s, db, -, hm, -, -, hdb, he⟩
      · exact h.stays hs
      · exact h.announces he hm hdb rfl
  | announceJoinRequest name kind =>
      obtain ⟨m, db, hm, -, hdb, he⟩ := @announceJoinRequest_spec cfg env hp name kind w
      rcases hdb with rfl | hdb
      · exact h.edits_kept he rfl rfl
      · exact h.announces he hm hdb rfl
  | setMode room mode clock =>
      rcases @setMode_spec cfg env hp room mode clock w with hs | ⟨db, -, hdb, he⟩
      · exact h.stays hs
      · exact h.saves he hdb rfl
  | setSettings room req clock =>
      rcases @setSettings_spec cfg env hp room req clock w with hs | ⟨db, -, hdb, he⟩
      · exact h.stays hs
      · exact h.saves he hdb rfl
  | expireLive clock =>
      refine Sys.foldl_rel (R := fun a b => Agreed cfg a → Agreed cfg b) (fun _ h => h)
        (fun _ _ _ h₁ h₂ h => h₂ (h₁ h)) (fun w n ha => ?_) _ w h
      rcases @expireLiveRoom_spec cfg env hp clock n w with hs | ⟨s, db, -, -, hdb, he⟩
      · exact ha.stays hs
      · exact ha.saves he hdb rfl
  | createNote room req =>
      rcases @createNote_spec cfg env hp room req w with hs | ⟨note, hkey, hrev, he⟩
      · exact h.stays hs
      · refine h.edits_rows he rfl (fun n hn => apart_upsertNote hn.symm) (fun _ _ => rfl) fun hs => ?_
        rw [← hkey]
        exact (hs.putNote (Nat.lt_succ_self note.rev) (by omega)).of_eq rfl rfl
  | updateNote room key req isOperator =>
      rcases @updateNote_spec cfg env hp room key req isOperator w with hs | ⟨n, n', db, hn, hn', hdb, he⟩
      · exact h.stays hs
      · refine h.edits he (fun name hne => beside_replaceNote hne.symm hdb) fun hsealed => ?_
        simp only [replaceNote, bind_ok, pure_ok] at hdb
        obtain ⟨revisions, -, rfl⟩ := hdb
        have hs := h room hsealed
        obtain ⟨x, -, hk, rfl⟩ := (hs.notes.same key n).mp hn
        have hkey : n'.key = key := by rw [hn']; exact hk
        have hrev : n'.rev = (w.roomOr cfg room).nextRev := by rw [hn']; rfl
        rw [← hkey]
        exact (hs.putNote (n := n') (by omega) (Nat.le_succ _)).of_eq rfl rfl
  | deleteNote room key =>
      rcases @deleteNote_spec cfg env hp room key w with hs | he
      · exact h.stays hs
      · exact h.edits_rows he rfl (fun n hn => apart_deleteNoteRow hn.symm) (fun _ _ => rfl)
          fun hs => (hs.delNote key).of_eq rfl rfl
  | appendJournal room entryBy byType text =>
      rcases @appendJournal_spec cfg env hp room entryBy byType text w with
        hs | ⟨e, db, hroom, hid, hdb, he⟩
      · exact h.stays hs
      · simp only [appendJournalRow, bind_ok, found_ok, pure_ok] at hdb
        obtain ⟨rows, hrows, rfl⟩ := hdb
        obtain ⟨-, rfl⟩ := insertNew_eq_some.mp hrows
        refine h.edits_rows he rfl (fun n hn => ?_) (fun _ _ => rfl)
          fun hs => (hs.addEntry hroom hid).of_eq rfl rfl
        exact { Apart.refl n w.db with
          journal := filter_append_of_not (decide_eq_false (hroom.trans_ne hn.symm)), sealed := id }
  | createAttention room req =>
      rcases @createAttention_spec cfg env hp room req w with hs | ⟨s, o, ps, db, a, -, -, rfl, -, he⟩
      · exact h.stays hs
      · exact h.edits_kept he rfl rfl
  | claimAttention room id actor =>
      rcases @claimAttention_spec cfg env hp room id actor w with hs | ⟨a, -, -, -, he⟩
      · exact h.stays hs
      · exact h.edits_kept he rfl rfl
  | resolveAttention room id actor principal isOperator =>
      rcases @resolveAttention_spec cfg env hp room id actor principal isOperator w with
        hs | ⟨a, -, -, -, he⟩
      · exact h.stays hs
      · exact h.edits_kept he rfl rfl
  | ackCare signalId owner principal =>
      rcases @ackCare_spec cfg env hp signalId owner principal w with
        hs | ⟨db, rfl, hr, hdb⟩ | ⟨name, id, a, -, he⟩
      · exact h.stays hs
      · exact h.same_rooms hr ((congrArg Db.kept hdb).trans rfl)
      · exact h.edits_kept he rfl rfl
  | tickCare => exact tickCare_agreed hp w hown h
  | createLoca room actor clock =>
      rcases @createLoca_spec cfg env hp room actor clock w with hs | ⟨db, hnone, -, hdb, hr, hc⟩
      · exact h.stays hs
      · have hfresh : w.roomOr cfg room =
            { w.roomOr cfg room with mode := .free, settings := cfg.defaultSettings } := by
          simp [World.roomOr, hnone, Room.fresh]
        have he : Edits cfg room (w.roomOr cfg room) db w (w.setDb db) :=
          ⟨(Function.update_eq_self _ _).symm, rfl⟩
        have hdb' : Agreed cfg (w.setDb db) := by
          rcases hdb with hdb | hdb
          · refine h.edits he (fun n hn => beside_writeRoomState hn.symm hdb) fun _ => ?_
            obtain ⟨hs, rfl⟩ := writeRoomState_ok.mp hdb
            exact ((h room hs).putState .free cfg.defaultSettings).of_eq (congrArg Room.kept hfresh) rfl
          · exact h.saves he hdb (congrArg Room.kept hfresh)
        exact hdb'.same_rooms hr hc.kept
  | deleteRoom room =>
      rcases @deleteRoom_spec cfg env hp room w with hs | ⟨-, -, he⟩
      · exact h.stays hs
      · refine h.edits he (fun n hn => beside_sealRoom hn.symm) fun hs => ?_
        rw [isSealed_sealRoom room room env.now w.db (.inl rfl)] at hs
        cases hs
  | subscribe room => exact h.stays (subscribe_spec room w)
  | join room identity name kind session => exact h.reseats (join_spec room identity name kind session w)
  | leave room identity => exact h.reseats (leave_spec room identity w)
  | admitMember name kind admittedBy => exact h.reseats (admitMember_spec hp "" name kind admittedBy w)
  | inviteMemberToRoom member room issuedBy =>
      exact h.reseats (inviteMemberToRoom_spec hp member room issuedBy w)
  | revokeDavet token => exact h.reseats (revokeDavet_spec hp "" token w)
  | revokeMember token => exact h.reseats (revokeMember_spec hp "" token w)
  | moderate room action name => exact h.reseats (moderate_spec hp room action name w)
  | outside db => exact h.same_rooms rfl rfl

/-! ## Posts -/

omit hp in
theorem heard_kept (q : PostRequest) (d : PostDraft) (r : Room) :
    (d.heard env q r).kept =
      { r with waits := d.waits r.waits, mode := d.moved.getD r.mode }.kept := by
  obtain ⟨times, ht⟩ := stampRate_eq q env.now r
  obtain ⟨ops, ord, ho⟩ := rememberOperation_eq q.operation d.msg (q.stampRate env.now r)
  unfold PostDraft.heard Room.appendHistory Room.kept
  rw [ho, ht]
  dsimp only [Room.setMode?]

omit hp in
/-- The wait that a post renews, on both sides. -/
theorem Synced.wake {room : String} {r : Room} {db : Db} {d : PostDraft} (h : Synced cfg room r db)
    (hwake : ∀ wait wake, d.wake = some (wait, wake) → wait.room = room) :
    Synced cfg room { r with waits := d.waits r.waits } { db with waits := d.waitRows db.waits } := by
  unfold PostDraft.waits PostDraft.waitRows
  cases hw : d.wake with
  | none => exact h.of_eq rfl rfl
  | some p => exact (h.putWait (hwake p.1 p.2 hw)).of_eq rfl rfl

omit hp in
/-- The turn that a post moves, on both sides. -/
theorem Synced.turn {q : PostRequest} {r r₀ : Room} {db : Db} {d : PostDraft}
    (h : Synced cfg q.room r db) (hr : r₀.settings = r.settings) :
    Synced cfg q.room { r with mode := d.moved.getD r.mode }
      { db with rooms := d.roomRows q r₀ db.rooms } := by
  unfold PostDraft.roomRows
  cases d.moved with
  | none => exact h.of_eq rfl rfl
  | some mode =>
      rw [hr]
      exact (h.putState mode r.settings).of_eq rfl rfl

theorem postLocked_agreed (q : PostRequest) (attachments : List Attachment) (w : World)
    (h : Agreed cfg w) : Agreed cfg (postLocked cfg env q attachments w).2 := by
  rcases @postLocked_spec cfg env hp q attachments w with ⟨m, -, hl⟩ | ⟨e, times, -, he⟩ |
    ⟨author, r, d, db, hr, hd, hdb, -, -, -, he⟩
  · rw [hl]
    exact h.stays (.enter cfg q.room w)
  · exact h.edits_kept he rfl rfl
  · have hroom : d.msg.room = q.room := by rw [hd]; rfl
    have hwake : ∀ wait wake, d.wake = some (wait, wake) → wait.room = q.room := by
      intro wait wake hw
      rw [hd] at hw
      obtain ⟨m, g, hww⟩ := draft_wake hw
      exact (waitWake_eq hww).1
    refine h.edits he (fun n hn => beside_persist hn.symm hroom hwake hdb) fun _ => ?_
    obtain ⟨hs, -, -, refs, pending, rfl⟩ := persist_ok hroom hdb
    obtain ⟨times, hexp⟩ := expireStamps_eq q env.now (w.roomOr cfg q.room)
    have hsync : Synced cfg q.room r w.db := (h q.room hs).of_eq (by rw [hr, hexp]; rfl) rfl
    obtain ⟨marks, atts, hm⟩ := @mirror_eq env q _ d r
    have hkept : ∀ y : Room, { y with careMarks := marks, attentions := atts }.kept = y.kept :=
      fun _ => rfl
    refine ((hsync.wake hwake).turn rfl).of_eq ?_ rfl
    rw [hm, hkept]
    exact @heard_kept env q d r

end Calls

/-! ## Starting -/

theorem mem_sealedRooms {name : String} {db : Db} : name ∈ sealedRooms db ↔ isSealed name db = true := by
  simp only [sealedRooms, isSealed, List.mem_map, List.mem_filter, List.any_eq_true, Bool.and_eq_true,
    decide_eq_true_eq]
  exact exists_congr fun row => by tauto

theorem le_maxOf {l : List Nat} {n : Nat} (h : n ∈ l) : n ≤ maxOf l := by
  induction l with
  | nil => cases h
  | cons a l ih =>
      rcases List.mem_cons.mp h with rfl | h
      · exact le_max_left _ _
      · exact (ih h).trans (le_max_right _ _)

section Start

variable {cfg : Config} {name : String} {r : Room} {db : Db}

theorem loadState_of_synced (h : Synced cfg name r db) :
    (loadState name db = (r.mode, r.settings) ∧ ∃ row ∈ db.rooms, row.room = name) ∨
    (loadState name db = (.free, RoomSettings.default) ∧ ∀ row ∈ db.rooms, row.room ≠ name) := by
  unfold loadState
  cases hf : db.rooms.find? fun row => row.room = name with
  | some row =>
      have hmem := List.mem_of_find?_eq_some hf
      have hn : row.room = name := by simpa using List.find?_some hf
      obtain ⟨hm, hs⟩ := h.row row hmem hn
      exact .inl ⟨by rw [hm, hs], row, hmem, hn⟩
  | none =>
      refine .inr ⟨rfl, fun row hrow hn => ?_⟩
      simpa [hn] using List.find?_eq_none.mp hf row hrow

theorem loadJournal_of_synced (h : Synced cfg name r db) : loadJournal name db = r.journal := by
  unfold loadJournal
  rw [h.journal]
  exact List.Pairwise.insertionSort_eq (h.ordered.imp fun hab => hab.le)

/-- The number after the last entry is past every entry. -/
theorem lt_nextEntry {journal : List JournalEntry} {e : JournalEntry}
    (h : journal.Pairwise fun a b => a.id < b.id) (he : e ∈ journal) :
    e.id < (journal.getLast?.map fun e => e.id + 1).getD 1 := by
  cases hl : journal.getLast? with
  | none =>
      rw [List.getLast?_eq_none_iff] at hl
      rw [hl] at he
      cases he
  | some last =>
      obtain ⟨ys, rfl⟩ := List.getLast?_eq_some_iff.mp hl
      show e.id < last.id + 1
      rcases List.mem_append.mp he with he | he
      · exact Nat.lt_succ_of_lt ((List.pairwise_append.mp h).2.2 e he last (List.mem_singleton.mpr rfl))
      · rw [List.mem_singleton.mp he]
        exact Nat.lt_succ_self _

/-- A room that is read back agrees with its rows. -/
theorem loadRoom_synced (h : Synced cfg name r db) : Synced cfg name (loadRoom name db) db := by
  have hperm : ∀ {ρ ω : Type} [LE ω] [DecidableLE ω] (key : ρ → ω) (rows : List ρ),
      (orderBy key rows).Perm (rows.map id) := by
    intro ρ ω _ _ key rows
    rw [List.map_id]
    exact orderBy_perm rows
  have hgoals : Holds Goal.id id (db.goals.filter fun g => g.room = name) (loadRoom name db).goals :=
    .load h.goals.unique (fun _ => rfl) (hperm _ _)
  refine ⟨.load h.notes.unique (fun _ => rfl) (.refl _), ?_,
    .load h.tasks.unique (fun _ => rfl) (hperm _ _), hgoals, ?_,
    .load h.waits.unique (fun _ => rfl) (hperm _ _), ?_, ?_, ?_, ?_, ?_⟩
  · intro key n hn
    have hmem : n ∈ loadNotes name db := Assoc.mem_of_get_ofRows hn
    exact Nat.lt_succ_of_le (le_maxOf (List.mem_map_of_mem hmem))
  · intro i j g g' hi hj
    rw [h.goals.get_eq hgoals] at hi hj
    exact h.active i j g g' hi hj
  · exact h.journal.trans (loadJournal_of_synced h).symm
  · show (loadJournal name db).Pairwise _
    rw [loadJournal_of_synced h]
    exact h.ordered
  · intro e he
    have hjournal := loadJournal_of_synced h
    change e ∈ loadJournal name db at he
    show e.id < ((loadJournal name db).getLast?.map fun e => e.id + 1).getD 1
    rw [hjournal] at he ⊢
    exact lt_nextEntry h.ordered he
  · intro row hrow hn
    rcases loadState_of_synced h with ⟨hs, -⟩ | ⟨-, hnone⟩
    · obtain ⟨hm, hset⟩ := h.row row hrow hn
      exact ⟨(congrArg Prod.fst hs).trans hm, (congrArg Prod.snd hs).trans hset⟩
    · exact absurd hn (hnone row hrow)
  · intro hbare
    rcases loadState_of_synced h with ⟨-, row, hrow, hn⟩ | ⟨hs, -⟩
    · exact absurd hn (hbare row hrow)
    · exact ⟨congrArg Prod.fst hs, .inr (congrArg Prod.snd hs)⟩

/-- A room that no table speaks of agrees with its rows: there are none. -/
theorem fresh_synced (h : name ∉ knownRooms db) :
    Synced cfg name (.fresh .free cfg.defaultSettings 1) db := by
  have hnone : ∀ {ρ : Type} {rows : List ρ} {room : ρ → String},
      (∀ row ∈ rows, room row ∈ knownRooms db) → rows.filter (fun row => room row = name) = [] := by
    intro ρ rows room hrows
    refine List.filter_eq_nil_iff.mpr fun row hrow hn => h ?_
    have hroom : room row = name := by simpa using hn
    exact hroom ▸ hrows row hrow
  have hknown : ∀ {ρ : Type} {rows : List ρ} {room : ρ → String}, rows.map room ⊆ knownRooms db →
      rows.filter (fun row => room row = name) = [] :=
    fun hsub => hnone fun row hrow => hsub (List.mem_map_of_mem hrow)
  have hmem : ∀ x, x ∈ knownRooms db ↔ x ∈ db.messages.map MessageRow.room ++ db.notes.map NoteRow.room ++
      db.tasks.map Task.room ++ db.goals.map Goal.room ++ db.waits.map WaitState.room ++
      db.careMarks.map CareMarkRow.room ++ db.attentions.map AttentionRow.room ++
      db.journal.map JournalEntry.room ++ db.rooms.map RoomRow.room ++
      (loadInvites db).map Invite.room := by
    intro x
    rw [knownRooms, List.mem_dedup, mem_orderBy]
  refine ⟨?_, ?_, ?_, ?_, ?_, ?_, ?_, List.Pairwise.nil, ?_, ?_, fun _ => ⟨rfl, .inl rfl⟩⟩
  · rw [hknown fun x hx => (hmem x).mpr (by simp only [List.mem_append]; tauto)]
    exact Holds.empty
  · intro key n hn
    cases hn
  · rw [hknown fun x hx => (hmem x).mpr (by simp only [List.mem_append]; tauto)]
    exact Holds.empty
  · rw [hknown fun x hx => (hmem x).mpr (by simp only [List.mem_append]; tauto)]
    exact Holds.empty
  · intro i j g g' hi
    cases hi
  · rw [hknown fun x hx => (hmem x).mpr (by simp only [List.mem_append]; tauto)]
    exact Holds.empty
  · exact hknown fun x hx => (hmem x).mpr (by simp only [List.mem_append]; tauto)
  · intro e he
    cases he
  · intro row hrow hn
    have hrows : db.rooms.filter (fun row => row.room = name) = [] :=
      hknown fun x hx => (hmem x).mpr (by simp only [List.mem_append]; tauto)
    exact absurd (by simpa using hn) (List.filter_eq_nil_iff.mp hrows row hrow)

/-- A start keeps what its database says of the rooms that are not sealed. -/
theorem build_agreed (env : Env) (clock : Nat)
    (h : ∀ name, isSealed name db = false → ∃ r, Synced cfg name r db) :
    Agreed cfg (build cfg env clock db) := by
  refine build_rule (P := Agreed cfg) ?_ ?_ ?_ ?_ ?_
  · intro db₀ hc name hname
    change isSealed name db₀ = false at hname
    have hsealed : isSealed name db = false := by
      unfold isSealed at hname ⊢
      rwa [hc.rooms] at hname
    obtain ⟨r, hr⟩ := h name hsealed
    have hs : Synced cfg name r db₀ := hr.of_eq rfl hc.kept
    show Synced cfg name (((restored db₀).room? name).getD _) db₀
    rw [room?_restored]
    split
    · exact loadRoom_synced hs
    · next hl =>
      refine fresh_synced fun hk => hl ?_
      have hns : name ∉ sealedRooms db₀ := fun hm => by
        rw [mem_sealedRooms.mp hm] at hname
        cases hname
      exact List.mem_filter.mpr ⟨hk, by simpa using hns⟩
  · intro w room h
    rcases migrateOperator_spec env clock w room with ⟨hr, hc⟩ | ⟨r, s, db₁, db₂, hr, hst, hc, hs, he⟩
    · exact h.same_rooms (World.roomOr_of_rooms hr) hc.kept
    · have h₁ : Agreed cfg (w.setDb db₁) := h.same_rooms rfl hc.kept
      rw [he]
      refine @Agreed.saves _ _ _ room { r with settings := s } _ h₁ _ _ _ ⟨?_, rfl⟩ hs ?_
      · exact World.roomOr_setRoom cfg room _ w
      · show _ = { w.roomOr cfg room with mode := r.mode, settings := s }.kept
        rw [World.roomOr_of_some hr]
  · intro w w' h hr hc
    exact h.same_rooms (World.roomOr_of_rooms hr) hc.kept
  · intro w h
    have he : Edits cfg cfg.homeRoom _ w.db w (ensureHome cfg w) := ⟨World.roomOr_setRoom _ _ _ _, rfl⟩
    refine h.edits he (fun n _ => .refl n w.db) fun hs => ?_
    have hsync := h cfg.homeRoom hs
    split
    · next hnil =>
      have hj : loadJournal cfg.homeRoom w.db = [] := (loadJournal_of_synced hsync).trans hnil
      rw [hj]
      exact { hsync with
        journal := hsync.journal.trans hnil
        ordered := List.Pairwise.nil
        nextEntry := fun e he => by cases he }
    · exact hsync
  · intro w b _ h
    have he : Edits cfg b.room _ w.db w (loadBan cfg w b) := ⟨World.roomOr_setRoom _ _ _ _, rfl⟩
    refine h.edits_kept he ?_ rfl
    split
    · rfl
    · split <;> rfl

end Start

/-! ## Runs -/

theorem step_agreed {cfg : Config} (hp : cfg.persistent = true) {s : Server} (i : HubInput)
    (hown : Homed cfg s.world) (h : Agreed cfg s.world) : Agreed cfg (s.step cfg i).2.world := by
  rcases serverStep_world cfg s i with hs | ⟨env, c, -, hs⟩ | ⟨env, k, q, att, posts, -, -, hs⟩ |
    ⟨env, clock, -, hs⟩
  · rw [hs]; exact h
  · rw [hs]; exact call_agreed hp c s.world hown h
  · rw [hs]; exact postLocked_agreed hp q att s.world h
  · rw [hs]; exact (build_agreed env clock fun name hn => ⟨_, h name hn⟩).same_rooms rfl rfl

theorem run_agreed {cfg : Config} (hp : cfg.persistent = true) {ok : Server → HubInput → Prop}
    {tr : List (HubInput × HubAnswer)} {s : Server} (r : Sys.Run (hubMachine cfg) ok tr s) :
    Homed cfg s.world ∧ Agreed cfg s.world := by
  refine Sys.Run.invariant (I := fun s => Homed cfg s.world ∧ Agreed cfg s.world) ?_ ?_ r
  · rintro s ⟨env, clock, rfl⟩
    refine ⟨build_homed cfg env clock {}, build_agreed env clock fun name _ => ⟨_, fresh_synced ?_⟩⟩
    simp [knownRooms, orderBy, loadInvites]
  · rintro s i ⟨ho, h⟩ -
    exact ⟨step_homed hp i ho, step_agreed hp i ho h⟩

end Loca
