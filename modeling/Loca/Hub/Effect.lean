/-
# `Loca.Hub.Effect` — what each operation does to rooms and tables

One lemma per operation, for a server with a database.  A room is looked at through
`roomOr`: a room that is not there reads as a fresh one, so creating it changes nothing
that can be read.  An operation then either leaves every room and every table as it was
(`Stays`), or changes one room and the database (`Edits`), and its lemma says how.

The laws of the later modules are derived from these lemmas; no proof there opens an
operation.
-/
import Mathlib.Logic.Function.Basic
import Loca.Hub.Attention
import Loca.Hub.Doors
import Loca.Hub.Post
import Loca.Hub.Settings
import Loca.Hub.Spoken

namespace Loca

open Check

/-- Every room reads as before, and so does the database. -/
structure Stays (cfg : Config) (w w' : World) : Prop where
  rooms : w'.roomOr cfg = w.roomOr cfg
  db : w'.db = w.db

/-- One room reads differently, and the database is another one. -/
structure Edits (cfg : Config) (room : String) (r : Room) (db : Db) (w w' : World) : Prop where
  rooms : w'.roomOr cfg = Function.update (w.roomOr cfg) room r
  db : w'.db = db

/-- One room is put in place; whether it was there is seen too. -/
structure Puts (room : String) (r : Room) (db : Db) (w w' : World) : Prop where
  rooms : ∀ name, w'.room? name = if name = room then some r else w.room? name
  deleted : w'.hub.deleted = w.hub.deleted
  db : w'.db = db

/-- The two databases agree on every table that a room's memory mirrors. -/
structure SameContent (db db' : Db) : Prop where
  messages : db'.messages = db.messages
  notes : db'.notes = db.notes
  noteRevisions : db'.noteRevisions = db.noteRevisions
  tasks : db'.tasks = db.tasks
  goals : db'.goals = db.goals
  waits : db'.waits = db.waits
  journal : db'.journal = db.journal
  rooms : db'.rooms = db.rooms
  care : db'.care = db.care

theorem SameContent.refl (db : Db) : SameContent db db :=
  ⟨rfl, rfl, rfl, rfl, rfl, rfl, rfl, rfl, rfl⟩

theorem SameContent.trans {db₁ db₂ db₃ : Db} (h : SameContent db₁ db₂) (h' : SameContent db₂ db₃) :
    SameContent db₁ db₃ :=
  ⟨h'.messages.trans h.messages, h'.notes.trans h.notes, h'.noteRevisions.trans h.noteRevisions,
    h'.tasks.trans h.tasks, h'.goals.trans h.goals, h'.waits.trans h.waits,
    h'.journal.trans h.journal, h'.rooms.trans h.rooms, h'.care.trans h.care⟩

namespace World

theorem roomOr_eq_of_room? {cfg : Config} {w w' : World} (h : ∀ n, w'.room? n = w.room? n) :
    w'.roomOr cfg = w.roomOr cfg := by
  funext n
  simp only [roomOr, h n]

theorem roomOr_of_rooms {cfg : Config} {w w' : World} (h : w'.hub.rooms = w.hub.rooms) :
    w'.roomOr cfg = w.roomOr cfg :=
  roomOr_eq_of_room? fun n => congrArg (Assoc.get n) h

theorem roomOr_setRoom (cfg : Config) (room : String) (r : Room) (w : World) :
    (w.setRoom room r).roomOr cfg = Function.update (w.roomOr cfg) room r := by
  funext n
  by_cases hn : n = room
  · subst hn
    simp [roomOr]
  · simp [roomOr, room?_setRoom, hn]

/-- Entering a room that is not there makes it, as it was already read. -/
theorem roomOr_enter (cfg : Config) (room : String) (w : World) :
    (w.setRoom room (w.roomOr cfg room)).roomOr cfg = w.roomOr cfg := by
  rw [roomOr_setRoom, Function.update_eq_self]

@[simp] theorem roomOr_setDb (cfg : Config) (db : Db) (w : World) :
    (w.setDb db).roomOr cfg = w.roomOr cfg := rfl
@[simp] theorem roomOr_send (cfg : Config) (n : String) (fs : List ServerFrame) (w : World) :
    (w.send n fs).roomOr cfg = w.roomOr cfg := rfl
@[simp] theorem roomOr_setGeneration (cfg : Config) (g : Nat) (w : World) :
    (w.setGeneration g).roomOr cfg = w.roomOr cfg := rfl
@[simp] theorem db_setGeneration (g : Nat) (w : World) : (w.setGeneration g).db = w.db := rfl
@[simp] theorem room?_setGeneration (g : Nat) (n : String) (w : World) :
    (w.setGeneration g).room? n = w.room? n := rfl
@[simp] theorem roomOr_takeId (cfg : Config) (w : World) : w.takeId.roomOr cfg = w.roomOr cfg := rfl
@[simp] theorem db_takeId (w : World) : w.takeId.db = w.db := rfl
@[simp] theorem room?_takeId (n : String) (w : World) : w.takeId.room? n = w.room? n := rfl
@[simp] theorem roomOr_noteDelivery (cfg : Config) (s : CareSignal) (w : World) :
    (w.noteDelivery s).roomOr cfg = w.roomOr cfg := rfl
@[simp] theorem db_noteDelivery (s : CareSignal) (w : World) : (w.noteDelivery s).db = w.db := rfl
@[simp] theorem room?_noteDelivery (s : CareSignal) (n : String) (w : World) :
    (w.noteDelivery s).room? n = w.room? n := rfl

/-- What a successful write leaves behind on a server with a database. -/
theorem store_ok {cfg : Config} {env : Env} {call : StoreCall} {tx : Db → Except StoreError Db}
    {w w' : World} (hp : cfg.persistent = true) (h : w.store cfg env call tx = .ok w') :
    ∃ db, tx w.db = .ok db ∧ w' = w.setDb db := by
  unfold store at h
  cases hc : commit cfg.persistent (env.fails call) tx w.db with
  | error e => rw [hc] at h; cases h
  | ok db =>
      rw [hc] at h
      rcases commit_ok.mp hc with ⟨-, -, htx⟩ | ⟨hn, -⟩
      · exact ⟨db, htx, (Except.ok.inj h).symm⟩
      · rw [hp] at hn; cases hn

/-- The same for a transaction that cannot fail by itself. -/
theorem store_total {cfg : Config} {env : Env} {call : StoreCall} {f : Db → Db}
    {w w' : World} (hp : cfg.persistent = true)
    (h : w.store cfg env call (fun db => .ok (f db)) = .ok w') : w' = w.setDb (f w.db) := by
  obtain ⟨db, hdb, rfl⟩ := store_ok hp h
  cases hdb
  rfl

end World

theorem Puts.edits {cfg : Config} {room : String} {r : Room} {db : Db} {w w' : World}
    (h : Puts room r db w w') : Edits cfg room r db w w' := by
  refine ⟨?_, h.db⟩
  funext name
  rw [World.roomOr, h.rooms, Function.update_apply]
  split
  · rfl
  · rfl

theorem Puts.of_set (room : String) (r : Room) (db : Db) (w : World) :
    Puts room r db w ((w.setDb db).setRoom room r) :=
  ⟨fun _ => World.room?_setRoom _ _ _ _, rfl, rfl⟩

theorem Stays.refl (cfg : Config) (w : World) : Stays cfg w w := ⟨rfl, rfl⟩

theorem Stays.enter (cfg : Config) (room : String) (w : World) :
    Stays cfg w (w.setRoom room (w.roomOr cfg room)) :=
  ⟨World.roomOr_enter cfg room w, rfl⟩

/-- The usual end of an operation: the database is written, then the room, then frames. -/
theorem Edits.of_set {cfg : Config} {room : String} {r : Room} {db : Db} {w w' : World}
    {frames : List ServerFrame} (h : w'.roomOr cfg = w.roomOr cfg) :
    Edits cfg room r db w (((w'.setDb db).setRoom room r).send room frames) where
  rooms := by rw [World.roomOr_send, World.roomOr_setRoom, World.roomOr_setDb, h]
  db := rfl

/-! ## Frames

What a room update and a transaction leave alone; the care fields are described elsewhere. -/

theorem putTask_eq (room : String) (t : Task) (progressed : Bool) (r : Room) :
    ∃ marks attentions, r.putTask room t progressed =
      { r with tasks := r.tasks.put t.id t, careMarks := marks, attentions := attentions } := by
  unfold Room.putTask
  split
  · exact ⟨_, _, rfl⟩
  · exact ⟨r.careMarks, r.attentions, rfl⟩

theorem putGoal_eq (room : String) (g : Goal) (progressed : Bool) (r : Room) :
    ∃ marks attentions, r.putGoal room g progressed =
      { r with goals := r.goals.put g.id g, careMarks := marks, attentions := attentions } := by
  unfold Room.putGoal
  split
  · exact ⟨_, _, rfl⟩
  · exact ⟨r.careMarks, r.attentions, rfl⟩

theorem putWait_eq (room : String) (wait : WaitState) (r : Room) :
    ∃ marks attentions, r.putWait room wait =
      { r with waits := r.waits.put wait.waiter wait, careMarks := marks, attentions := attentions } :=
  ⟨_, _, rfl⟩

theorem dropWait_eq (room waiter : String) (now : Nat) (r : Room) :
    ∃ marks attentions, r.dropWait room waiter now =
      { r with waits := r.waits.del waiter, careMarks := marks, attentions := attentions } :=
  ⟨_, _, rfl⟩

/-- The goal rows after a task moved. -/
def goalRows (goal : Option Goal) (db : Db) : List Goal :=
  match goal with
  | some g => (writeGoal g db).goals
  | none => db.goals

/-- The care tables after a task moved: its own condition is over, and its goal's. -/
def taskCare (t : Task) (goal : Option Goal) (clear : Bool) (c : CareTables) : CareTables :=
  let c := if clear then c.resetCare t.room (taskKey t.id) t.progressAt else c
  match goal with
  | some g => c.resetCare g.room (goalKey g.id) g.progressAt
  | none => c

def goalCare (g : Goal) (clear : Bool) (c : CareTables) : CareTables :=
  if clear then c.resetCare g.room (goalKey g.id) g.progressAt else c

theorem upsertTaskWithGoalProgress_eq (t : Task) (goal : Option Goal) (clear : Bool) (db : Db) :
    upsertTaskWithGoalProgress t goal clear db =
      { db.withCare (taskCare t goal clear db.care) with
        tasks := (writeTask t db).tasks
        goals := goalRows goal db } := by
  cases goal <;> cases clear <;> rfl

theorem upsertGoalWithCareReset_eq (g : Goal) (clear : Bool) (db : Db) :
    upsertGoalWithCareReset g clear db =
      { db.withCare (goalCare g clear db.care) with goals := (writeGoal g db).goals } := by
  cases clear <;> rfl

theorem saveRoom_ok {room : String} {mode : ChatMode} {settings : RoomSettings} {clock : Nat}
    {db db' : Db} (h : saveRoom room mode settings clock db = .ok db') :
    isSealed room db = false ∧
    db' = { db.withCare (if settings.archived then db.care.pauseRoomAttentions room clock
        else db.care) with
      rooms := Table.insertOrUpdate RoomRow.room ⟨room, mode, settings, none⟩
        (fun r => { r with mode := mode, settings := settings }) db.rooms } := by
  simp only [saveRoom, bind_ok, pure_ok] at h
  obtain ⟨db₁, h₁, rfl⟩ := h
  obtain ⟨hs, rfl⟩ := writeRoomState_ok.mp h₁
  refine ⟨hs, ?_⟩
  split <;> rfl

section Specs

variable {cfg : Config} {env : Env} (hp : cfg.persistent = true)
include hp

/-! ## Work -/

theorem createTask_spec (room : String) (req : CreateTask) (w : World) :
    Stays cfg w (createTask cfg env room req w).2 ∨
    ∃ t, t = req.task room (w.roomOr cfg room).nextTaskId env.now ∧
      Edits cfg room { w.roomOr cfg room with
        nextTaskId := t.id + 1, tasks := (w.roomOr cfg room).tasks.put t.id t }
        (writeTask t w.db) w (createTask cfg env room req w).2 := by
  unfold createTask
  dsimp only
  split
  · exact .inl (.refl cfg w)
  · next w' hs =>
    obtain rfl := World.store_total hp hs
    exact .inr ⟨_, rfl, .of_set rfl⟩

theorem updateTask_spec (room : String) (id : Nat) (req : UpdateTask) (isOperator : Bool) (w : World) :
    Stays cfg w (updateTask cfg env room id req isOperator w).2 ∨
    ∃ t t' progressed goal, (w.roomOr cfg room).tasks.get id = some t ∧
      req.plan isOperator env.now w.hub.conditionGeneration t = .ok (t', progressed) ∧
      goal = (if progressed then linkedGoal t'.progressAt t' (w.roomOr cfg room) else none) ∧
      Edits cfg room
        (match goal with
          | none => (w.roomOr cfg room).putTask room t' progressed
          | some g => ((w.roomOr cfg room).putTask room t' progressed).putGoal room g true)
        (upsertTaskWithGoalProgress t' goal progressed w.db) w
        (updateTask cfg env room id req isOperator w).2 := by
  unfold updateTask
  split
  · exact .inl (.refl cfg w)
  · next r hr =>
    rw [World.roomOr_of_some hr]
    split
    · exact .inl (.refl cfg w)
    · next t ht =>
      split
      · exact .inl (.refl cfg w)
      · next t' progressed hplan =>
        dsimp only
        split
        · exact .inl ⟨rfl, rfl⟩
        · next w' hs =>
          obtain rfl := World.store_total hp hs
          right
          refine ⟨t, t', progressed, _, ht, hplan, rfl, ?_⟩
          split
          · next hg => rw [hg]; exact .of_set rfl
          · next g hg => rw [hg]; exact .of_set rfl

theorem createGoal_spec (room : String) (req : CreateGoal) (w : World) :
    Stays cfg w (createGoal cfg env room req w).2 ∨
    ∃ g, req.plan room env.now (w.roomOr cfg room) = .ok g ∧
      Edits cfg room { w.roomOr cfg room with
        nextGoalId := (w.roomOr cfg room).nextGoalId + 1
        goals := (w.roomOr cfg room).goals.put g.id g }
        (writeGoal g w.db) w (createGoal cfg env room req w).2 := by
  unfold createGoal
  dsimp only
  split
  · exact .inl (.enter cfg room w)
  · next g hg =>
    split
    · exact .inl (.enter cfg room w)
    · next w' hs =>
      obtain rfl := World.store_total hp hs
      exact .inr ⟨g, hg, .of_set (World.roomOr_enter cfg room w)⟩

theorem updateGoal_spec (room : String) (id : Nat) (req : UpdateGoal) (w : World) :
    Stays cfg w (updateGoal cfg env room id req w).2 ∨
    ∃ g g' progressed, (w.roomOr cfg room).goals.get id = some g ∧
      req.plan env.now w.hub.conditionGeneration (w.roomOr cfg room) g = .ok (g', progressed) ∧
      Edits cfg room ((w.roomOr cfg room).putGoal room g' progressed)
        (upsertGoalWithCareReset g' progressed w.db) w (updateGoal cfg env room id req w).2 := by
  unfold updateGoal
  split
  · exact .inl (.refl cfg w)
  · next r hr =>
    rw [World.roomOr_of_some hr]
    split
    · exact .inl (.refl cfg w)
    · next g hg =>
      split
      · exact .inl (.refl cfg w)
      · next g' progressed hplan =>
        dsimp only
        split
        · left
          split <;> exact ⟨rfl, rfl⟩
        · next w' hs =>
          obtain rfl := World.store_total hp hs
          right
          refine ⟨g, g', progressed, hg, hplan, ?_⟩
          split <;> exact .of_set rfl

theorem setWait_spec (room : String) (req : SetWait) (w : World) :
    Stays cfg w (setWait cfg env room req w).2 ∨
    ∃ wait : WaitState, wait.room = room ∧ wait.waiter = req.waitBy ∧
      Edits cfg room ((w.roomOr cfg room).putWait room wait)
        (replaceWaitWithCare wait wait.since w.db) w (setWait cfg env room req w).2 := by
  unfold setWait
  split
  · exact .inl (.refl cfg w)
  · dsimp only
    split
    · exact .inl (.enter cfg room w)
    · split
      · exact .inl ⟨World.roomOr_enter cfg room w, rfl⟩
      · next w' hs =>
        obtain rfl := World.store_total hp hs
        exact .inr ⟨_, rfl, rfl, .of_set (World.roomOr_enter cfg room w)⟩

theorem clearWait_spec (room waiter : String) (w : World) :
    Stays cfg w (clearWait cfg env room waiter w).2 ∨
    Edits cfg room ((w.roomOr cfg room).dropWait room waiter env.now)
      (deleteWait room waiter env.now w.db) w (clearWait cfg env room waiter w).2 := by
  unfold clearWait
  split
  · exact .inl (.refl cfg w)
  · next r hr =>
    rw [World.roomOr_of_some hr]
    split
    · exact .inl (.refl cfg w)
    · split
      · exact .inl (.refl cfg w)
      · next w' hs =>
        obtain rfl := World.store_total hp hs
        exact .inr (.of_set rfl)

/-! ## Messages -/

omit hp in
theorem count_accept (q : PostRequest) (r : Room) (db : Db) (d : PostDraft) (w : World) :
    Edits cfg q.room (d.mirror env q db r) db w (d.accept cfg env q r db w) := by
  have hfold : ∀ (l : List CareSignal) (w₁ : World),
      Stays cfg w₁ (l.foldl (fun w s => w.noteDelivery s) w₁) := by
    intro l
    induction l with
    | nil => exact fun w₁ => .refl cfg w₁
    | cons s l ih => exact fun w₁ => ⟨(ih _).rooms, (ih _).db⟩
  have h := hfold d.deliveries (d.count ((w.setRoom q.room (d.mirror env q db r)).setDb db))
  refine ⟨h.rooms.trans ?_, h.db⟩
  exact World.roomOr_setRoom cfg q.room _ w

/-- Under the lock: a remembered answer, a refusal that at most expires stamps, or the
accepted message. -/
theorem postLocked_spec (q : PostRequest) (attachments : List Attachment) (w : World) :
    (∃ m, q.remembered (w.roomOr cfg q.room) = some m ∧
      postLocked cfg env q attachments w = (.ok m, w.setRoom q.room (w.roomOr cfg q.room))) ∨
    (∃ e times, (postLocked cfg env q attachments w).1 = .error e ∧
      Edits cfg q.room { w.roomOr cfg q.room with postTimes := times } w.db w
        (postLocked cfg env q attachments w).2) ∨
    ∃ author r d db, r = q.expireStamps env.now (w.roomOr cfg q.room) ∧
      d = q.draft cfg env attachments author r w.hub ∧
      d.persist cfg env.now q r w.db = .ok db ∧
      q.remembered (w.roomOr cfg q.room) = none ∧
      q.admitted (w.roomOr cfg q.room) = .ok () ∧
      (postLocked cfg env q attachments w).1 = .ok d.msg ∧
      Edits cfg q.room (d.mirror env q db r) db w (postLocked cfg env q attachments w).2 := by
  rcases postLocked_cases cfg env q attachments w with ⟨m, hm, h⟩ | ⟨e, w', h, href⟩ |
    ⟨r, d, db, ha, h⟩
  · exact .inl ⟨m, hm, h⟩
  · right; left
    rw [h]
    obtain ⟨r, hr, hroom⟩ := href.room
    have hrooms : w'.roomOr cfg = Function.update (w.roomOr cfg) q.room r := by
      funext n
      by_cases hn : n = q.room
      · subst hn
        rw [Function.update_self, World.roomOr_of_some hroom]
      · rw [Function.update_of_ne hn]
        simp only [World.roomOr, href.others n hn]
    have htimes : r = { w.roomOr cfg q.room with postTimes := r.postTimes } := by
      rcases hr with rfl | rfl
      · rfl
      · unfold PostRequest.expireStamps
        split <;> rfl
    exact ⟨e, r.postTimes, rfl, htimes ▸ hrooms, href.db⟩
  · right; right
    rw [h]
    obtain ⟨author, hd⟩ := ha.draft
    rcases commit_ok.mp ha.stored with ⟨-, -, hdb⟩ | ⟨hn, -⟩
    · exact ⟨author, r, d, db, ha.room, hd, hdb, ha.fresh, ha.admitted, rfl, count_accept q r db d w⟩
    · rw [hp] at hn; cases hn

theorem setLead_spec (room : String) (lead : Option String) (actor : String) (w : World) :
    Stays cfg w (setLead cfg env room lead actor w).2 ∨
    ∃ m settings db, w.isDeleted cfg room = false ∧ m.room = room ∧ m.attachments = [] ∧
      settings = { (w.roomOr cfg room).settings with lead := lead } ∧
      insertMessageWithRoom m (w.roomOr cfg room).mode settings none w.db = .ok db ∧
      Edits cfg room ({ w.roomOr cfg room with settings := settings }.announce m) db w
        (setLead cfg env room lead actor w).2 := by
  unfold setLead
  split
  · exact .inl (.refl cfg w)
  · next hdel =>
    dsimp only
    split
    · exact .inl (.refl cfg w)
    · split
      · exact .inl ⟨rfl, rfl⟩
      · next w' hs =>
        obtain ⟨db, hdb, rfl⟩ := World.store_ok hp hs
        exact .inr ⟨_, _, db, Bool.eq_false_iff.mpr hdel, rfl, rfl, rfl, hdb, .of_set rfl⟩

theorem announceJoinRequest_spec (name kind : String) (w : World) :
    ∃ m db, m.room = cfg.homeRoom ∧ m.attachments = [] ∧
      (db = w.db ∨ insertMessageWithRoom m (w.roomOr cfg cfg.homeRoom).mode
        (w.roomOr cfg cfg.homeRoom).settings none w.db = .ok db) ∧
      Edits cfg cfg.homeRoom ((w.roomOr cfg cfg.homeRoom).announce m) db w
        (announceJoinRequest cfg env name kind w) := by
  unfold announceJoinRequest
  dsimp only
  split
  · exact ⟨_, w.db, rfl, rfl, .inl rfl, ⟨World.roomOr_setRoom _ _ _ _, rfl⟩⟩
  · next w' hs =>
    obtain ⟨db, hdb, rfl⟩ := World.store_ok hp hs
    exact ⟨_, db, rfl, rfl, .inr hdb, .of_set rfl⟩

/-! ## Mode and settings -/

theorem setMode_spec (room : String) (mode : ChatMode) (clock : Nat) (w : World) :
    Stays cfg w (setMode cfg env room mode clock w).2 ∨
    ∃ db, w.isDeleted cfg room = false ∧
      saveRoom room mode.normal (w.roomOr cfg room).settings clock w.db = .ok db ∧
      Edits cfg room { w.roomOr cfg room with mode := mode.normal } db w
        (setMode cfg env room mode clock w).2 := by
  unfold setMode
  split
  · exact .inl (.refl cfg w)
  · next hdel =>
    dsimp only
    split
    · exact .inl (.enter cfg room w)
    · next w' hs =>
      obtain ⟨db, hdb, rfl⟩ := World.store_ok hp hs
      exact .inr ⟨db, Bool.eq_false_iff.mpr hdel, hdb, .of_set (World.roomOr_enter cfg room w)⟩

theorem setSettings_spec (room : String) (req : SetSettings) (clock : Nat) (w : World) :
    Stays cfg w (setSettings cfg env room req clock w).2 ∨
    ∃ db, w.isDeleted cfg room = false ∧
      saveRoom room (w.roomOr cfg room).mode (req.apply (w.roomOr cfg room).settings) clock w.db =
        .ok db ∧
      Edits cfg room ((w.roomOr cfg room).putSettings req env.now) db w
        (setSettings cfg env room req clock w).2 := by
  unfold setSettings
  split
  · exact .inl (.refl cfg w)
  · next hdel =>
    dsimp only
    split
    · exact .inl (.enter cfg room w)
    · next w' hs =>
      obtain ⟨db, hdb, rfl⟩ := World.store_ok hp hs
      exact .inr ⟨db, Bool.eq_false_iff.mpr hdel, hdb, .of_set (World.roomOr_enter cfg room w)⟩

theorem expireLiveRoom_spec (clock : Nat) (name : String) (w : World) :
    Stays cfg w (expireLiveRoom cfg env clock w name) ∨
    ∃ settings db, settings = { (w.roomOr cfg name).settings with live := false } ∧
      (w.room? name).isSome ∧
      saveRoom name (w.roomOr cfg name).mode settings clock w.db = .ok db ∧
      Edits cfg name { w.roomOr cfg name with settings := settings } db w
        (expireLiveRoom cfg env clock w name) := by
  unfold expireLiveRoom
  split
  · exact .inl (.refl cfg w)
  · next r hr =>
    rw [World.roomOr_of_some hr]
    split
    · dsimp only
      split
      · exact .inl ⟨rfl, rfl⟩
      · next w' hs =>
        obtain ⟨db, hdb, rfl⟩ := World.store_ok hp hs
        exact .inr ⟨_, db, rfl, by simp [hr], hdb, ⟨World.roomOr_setRoom _ _ _ _, rfl⟩⟩
    · exact .inl (.refl cfg w)

/-! ## Notes and the journal -/

theorem createNote_spec (room : String) (req : CreateNote) (w : World) :
    Stays cfg w (createNote cfg env room req w).2 ∨
    ∃ note : Note, note.key = req.key ∧ note.rev = (w.roomOr cfg room).nextRev ∧
      Edits cfg room { w.roomOr cfg room with
        nextRev := note.rev + 1, notes := (w.roomOr cfg room).notes.put req.key note }
        (upsertNote room note w.db) w (createNote cfg env room req w).2 := by
  unfold createNote
  dsimp only
  split
  · exact .inl (.refl cfg w)
  · split
    · exact .inl (.refl cfg w)
    · next w' hs =>
      obtain rfl := World.store_total hp hs
      exact .inr ⟨⟨req.key, req.title, req.body, req.canWrite, req.noteBy, env.now,
        (w.roomOr cfg room).nextRev⟩, rfl, rfl, .of_set rfl⟩

theorem updateNote_spec (room key : String) (req : UpdateNote) (isOperator : Bool) (w : World) :
    Stays cfg w (updateNote cfg env room key req isOperator w).2 ∨
    ∃ previous updated db, (w.roomOr cfg room).notes.get key = some previous ∧
      updated = req.apply isOperator env.now (w.roomOr cfg room).nextRev previous ∧
      replaceNote room previous updated w.db = .ok db ∧
      Edits cfg room { w.roomOr cfg room with
        nextRev := (w.roomOr cfg room).nextRev + 1
        notes := (w.roomOr cfg room).notes.put key updated } db w
        (updateNote cfg env room key req isOperator w).2 := by
  unfold updateNote
  split
  · exact .inl (.refl cfg w)
  · next r hr =>
    rw [World.roomOr_of_some hr]
    split
    · exact .inl (.refl cfg w)
    · next previous hn =>
      dsimp only
      split
      · exact .inl (.refl cfg w)
      · next w' hs =>
        obtain ⟨db, hdb, rfl⟩ := World.store_ok hp hs
        exact .inr ⟨previous, _, db, hn, rfl, hdb, .of_set rfl⟩

theorem deleteNote_spec (room key : String) (w : World) :
    Stays cfg w (deleteNote cfg env room key w).2 ∨
    Edits cfg room { w.roomOr cfg room with notes := (w.roomOr cfg room).notes.del key }
      (deleteNoteRow room key w.db) w (deleteNote cfg env room key w).2 := by
  unfold deleteNote
  split
  · exact .inl (.refl cfg w)
  · next r hr =>
    rw [World.roomOr_of_some hr]
    split
    · exact .inl (.refl cfg w)
    · split
      · exact .inl (.refl cfg w)
      · next w' hs =>
        obtain rfl := World.store_total hp hs
        exact .inr (.of_set rfl)

theorem appendJournal_spec (room entryBy : String) (byType : SenderType) (text : String) (w : World) :
    Stays cfg w (appendJournal cfg env room entryBy byType text w).2 ∨
    ∃ entry db, entry.room = room ∧ entry.id = (w.roomOr cfg room).nextJournalId ∧
      appendJournalRow entry w.db = .ok db ∧
      Edits cfg room { w.roomOr cfg room with
        nextJournalId := entry.id + 1, journal := (w.roomOr cfg room).journal ++ [entry] } db w
        (appendJournal cfg env room entryBy byType text w).2 := by
  unfold appendJournal
  dsimp only
  split
  · exact .inl (.refl cfg w)
  · next w' hs =>
    obtain ⟨db, hdb, rfl⟩ := World.store_ok hp hs
    exact .inr ⟨⟨(w.roomOr cfg room).nextJournalId, room, entryBy, byType, text, env.now⟩, db, rfl, rfl,
      hdb, .of_set rfl⟩

/-! ## Attentions -/

theorem createAttention_spec (room : String) (req : CreateAttention) (w : World) :
    Stays cfg w (createAttention cfg env room req w).2 ∨
    ∃ s owner participants db a, (w.room? room).isSome ∧
      s = manualSignal env room req owner participants (w.roomOr cfg room) ∧
      db = w.db.withCare (w.db.care.writeCare room s) ∧ a = World.readAttention env db s ∧
      Edits cfg room ((w.roomOr cfg room).fileAttention a) db w
        (createAttention cfg env room req w).2 := by
  unfold createAttention
  split
  · exact .inl (.refl cfg w)
  · next r hr =>
    rw [World.roomOr_of_some hr]
    split
    · exact .inl (.refl cfg w)
    · next owner participants _ =>
      dsimp only
      split
      · exact .inl (.refl cfg w)
      · next w' hs =>
        obtain rfl := World.store_total hp hs
        right
        refine ⟨_, owner, participants, _, _, by simp [hr], rfl, rfl, rfl, ?_, rfl⟩
        exact World.roomOr_setRoom cfg room _ _

omit hp in
theorem held_some {w : World} {room id : String} {r : Room} {a : Attention}
    (h : ((w.room? room).bind fun r => (r.attentions.get id).map fun a => (r, a)) = some (r, a)) :
    w.room? room = some r ∧ r.attentions.get id = some a := by
  simp only [Option.bind_eq_some_iff, Option.map_eq_some_iff, Prod.mk.injEq] at h
  obtain ⟨r', hr, a', ha, rfl, rfl⟩ := h
  exact ⟨hr, ha⟩

theorem storeCare_ok {blank changed : Bool} {tx : CareTables → Bool × CareTables} {w w' : World}
    (h : w.storeCare cfg env blank tx = .ok (changed, w')) :
    changed = (tx w.db.care).1 ∧ w' = w.setDb (w.db.withCare (tx w.db.care).2) := by
  unfold World.storeCare at h
  rw [if_pos hp] at h
  split at h
  · cases h
  · cases h
    exact ⟨rfl, rfl⟩

theorem claimAttention_spec (room id actor : String) (w : World) :
    Stays cfg w (claimAttention cfg env room id actor w).2 ∨
    ∃ a, (w.roomOr cfg room).attentions.get id = some a ∧ a.status = .opened ∧
      (w.db.care.claimAttention id actor env.now).1 = true ∧
      Edits cfg room { w.roomOr cfg room with
        attentions := (w.roomOr cfg room).attentions.put id (a.claim actor env.now) }
        (w.db.withCare (w.db.care.claimAttention id actor env.now).2) w
        (claimAttention cfg env room id actor w).2 := by
  unfold claimAttention
  split
  · exact .inl (.refl cfg w)
  · next r a hra =>
    obtain ⟨hr, ha⟩ := held_some hra
    rw [World.roomOr_of_some hr]
    split
    · exact .inl (.refl cfg w)
    · split
      · exact .inl (.refl cfg w)
      · next hopen =>
        split
        · exact .inl (.refl cfg w)
        · next w' hs =>
          -- no row was open, so none has changed
          obtain ⟨hc, rfl⟩ := storeCare_ok hp hs
          refine .inl ⟨rfl, ?_⟩
          have hnone := Table.updateWhere_eq_self_of_any
            (f := fun r : AttentionRow => { r with claimedBy := some actor, claimedAt := some env.now })
            hc.symm
          simp only [World.db_setDb, CareTables.claimAttention, hnone]
          rfl
        · next w' hs =>
          obtain ⟨hc, rfl⟩ := storeCare_ok hp hs
          exact .inr ⟨a, ha, not_not.mp hopen, hc.symm, .of_set rfl⟩

theorem resolveAttention_spec (room id actor : String) (principal : Option String)
    (isOperator : Bool) (w : World) :
    Stays cfg w (resolveAttention cfg env room id actor principal isOperator w).2 ∨
    ∃ a, (w.roomOr cfg room).attentions.get id = some a ∧ a.status ≠ .resolved ∧
      (w.db.care.resolveAttention id env.now).1 = true ∧
      Edits cfg room { w.roomOr cfg room with
        attentions := (w.roomOr cfg room).attentions.put id (a.resolve env.now) }
        (w.db.withCare (w.db.care.resolveAttention id env.now).2) w
        (resolveAttention cfg env room id actor principal isOperator w).2 := by
  unfold resolveAttention
  split
  · exact .inl (.refl cfg w)
  · next r a hra =>
    obtain ⟨hr, ha⟩ := held_some hra
    rw [World.roomOr_of_some hr]
    split
    · exact .inl (.refl cfg w)
    · split
      · exact .inl (.refl cfg w)
      · split
        · exact .inl (.refl cfg w)
        · next hopen =>
          split
          · exact .inl (.refl cfg w)
          · next w' hs =>
            obtain ⟨hc, rfl⟩ := storeCare_ok hp hs
            refine .inl ⟨rfl, ?_⟩
            unfold CareTables.resolveAttention at hc ⊢
            split at hc
            · cases hc
            · next hn => rw [if_neg hn]; rfl
          · next w' hs =>
            obtain ⟨hc, rfl⟩ := storeCare_ok hp hs
            exact .inr ⟨a, ha, hopen, hc.symm, .of_set rfl⟩

omit hp in
theorem holder_some {w : World} {id name : String} {r : Room} {a : Attention}
    (h : w.holder env id = some (name, r, a)) :
    w.room? name = some r ∧ r.attentions.get id = some a := by
  obtain ⟨n, -, hn⟩ := List.exists_of_findSome?_eq_some h
  simp only [Option.bind_eq_some_iff, Option.map_eq_some_iff, Prod.mk.injEq] at hn
  obtain ⟨r', hr, a', ha, rfl, rfl, rfl⟩ := hn
  exact ⟨hr, ha⟩

/-- A delivery that is acknowledged stamps the row and, where a room holds it, the attention
in memory. -/
theorem ackCare_spec (signalId owner : String) (principal : Option String) (w : World) :
    Stays cfg w (ackCare cfg env signalId owner principal w).2 ∨
    (∃ db, db = w.db.withCare (w.db.care.ackCareScoped signalId owner principal env.now).2 ∧
      (ackCare cfg env signalId owner principal w).2.roomOr cfg = w.roomOr cfg ∧
      (ackCare cfg env signalId owner principal w).2.db = db) ∨
    ∃ name id a, (w.roomOr cfg name).attentions.get id = some a ∧
      Edits cfg name { w.roomOr cfg name with
        attentions := (w.roomOr cfg name).attentions.put id
          { a with deliveredAt := some (a.deliveredAt.getD env.now) } }
        (w.db.withCare (w.db.care.ackCareScoped signalId owner principal env.now).2) w
        (ackCare cfg env signalId owner principal w).2 := by
  unfold ackCare
  dsimp only
  split
  · exact .inl (.refl cfg w)
  · next id _ =>
    split
    · exact .inl (.refl cfg w)
    · split
      · exact .inl (.refl cfg w)
      · next acked w' hs =>
        obtain ⟨hc, rfl⟩ := storeCare_ok hp hs
        split
        · split
          · exact .inr (.inl ⟨_, rfl, rfl, rfl⟩)
          · next name r a hheld =>
            obtain ⟨hr, ha⟩ := holder_some hheld
            refine .inr (.inr ⟨name, id, a, ?_, ?_, rfl⟩)
            · rw [World.roomOr_of_some hr]; exact ha
            · rw [World.roomOr_of_some hr, World.roomOr_send, World.roomOr_setRoom]
              rfl
        · exact .inr (.inl ⟨_, rfl, rfl, rfl⟩)

/-! ## Doors -/

theorem createLoca_spec (room : String) (actor : RequestAuthority) (clock : Nat) (w : World) :
    Stays cfg w (createLoca cfg env room actor clock w).2 ∨
    ∃ db, w.room? room = none ∧ w.isDeleted cfg room = false ∧
      (writeRoomState room .free cfg.defaultSettings w.db = .ok db ∨
        saveRoom room .free cfg.defaultSettings clock w.db = .ok db) ∧
      (createLoca cfg env room actor clock w).2.roomOr cfg = w.roomOr cfg ∧
      SameContent db (createLoca cfg env room actor clock w).2.db := by
  unfold createLoca
  split
  · exact .inl (.refl cfg w)
  · split
    · exact .inl (.refl cfg w)
    · next hdel =>
      split
      · exact .inl (.refl cfg w)
      · next hnone =>
        have hr : w.room? room = none := by simpa using hnone
        have hfresh : Room.fresh .free cfg.defaultSettings 1 = w.roomOr cfg room := by
          simp [World.roomOr, hr]
        split
        · exact .inl (.refl cfg w)
        · next db hdb =>
          right
          have hrooms : ((w.setDb db).setRoom room (.fresh .free cfg.defaultSettings 1)).roomOr cfg =
              w.roomOr cfg := by
            rw [hfresh]
            exact World.roomOr_enter cfg room w
          unfold foundRoom at hdb
          split at hdb
          · simp only [bind_ok, found_ok, require_ok, exists_const] at hdb
            obtain ⟨founder, -, -, hdb⟩ := hdb
            rw [mapError_ok] at hdb
            simp only [createRoomWithOperator, bind_ok, require_ok, exists_const] at hdb
            obtain ⟨-, -, role, -, -, db₁, hdb₁, hdb⟩ := hdb
            rw [mapError_ok] at hdb₁
            simp only [insertAssignment, bind_ok, require_ok, pure_ok, exists_const] at hdb
            obtain ⟨-, rfl⟩ := hdb
            exact ⟨db₁, hr, Bool.eq_false_iff.mpr hdel, .inl hdb₁, hrooms, ⟨rfl, rfl, rfl, rfl, rfl,
              rfl, rfl, rfl, rfl⟩⟩
          · rw [mapError_ok] at hdb
            rcases commit_ok.mp hdb with ⟨-, -, hdb⟩ | ⟨hn, -⟩
            · exact ⟨db, hr, Bool.eq_false_iff.mpr hdel, .inr hdb, hrooms, .refl _⟩
            · rw [hp] at hn; cases hn

theorem deleteRoom_spec (room : String) (w : World) :
    Stays cfg w (deleteRoom cfg env room w).2 ∨
    (w.room? room).isSome ∧ (w.roomOr cfg room).settings.archived = true ∧
      Edits cfg room (.fresh .free cfg.defaultSettings 1) (sealRoom room env.now w.db) w
        (deleteRoom cfg env room w).2 := by
  unfold deleteRoom
  split
  · exact .inl (.refl cfg w)
  · next r hr =>
    split
    · exact .inl (.refl cfg w)
    · next harch =>
      split
      · exact .inl (.refl cfg w)
      · next w' hs =>
        obtain rfl := World.store_total hp hs
        refine .inr ⟨by simp [hr], ?_, ?_, rfl⟩
        · rw [World.roomOr_of_some hr]
          simpa using harch
        · funext n
          show ((w.hub.rooms.del room).get n).getD _ = _
          rw [Assoc.get_del, Function.update_apply]
          split
          · rfl
          · rfl

/-- The parts of a room that seating and moderation change. -/
def Room.reseat (members : Assoc String Seat) (muted banned : List String) (r : Room) : Room :=
  { r with members := members, muted := muted, banned := banned }

/-- At most the seats of one room change, and tables that no room mirrors. -/
def Reseats (cfg : Config) (room : String) (w w' : World) : Prop :=
  ∃ members muted banned db, SameContent w.db db ∧
    Edits cfg room ((w.roomOr cfg room).reseat members muted banned) db w w'

omit hp in
theorem Reseats.of_rooms {room : String} {w w' : World} (h : w'.roomOr cfg = w.roomOr cfg)
    (hdb : SameContent w.db w'.db) : Reseats cfg room w w' := by
  refine ⟨(w.roomOr cfg room).members, (w.roomOr cfg room).muted, (w.roomOr cfg room).banned, w'.db,
    hdb, ?_, rfl⟩
  show w'.roomOr cfg = Function.update (w.roomOr cfg) room (w.roomOr cfg room)
  rw [Function.update_eq_self, h]

omit hp in
theorem Reseats.of_stays {room : String} {w w₁ w' : World} (h : Stays cfg w₁ w')
    (hr : w₁.roomOr cfg = w.roomOr cfg) (hdb : SameContent w.db w₁.db) : Reseats cfg room w w' :=
  .of_rooms (h.rooms.trans hr) (h.db ▸ hdb)

omit hp in
theorem subscribe_spec (room : String) (w : World) : Stays cfg w (subscribe cfg room w).2 := by
  unfold subscribe
  split
  · exact .refl cfg w
  · exact .enter cfg room w

omit hp in
theorem seat_reseat (identity name : String) (kind : SenderType) (session : Nat) (r : Room) :
    ∃ members, (r.seat identity name kind session).2 = r.reseat members r.muted r.banned := by
  unfold Room.seat
  split
  · exact ⟨_, rfl⟩
  · split <;> exact ⟨_, rfl⟩

omit hp in
theorem join_spec (room identity name : String) (kind : SenderType) (session : Nat) (w : World) :
    Reseats cfg room w (join cfg room identity name kind session w).2 := by
  unfold join
  split
  · exact .of_rooms rfl (.refl _)
  · dsimp only
    split
    · exact .of_rooms (World.roomOr_enter cfg room w) (.refl _)
    · obtain ⟨members, hm⟩ := seat_reseat identity name kind session (w.roomOr cfg room)
      refine ⟨members, (w.roomOr cfg room).muted, (w.roomOr cfg room).banned, w.db, .refl _, ?_, rfl⟩
      rw [← hm]
      exact World.roomOr_setRoom cfg room _ w

omit hp in
theorem leave_spec (room identity : String) (w : World) :
    Reseats cfg room w (leave room identity w) := by
  unfold leave
  split
  · exact .of_rooms rfl (.refl _)
  · next r hr =>
    have hun : ∃ members, r.unseat identity = r.reseat members r.muted r.banned := by
      unfold Room.unseat
      split
      · exact ⟨_, rfl⟩
      · exact ⟨_, rfl⟩
    obtain ⟨members, hm⟩ := hun
    refine ⟨members, r.muted, r.banned, w.db, .refl _, ?_, rfl⟩
    rw [World.roomOr_of_some hr, ← hm]
    exact World.roomOr_setRoom cfg room _ w

theorem admitMember_spec (room name kind admittedBy : String) (w : World) :
    Reseats cfg room w (admitMember cfg env name kind admittedBy w).2 := by
  unfold admitMember
  split
  · exact .of_rooms rfl (.refl _)
  · dsimp only
    split
    · exact .of_rooms rfl (.refl _)
    · next w' hs =>
      obtain rfl := World.store_total hp hs
      exact .of_rooms rfl ⟨rfl, rfl, rfl, rfl, rfl, rfl, rfl, rfl, rfl⟩

theorem inviteMemberToRoom_spec (member room issuedBy : String) (w : World) :
    Reseats cfg room w (inviteMemberToRoom cfg env member room issuedBy w).2 := by
  have hsame : Reseats cfg room w w := .of_rooms rfl (.refl _)
  unfold inviteMemberToRoom
  split
  · exact hsame
  · split
    · exact hsame
    · split
      · exact hsame
      · dsimp only
        split
        · exact hsame
        · split
          · exact hsame
          · split
            · exact hsame
            · split
              · exact hsame
              · next w' hs =>
                obtain ⟨db, hdb, rfl⟩ := World.store_ok hp hs
                simp only [insertInvite, bind_ok, pure_ok] at hdb
                obtain ⟨-, -, rfl⟩ := hdb
                exact .of_rooms rfl ⟨rfl, rfl, rfl, rfl, rfl, rfl, rfl, rfl, rfl⟩

omit hp in
theorem closeConnections_stays (room name : String) (w : World) :
    Stays cfg w (w.closeConnections room name) := by
  unfold World.closeConnections
  split
  · exact .refl cfg w
  · exact ⟨rfl, rfl⟩

omit hp in
theorem closeConnections_foldl {α : Type} (room name : α → String) (l : List α) (w : World) :
    Stays cfg w (l.foldl (fun w i => w.closeConnections (room i) (name i)) w) := by
  induction l generalizing w with
  | nil => exact .refl cfg w
  | cons i l ih =>
      have h := @closeConnections_stays cfg (room i) (name i) w
      exact ⟨(ih _).rooms.trans h.rooms, (ih _).db.trans h.db⟩

theorem revokeDavet_spec (room token : String) (w : World) :
    Reseats cfg room w (revokeDavet cfg env token w).2 := by
  unfold revokeDavet
  split
  · exact .of_rooms rfl (.refl _)
  · next inv _ =>
    split
    · exact .of_rooms rfl (.refl _)
    · next w' hs =>
      obtain rfl := World.store_total hp hs
      exact .of_stays (closeConnections_stays _ _ _) rfl ⟨rfl, rfl, rfl, rfl, rfl, rfl, rfl, rfl, rfl⟩

theorem revokeMember_spec (room token : String) (w : World) :
    Reseats cfg room w (revokeMember cfg env token w).2 := by
  unfold revokeMember
  split
  · exact .of_rooms rfl (.refl _)
  · split
    · exact .of_rooms rfl (.refl _)
    · next w' hs =>
      obtain rfl := World.store_total hp hs
      exact .of_stays (closeConnections_foldl Invite.room Invite.name _ _) rfl
        ⟨rfl, rfl, rfl, rfl, rfl, rfl, rfl, rfl, rfl⟩

theorem moderateStore_spec {room name : String} {action : ModAction} {w w' : World}
    (h : moderateStore cfg env room action name w = .ok w') :
    w'.roomOr cfg = w.roomOr cfg ∧ SameContent w.db w'.db := by
  have hstore : ∀ {f : Db → Db}, w.store cfg env .write (fun db => .ok (f db)) = .ok w' →
      SameContent w.db (f w.db) → w'.roomOr cfg = w.roomOr cfg ∧ SameContent w.db w'.db := by
    intro f hs hc
    obtain rfl := World.store_total hp hs
    exact ⟨rfl, hc⟩
  cases action with
  | mute => exact hstore h ⟨rfl, rfl, rfl, rfl, rfl, rfl, rfl, rfl, rfl⟩
  | unmute => exact hstore h ⟨rfl, rfl, rfl, rfl, rfl, rfl, rfl, rfl, rfl⟩
  | ban => exact hstore h ⟨rfl, rfl, rfl, rfl, rfl, rfl, rfl, rfl, rfl⟩
  | unban => exact hstore h ⟨rfl, rfl, rfl, rfl, rfl, rfl, rfl, rfl, rfl⟩
  | kick => cases h; exact ⟨rfl, .refl _⟩
  | release => cases h; exact ⟨rfl, .refl _⟩

theorem revokeInvitesFor_spec {room name : String} {w w' : World}
    (h : w.revokeInvitesFor cfg env room name = .ok w') :
    w'.roomOr cfg = w.roomOr cfg ∧ SameContent w.db w'.db := by
  unfold World.revokeInvitesFor at h
  dsimp only at h
  split at h
  · cases h; exact ⟨rfl, .refl _⟩
  · simp only [bind_ok, pure_ok] at h
    obtain ⟨w₁, hs, rfl⟩ := h
    obtain rfl := World.store_total hp hs
    refine ⟨(closeConnections_foldl (fun _ => room) (fun _ => name) _ _).rooms, ?_⟩
    rw [(@closeConnections_foldl cfg Invite (fun _ => room) (fun _ => name) _ _).db]
    exact ⟨rfl, rfl, rfl, rfl, rfl, rfl, rfl, rfl, rfl⟩

omit hp in
theorem moderate_reseat (action : ModAction) (name : String) (r : Room) :
    ∃ members muted banned, (r.moderate action name).1 = r.reseat members muted banned := by
  cases action <;> exact ⟨_, _, _, rfl⟩

theorem moderate_spec (room : String) (action : ModAction) (name : String) (w : World) :
    Reseats cfg room w (moderate cfg env room action name w).2 := by
  unfold moderate
  split
  · exact .of_rooms rfl (.refl _)
  · split
    · exact .of_rooms rfl (.refl _)
    · next w₁ hs =>
      obtain ⟨hr₁, hc₁⟩ := moderateStore_spec hp hs
      dsimp only
      split
      · exact .of_rooms hr₁ hc₁
      · next w₂ hrev =>
        have h₂ : w₂.roomOr cfg = w₁.roomOr cfg ∧ SameContent w₁.db w₂.db := by
          split at hrev
          · exact revokeInvitesFor_spec hp hrev
          · cases hrev; exact ⟨rfl, .refl _⟩
        obtain ⟨members, muted, banned, hm⟩ := moderate_reseat action name (w₂.roomOr cfg room)
        refine ⟨members, muted, banned, w₂.db, hc₁.trans h₂.2, ?_, rfl⟩
        rw [World.roomOr_send, World.roomOr_setRoom, hm, h₂.1, hr₁]

end Specs

end Loca
