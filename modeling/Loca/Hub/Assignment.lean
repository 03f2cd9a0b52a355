/-
# `Loca.Hub.Assignment` — who may move a task

`update_task` says of its rules: the assigned agent may take a task and mark it done, only an
operator may cancel, reopen or reassign.  What it checks is the requested status: taken and done
are the assignee's, open and cancelled the operator's.  The status the task has is not looked at,
so an assignee takes a cancelled task, or one that is done, back into work.

`house_rules` has the exact condition, call by call along any sequence of calls: a sequence keeps
the rules if and only if no accepted call of it asks for that.
-/
import Loca.Hub.Goals

namespace Loca

open Check

/-! ## Tasks stand under their numbers -/

/-- What a call may make of a room's tasks. -/
inductive TasksTo (m : Assoc Nat Task) : Assoc Nat Task → Prop
  | same : TasksTo m m
  | put (t : Task) : TasksTo m (m.put t.id t)
  | gone : TasksTo m ∅

/-- What a call makes of every room's tasks. -/
def EachTasksTo (cfg : Config) (w w' : World) : Prop :=
  ∀ name, TasksTo (w.roomOr cfg name).tasks (w'.roomOr cfg name).tasks

/-- No room's tasks change. -/
def SameTasks (cfg : Config) (w w' : World) : Prop :=
  ∀ name, (w'.roomOr cfg name).tasks = (w.roomOr cfg name).tasks

namespace SameTasks

variable {cfg : Config} {w w' w'' : World} {room : String} {r : Room} {db : Db}

theorem each (h : SameTasks cfg w w') : EachTasksTo cfg w w' := fun name => by rw [h name]; exact .same

theorem refl (w : World) : SameTasks cfg w w := fun _ => rfl

theorem trans (h : SameTasks cfg w w') (h' : SameTasks cfg w' w'') : SameTasks cfg w w'' :=
  fun name => (h' name).trans (h name)

theorem stays (hs : Stays cfg w w') : SameTasks cfg w w' := fun name => by rw [hs.rooms]

theorem edits (he : Edits cfg room r db w w') (ht : r.tasks = (w.roomOr cfg room).tasks) : SameTasks cfg w w' := by
  intro name
  rw [he.rooms, Function.update_apply]
  split
  · next hn => rw [ht, hn]
  · rfl

theorem reseats (hr : Reseats cfg room w w') : SameTasks cfg w w' := by
  obtain ⟨members, muted, banned, db, -, he⟩ := hr
  exact edits he rfl

end SameTasks

theorem EachTasksTo.edits {cfg : Config} {w w' : World} {room : String} {r : Room} {db : Db}
    (he : Edits cfg room r db w w') (ht : TasksTo (w.roomOr cfg room).tasks r.tasks) : EachTasksTo cfg w w' := by
  intro name
  rw [he.rooms, Function.update_apply]
  split
  · next hn => rw [hn]; exact ht
  · exact .same

section Calls

variable {cfg : Config} {env : Env} (hp : cfg.persistent = true)
include hp

theorem tickCare_tasks (w : World) : SameTasks cfg w (tickCare cfg env w) := by
  have hsweep := Sys.foldl_rel (R := fun a b : World × List (String × CareSignal) => SameTasks cfg a.1 b.1)
    (fun a => SameTasks.refl a.1) (fun _ _ _ h h' => h.trans h') (f := sweepRoom cfg env)
    (fun acc room => ?_) (Assoc.inOrder env.order w.hub.rooms.keys) (w, [])
  · refine hsweep.trans ?_
    refine Sys.foldl_rel (R := SameTasks cfg) SameTasks.refl (fun _ _ _ h h' => h.trans h') (fun w p => ?_) _ _
    rcases @publishCareSignal_spec cfg env w p with ⟨hs, -⟩ | he
    · exact .stays hs
    · exact .edits he rfl
  · rcases sweepRoom_spec hp acc room with hs | ⟨r', db, signals, -, -, hf, -, he⟩
    · rw [hs]
      exact .refl _
    · refine .edits he.edits ?_
      cases hf <;> rfl

theorem call_tasks (c : HubCall) (w : World) : EachTasksTo cfg w (c.run cfg env w).2 := by
  cases c with
  | createTask room req =>
      rcases @createTask_spec cfg env hp room req w with hs | ⟨t, -, he⟩
      · exact (SameTasks.stays hs).each
      · exact .edits he (.put t)
  | updateTask room id req isOperator =>
      rcases @updateTask_spec cfg env hp room id req isOperator w with hs | ⟨t, t', p, goal, -, -, -, he⟩
      · exact (SameTasks.stays hs).each
      · refine .edits he ?_
        obtain ⟨marks, attentions, hput⟩ := putTask_eq room t' p (w.roomOr cfg room)
        cases goal with
        | none =>
            dsimp only
            rw [hput]
            exact .put t'
        | some g =>
            obtain ⟨marks', attentions', hputg⟩ := putGoal_eq room g true ((w.roomOr cfg room).putTask room t' p)
            dsimp only
            rw [hputg, hput]
            exact .put t'
  | createGoal room req =>
      rcases @createGoal_spec cfg env hp room req w with hs | ⟨g, -, he⟩
      · exact (SameTasks.stays hs).each
      · exact (SameTasks.edits he rfl).each
  | updateGoal room id req =>
      rcases @updateGoal_spec cfg env hp room id req w with hs | ⟨g, g', p, -, -, he⟩
      · exact (SameTasks.stays hs).each
      · obtain ⟨marks, attentions, hput⟩ := putGoal_eq room g' p (w.roomOr cfg room)
        exact (SameTasks.edits he (by rw [hput])).each
  | setWait room req =>
      rcases @setWait_spec cfg env hp room req w with hs | ⟨wait, -, -, he⟩
      · exact (SameTasks.stays hs).each
      · exact (SameTasks.edits he rfl).each
  | clearWait room waiter =>
      rcases @clearWait_spec cfg env hp room waiter w with hs | he
      · exact (SameTasks.stays hs).each
      · exact (SameTasks.edits he rfl).each
  | setLead room lead actor =>
      rcases @setLead_spec cfg env hp room lead actor w with hs | ⟨m, s, db, -, -, -, -, -, he⟩
      · exact (SameTasks.stays hs).each
      · exact (SameTasks.edits he rfl).each
  | announceJoinRequest name kind =>
      obtain ⟨m, db, -, -, -, he⟩ := @announceJoinRequest_spec cfg env hp name kind w
      exact (SameTasks.edits he rfl).each
  | setMode room mode clock =>
      rcases @setMode_spec cfg env hp room mode clock w with hs | ⟨db, -, -, he⟩
      · exact (SameTasks.stays hs).each
      · exact (SameTasks.edits he rfl).each
  | setSettings room req clock =>
      rcases @setSettings_spec cfg env hp room req clock w with hs | ⟨db, -, -, he⟩
      · exact (SameTasks.stays hs).each
      · exact (SameTasks.edits he rfl).each
  | expireLive clock =>
      refine SameTasks.each (Sys.foldl_rel (R := SameTasks cfg) SameTasks.refl (fun _ _ _ h h' => h.trans h')
        (fun w n => ?_) _ w)
      rcases @expireLiveRoom_spec cfg env hp clock n w with hs | ⟨s, db, -, -, -, he⟩
      · exact .stays hs
      · exact .edits he rfl
  | createNote room req =>
      rcases @createNote_spec cfg env hp room req w with hs | ⟨note, -, -, he⟩
      · exact (SameTasks.stays hs).each
      · exact (SameTasks.edits he rfl).each
  | updateNote room key req isOperator =>
      rcases @updateNote_spec cfg env hp room key req isOperator w with hs | ⟨n, n', db, -, -, -, he⟩
      · exact (SameTasks.stays hs).each
      · exact (SameTasks.edits he rfl).each
  | deleteNote room key =>
      rcases @deleteNote_spec cfg env hp room key w with hs | he
      · exact (SameTasks.stays hs).each
      · exact (SameTasks.edits he rfl).each
  | appendJournal room entryBy byType text =>
      rcases @appendJournal_spec cfg env hp room entryBy byType text w with hs | ⟨e, db, -, -, -, he⟩
      · exact (SameTasks.stays hs).each
      · exact (SameTasks.edits he rfl).each
  | createAttention room req =>
      rcases @createAttention_spec cfg env hp room req w with hs | ⟨s, o, ps, db, a, -, -, -, -, he⟩
      · exact (SameTasks.stays hs).each
      · exact (SameTasks.edits he rfl).each
  | claimAttention room id actor =>
      rcases @claimAttention_spec cfg env hp room id actor w with hs | ⟨a, -, -, -, he⟩
      · exact (SameTasks.stays hs).each
      · exact (SameTasks.edits he rfl).each
  | resolveAttention room id actor principal isOperator =>
      rcases @resolveAttention_spec cfg env hp room id actor principal isOperator w with hs | ⟨a, -, -, -, he⟩
      · exact (SameTasks.stays hs).each
      · exact (SameTasks.edits he rfl).each
  | ackCare signalId owner principal =>
      rcases @ackCare_spec cfg env hp signalId owner principal w with hs | ⟨db, -, hr, -⟩ | ⟨name, id, a, -, he⟩
      · exact (SameTasks.stays hs).each
      · exact SameTasks.each fun name => congrArg Room.tasks (congrFun hr name)
      · exact (SameTasks.edits he rfl).each
  | tickCare => exact (tickCare_tasks hp w).each
  | createLoca room actor clock =>
      rcases @createLoca_spec cfg env hp room actor clock w with hs | ⟨db, -, -, -, hr, -⟩
      · exact (SameTasks.stays hs).each
      · exact SameTasks.each fun name => congrArg Room.tasks (congrFun hr name)
  | deleteRoom room =>
      rcases @deleteRoom_spec cfg env hp room w with hs | ⟨-, -, he⟩
      · exact (SameTasks.stays hs).each
      · exact .edits he .gone
  | subscribe room => exact (SameTasks.stays (subscribe_spec room w)).each
  | join room identity name kind session => exact (SameTasks.reseats (join_spec room identity name kind session w)).each
  | leave room identity => exact (SameTasks.reseats (leave_spec room identity w)).each
  | admitMember name kind admittedBy => exact (SameTasks.reseats (admitMember_spec hp "" name kind admittedBy w)).each
  | inviteMemberToRoom member room issuedBy =>
      exact (SameTasks.reseats (inviteMemberToRoom_spec hp member room issuedBy w)).each
  | revokeDavet token => exact (SameTasks.reseats (revokeDavet_spec hp "" token w)).each
  | revokeMember token => exact (SameTasks.reseats (revokeMember_spec hp "" token w)).each
  | moderate room action name => exact (SameTasks.reseats (moderate_spec hp room action name w)).each
  | outside db => exact (SameTasks.refl _).each

theorem postLocked_tasks (q : PostRequest) (attachments : List Attachment) (w : World) :
    SameTasks cfg w (postLocked cfg env q attachments w).2 := by
  rcases @postLocked_spec cfg env hp q attachments w with ⟨m, -, hl⟩ | ⟨e, times, -, he⟩ |
    ⟨author, r, d, db, hr, hd, -, -, -, -, he⟩
  · rw [hl]
    exact .stays (.enter cfg q.room w)
  · exact .edits he rfl
  · refine .edits he ?_
    obtain ⟨times, hexp⟩ := expireStamps_eq q env.now (w.roomOr cfg q.room)
    obtain ⟨marks, atts, hm⟩ := @mirror_eq env q db d r
    rw [hm]
    refine (@heard_eq env q d r).1.trans ?_
    rw [hr, hexp]

end Calls

/-- Every task of every room stands under its number. -/
def Keyed (cfg : Config) (w : World) : Prop :=
  ∀ name i t, (w.roomOr cfg name).tasks.get i = some t → t.id = i

theorem Keyed.each {cfg : Config} {w w' : World} (h : Keyed cfg w) (ht : EachTasksTo cfg w w') : Keyed cfg w' := by
  intro name i t hi
  have hto := ht name
  generalize (w'.roomOr cfg name).tasks = m at hto hi
  cases hto with
  | same => exact h name i t hi
  | put x =>
      rw [Assoc.get_put] at hi
      split at hi
      · next hkey => rw [← Option.some.inj hi, hkey]
      · exact h name i t hi
  | gone => cases hi

theorem loadRoom_keyed (name : String) (db : Db) : ∀ i t, (loadRoom name db).tasks.get i = some t → t.id = i := by
  intro i t hi
  have hload : ∀ (rows : List Task) (m : Assoc Nat Task), (∀ i t, m.get i = some t → t.id = i) →
      ∀ i t, (rows.foldl (fun (m : Assoc Nat Task) t => m.put t.id t) m).get i = some t → t.id = i := by
    intro rows
    induction rows with
    | nil => exact fun m hm => hm
    | cons x rows ih =>
        intro m hm
        refine ih _ fun i t hi => ?_
        rw [Assoc.get_put] at hi
        split at hi
        · next hkey => rw [← Option.some.inj hi, hkey]
        · exact hm i t hi
  exact hload _ ∅ (fun i t hi => by cases hi) i t hi

theorem build_keyed (cfg : Config) (env : Env) (clock : Nat) (db : Db) : Keyed cfg (build cfg env clock db) := by
  have hset : ∀ (w : World) (name : String) (r : Room), Keyed cfg w → r.tasks = (w.roomOr cfg name).tasks →
      Keyed cfg (w.setRoom name r) := by
    intro w name r h ht
    have he : Edits cfg name r w.db w (w.setRoom name r) := ⟨World.roomOr_setRoom cfg name r w, rfl⟩
    exact h.each (SameTasks.edits he ht).each
  refine build_rule (P := Keyed cfg) ?_ ?_ ?_ ?_ ?_
  · intro db₀ _ name
    show ∀ i t, (((restored db₀).room? name).getD (Room.fresh .free cfg.defaultSettings 1)).tasks.get i = some t → _
    rw [room?_restored]
    split
    · exact loadRoom_keyed name db₀
    · exact fun i t hi => by cases hi
  · intro w room h
    rcases migrateOperator_spec env clock w room with ⟨hr, -⟩ | ⟨r, settings, db₁, db₂, hr, rfl, -, -, he⟩
    · intro name
      rw [World.roomOr_of_rooms hr]
      exact h name
    · rw [he]
      refine hset (w.setDb db₂) room _ h ?_
      rw [show (w.setDb db₂).roomOr cfg room = r from World.roomOr_of_some hr]
  · intro w w' h hr _ name
    rw [World.roomOr_of_rooms hr]
    exact h name
  · intro w h
    unfold ensureHome
    refine hset w _ _ h ?_
    split <;> rfl
  · intro w b _ h
    unfold loadBan
    refine hset w _ _ h ?_
    split
    · rfl
    · split <;> rfl

theorem run_keyed {cfg : Config} (hp : cfg.persistent = true) {ok : Server → HubInput → Prop}
    {tr : List (HubInput × HubAnswer)} {s : Server} (r : Sys.Run (hubMachine cfg) ok tr s) : Keyed cfg s.world := by
  refine Sys.Run.invariant (I := fun s => Keyed cfg s.world) ?_ ?_ r
  · rintro s ⟨env, clock, rfl⟩
    exact build_keyed cfg env clock {}
  · intro s i h _
    show Keyed cfg (s.step cfg i).2.world
    rcases serverStep_world cfg s i with hs | ⟨env, c, -, hs⟩ | ⟨env, k, q, attachments, posts, -, -, hs⟩ |
      ⟨env, clock, -, hs⟩
    · rw [hs]; exact h
    · rw [hs]; exact h.each (call_tasks hp c s.world)
    · rw [hs]; exact h.each (postLocked_tasks hp q attachments s.world).each
    · rw [hs]; exact build_keyed cfg env clock s.world.db

/-! ## One update -/

/-- An update that comes from somebody who is no operator. -/
structure TaskCall where
  env : Env
  room : String
  id : Nat
  req : UpdateTask

def TaskCall.run (cfg : Config) (c : TaskCall) (w : World) : World :=
  (updateTask cfg c.env c.room c.id c.req false w).2

def World.task? (room : String) (id : Nat) (w : World) : Option Task :=
  (w.room? room).bind fun r => r.tasks.get id

/-- A room that is only about to be made has no tasks. -/
theorem World.task?_eq (cfg : Config) (room : String) (id : Nat) (w : World) :
    w.task? room id = (w.roomOr cfg room).tasks.get id := by
  unfold World.task? World.roomOr
  cases w.room? room <;> rfl

/-- The rules of the house, for a task before and after somebody's update. -/
structure HouseRules (who : String) (t t' : Task) : Prop where
  /-- What is done or cancelled stays so. -/
  closed : t.status.isClosed = true → t'.status = t.status
  /-- Nothing is cancelled or opened again. -/
  moved : t'.status = t.status ∨ t'.status = .taken ∨ t'.status = .done
  assigned : ∀ a, t.assignedTo = some a → t'.assignedTo = some a
  /-- Only the assignee moves it, or who takes it with this call. -/
  own : t'.status ≠ t.status → t.assignedTo = some who ∨ (t.assignedTo = none ∧ t'.assignedTo = some who)

theorem HouseRules.refl (who : String) (t : Task) : HouseRules who t t :=
  ⟨fun _ => rfl, .inl rfl, fun _ h => h, fun h => absurd rfl h⟩

/-- The call keeps the rules for every task of the server. -/
def TaskCall.Keeps (cfg : Config) (c : TaskCall) (w : World) : Prop :=
  ∀ room id t, w.task? room id = some t →
    ∃ t', (c.run cfg w).task? room id = some t' ∧ HouseRules c.req.taskBy t t'

/-- A closed task's assignee, or who claims it in this call, asks to have it taken or done instead,
and the store takes the write. -/
def TaskCall.Revives (c : TaskCall) (w : World) : Prop :=
  ∃ t st, w.task? c.room c.id = some t ∧ t.status.isClosed = true ∧
    c.req.status = some st ∧ (st = .taken ∨ st = .done) ∧ st ≠ t.status ∧
    (c.req.assignedTo = none ∨ c.req.assignedTo = some c.req.taskBy) ∧
    (t.assignedTo = some c.req.taskBy ∨ (t.assignedTo = none ∧ c.req.assignedTo = some c.req.taskBy)) ∧
    c.env.fails .write = false

/-- What somebody who is no operator makes of a task. -/
structure PlannedBy (req : UpdateTask) (t t' : Task) : Prop where
  assigned : (req.assignedTo = none ∧ t'.assignedTo = t.assignedTo) ∨
    (req.assignedTo = some req.taskBy ∧ (t.assignedTo = none ∨ t.assignedTo = some req.taskBy) ∧
      t'.assignedTo = some req.taskBy)
  moved : (req.status = none ∧ t'.status = t.status) ∨
    ∃ st, req.status = some st ∧ (st = .taken ∨ st = .done) ∧ t'.assignedTo = some req.taskBy ∧ t'.status = st

theorem UpdateTask.plan_by {req : UpdateTask} {now generation : Nat} {t t' : Task} {progressed : Bool}
    (h : req.plan false now generation t = .ok (t', progressed)) : PlannedBy req t t' := by
  simp only [UpdateTask.plan, bind_ok] at h
  obtain ⟨⟨t₁, reassigned⟩, h₁, ⟨t₂, moved⟩, h₂, h⟩ := h
  have hassign : t₁.status = t.status ∧ ((req.assignedTo = none ∧ t₁.assignedTo = t.assignedTo) ∨
      (req.assignedTo = some req.taskBy ∧ (t.assignedTo = none ∨ t.assignedTo = some req.taskBy) ∧
        t₁.assignedTo = some req.taskBy)) := by
    unfold UpdateTask.assign at h₁
    split at h₁
    · next hnone =>
      cases h₁
      exact ⟨rfl, .inl ⟨hnone, rfl⟩⟩
    · next a ha =>
      simp only [bind_ok, require_ok, pure_ok, Prod.mk.injEq, exists_const, Bool.false_eq_true, false_or] at h₁
      obtain ⟨⟨hfree, rfl⟩, rfl, -⟩ := h₁
      exact ⟨rfl, .inr ⟨ha, hfree, rfl⟩⟩
  have hmove : t₂.assignedTo = t₁.assignedTo ∧ ((req.status = none ∧ t₂.status = t₁.status) ∨
      ∃ st, req.status = some st ∧ (st = .taken ∨ st = .done) ∧ t₁.assignedTo = some req.taskBy ∧ t₂.status = st) := by
    unfold UpdateTask.move at h₂
    split at h₂
    · next hnone =>
      cases h₂
      exact ⟨rfl, .inl ⟨hnone, rfl⟩⟩
    · next st hst =>
      simp only [bind_ok, require_ok, pure_ok, Prod.mk.injEq, exists_const, Bool.false_eq_true, false_or] at h₂
      obtain ⟨⟨hkind, hmine⟩, rfl, -⟩ := h₂
      exact ⟨rfl, .inr ⟨st, hst, hkind, hmine, rfl⟩⟩
  have hboth : PlannedBy req t t₂ := by
    refine ⟨?_, ?_⟩
    · rw [hmove.1]
      exact hassign.2
    · rw [hmove.1, ← hassign.1]
      exact hmove.2
  split at h <;> cases h
  · exact ⟨hboth.assigned, hboth.moved⟩
  · exact hboth

/-- The rules hold of a planned task, but for the status of a closed one. -/
theorem PlannedBy.rules {req : UpdateTask} {t t' : Task} (h : PlannedBy req t t')
    (hclosed : t.status.isClosed = true → t'.status = t.status) : HouseRules req.taskBy t t' := by
  refine ⟨hclosed, ?_, fun a ha => ?_, fun hne => ?_⟩
  · rcases h.moved with ⟨-, hs⟩ | ⟨st, -, hkind, -, hs⟩
    · exact .inl hs
    · rw [hs]
      exact .inr hkind
  · rcases h.assigned with ⟨-, hs⟩ | ⟨-, hfree, hs⟩
    · exact hs.trans ha
    · rcases hfree with hfree | hfree
      · rw [hfree] at ha; cases ha
      · exact hs.trans (hfree.symm.trans ha)
  · rcases h.moved with ⟨-, hs⟩ | ⟨st, -, -, hmine, -⟩
    · exact absurd hs hne
    · rcases h.assigned with ⟨-, hs⟩ | ⟨-, hfree, hs⟩
      · exact .inl (hs.symm.trans hmine)
      · rcases hfree with hfree | hfree
        · exact .inr ⟨hfree, hmine⟩
        · exact .inl hfree

theorem store_total_iff {cfg : Config} {env : Env} {call : StoreCall} {f : Db → Db} {w : World}
    (hp : cfg.persistent = true) :
    (∃ w', w.store cfg env call (fun db => .ok (f db)) = .ok w') ↔ env.fails call = false := by
  unfold World.store commit
  rw [hp]
  cases env.fails call with
  | true => exact ⟨fun ⟨w', h⟩ => (by cases h), fun h => (by cases h)⟩
  | false => exact ⟨fun _ => rfl, fun _ => ⟨_, rfl⟩⟩

/-- An update is refused and leaves every task alone, or moves the one it names as planned. -/
theorem TaskCall.run_cases {cfg : Config} (hp : cfg.persistent = true) (c : TaskCall) {w : World} (hk : Keyed cfg w) :
    ((∀ n i, (c.run cfg w).task? n i = w.task? n i) ∧
      ∀ t, w.task? c.room c.id = some t → c.env.fails .write = false →
        ∃ e, c.req.plan false c.env.now w.hub.conditionGeneration t = .error e) ∨
    ∃ t t' progressed, w.task? c.room c.id = some t ∧ c.env.fails .write = false ∧
      c.req.plan false c.env.now w.hub.conditionGeneration t = .ok (t', progressed) ∧
      ∀ n i, (c.run cfg w).task? n i = if n = c.room ∧ i = c.id then some t' else w.task? n i := by
  unfold TaskCall.run updateTask
  cases hr : w.room? c.room with
  | none =>
      refine .inl ⟨fun _ _ => rfl, fun t ht => ?_⟩
      rw [World.task?, hr] at ht
      cases ht
  | some r =>
      have htask : w.task? c.room c.id = r.tasks.get c.id := by rw [World.task?, hr]; rfl
      dsimp only
      cases ht : r.tasks.get c.id with
      | none =>
          refine .inl ⟨fun _ _ => rfl, fun t ht' => ?_⟩
          rw [htask, ht] at ht'
          cases ht'
      | some t =>
          have hself : w.task? c.room c.id = some t := htask.trans ht
          dsimp only
          cases hplan : c.req.plan false c.env.now w.hub.conditionGeneration t with
          | error e =>
              refine .inl ⟨fun _ _ => rfl, fun x hx _ => ⟨e, ?_⟩⟩
              obtain rfl := Option.some.inj (hself.symm.trans hx)
              exact hplan
          | ok p =>
              obtain ⟨t', progressed⟩ := p
              have hid : t'.id = c.id := by
                refine (UpdateTask.plan_room hplan).2.trans (hk c.room c.id t ?_)
                rw [← World.task?_eq]
                exact hself
              dsimp only
              split
              · next e hs =>
                left
                refine ⟨fun _ _ => rfl, fun x _ hf => ?_⟩
                obtain ⟨w', hw'⟩ := (store_total_iff hp).mpr hf
                cases hs.symm.trans hw'
              · next w' hs =>
                right
                have hf := (store_total_iff hp).mp ⟨w', hs⟩
                obtain rfl := World.store_total hp hs
                refine ⟨t, t', progressed, hself, hf, hplan, fun n i => ?_⟩
                obtain ⟨marks, attentions, hput⟩ := putTask_eq c.room t' progressed r
                have hget : ∀ r' : Room, r'.tasks = r.tasks.put t'.id t' →
                    r'.tasks.get i = if i = c.id then some t' else r.tasks.get i := by
                  intro r' hr'
                  rw [hr', Assoc.get_put, hid]
                have hroom : ∀ (r' : Room) (w₀ : World), r'.tasks = r.tasks.put t'.id t' → w₀.room? n = w.room? n →
                    (w₀.setRoom c.room r').task? n i =
                      if n = c.room ∧ i = c.id then some t' else w.task? n i := by
                  intro r' w₀ hr' hw₀
                  unfold World.task?
                  rw [World.room?_setRoom]
                  by_cases hn : n = c.room
                  · subst hn
                    rw [if_pos rfl, Option.bind_some, hget r' hr', hr, Option.bind_some]
                    simp
                  · rw [if_neg hn, if_neg fun h => hn h.1, hw₀]
                split
                · exact hroom _ _ (by rw [hput]) rfl
                · next g hg =>
                  obtain ⟨marks', attentions', hputg⟩ := putGoal_eq c.room g true (r.putTask c.room t' progressed)
                  exact hroom _ _ (by rw [hputg, hput]) rfl

/-- Whoever may move the task moves it. -/
theorem UpdateTask.plan_moves {req : UpdateTask} {t : Task} {st : TaskStatus} (now generation : Nat)
    (hst : req.status = some st) (hkind : st = .taken ∨ st = .done)
    (hask : req.assignedTo = none ∨ req.assignedTo = some req.taskBy)
    (hmine : t.assignedTo = some req.taskBy ∨ (t.assignedTo = none ∧ req.assignedTo = some req.taskBy)) :
    ∃ t' progressed, req.plan false now generation t = .ok (t', progressed) := by
  have hassign : ∃ t₁ reassigned, req.assign false t = .ok (t₁, reassigned) ∧
      t₁.assignedTo = some req.taskBy := by
    unfold UpdateTask.assign
    rcases hask with hnone | hself
    · rw [hnone]
      refine ⟨t, false, rfl, ?_⟩
      rcases hmine with hmine | ⟨-, hclaim⟩
      · exact hmine
      · cases hnone.symm.trans hclaim
    · rw [hself]
      have hfree : t.assignedTo = none ∨ t.assignedTo = some req.taskBy := hmine.symm.imp And.left id
      refine ⟨_, _, bind_ok.mpr ⟨(), require_ok.mpr (.inr ⟨hfree, rfl⟩), rfl⟩, rfl⟩
  obtain ⟨t₁, reassigned, h₁, hown⟩ := hassign
  have hmove : ∃ t₂ moved, req.move false now t₁ = .ok (t₂, moved) := by
    unfold UpdateTask.move
    rw [hst]
    exact ⟨_, _, bind_ok.mpr ⟨(), require_ok.mpr (.inr ⟨hkind, hown⟩), rfl⟩⟩
  obtain ⟨t₂, moved, h₂⟩ := hmove
  have hplan : req.plan false now generation t = (if reassigned || moved then
      pure ({ t₂ with progressAt := World.nextGeneration now t.progressAt generation }, true)
    else pure (t₂, false)) := by
    unfold UpdateTask.plan
    rw [h₁]
    show Except.bind (req.move false now t₁) _ = _
    rw [h₂]
    rfl
  rw [hplan]
  split
  · exact ⟨_, _, rfl⟩
  · exact ⟨_, _, rfl⟩

/-- One call keeps the rules exactly when it does not revive a task. -/
theorem TaskCall.keeps_iff {cfg : Config} (hp : cfg.persistent = true) (c : TaskCall) {w : World}
    (hk : Keyed cfg w) : c.Keeps cfg w ↔ ¬ c.Revives w := by
  constructor
  · rintro hkeep ⟨t, st, ht, hclosed, hst, hkind, hne, hask, hmine, hf⟩
    rcases c.run_cases hp hk with ⟨-, hrefused⟩ | ⟨t₀, t', progressed, ht₀, -, hplan, hafter⟩
    · obtain ⟨e, he⟩ := hrefused t ht hf
      obtain ⟨t', progressed, hplan⟩ :=
        UpdateTask.plan_moves c.env.now w.hub.conditionGeneration hst hkind hask hmine
      cases he.symm.trans hplan
    · obtain rfl := Option.some.inj (ht₀.symm.trans ht)
      obtain ⟨x, hx, hrules⟩ := hkeep c.room c.id t₀ ht
      rw [hafter, if_pos ⟨rfl, rfl⟩] at hx
      obtain rfl := Option.some.inj hx
      rcases (UpdateTask.plan_by hplan).moved with ⟨hnone, -⟩ | ⟨st', hst', -, -, hs⟩
      · cases hnone.symm.trans hst
      · obtain rfl := Option.some.inj (hst.symm.trans hst')
        exact hne (hs.symm.trans (hrules.closed hclosed))
  · intro hno room id t ht
    rcases c.run_cases hp hk with ⟨hsame, -⟩ | ⟨t₀, t', progressed, ht₀, hf, hplan, hafter⟩
    · exact ⟨t, (hsame room id).trans ht, .refl _ t⟩
    · rw [hafter]
      split
      · next hhit =>
        obtain ⟨rfl, rfl⟩ := hhit
        obtain rfl := Option.some.inj (ht₀.symm.trans ht)
        refine ⟨t', rfl, (UpdateTask.plan_by hplan).rules fun hclosed => ?_⟩
        by_contra hne
        have hby := UpdateTask.plan_by hplan
        rcases hby.moved with ⟨-, hs⟩ | ⟨st, hst, hkind, hmine, hs⟩
        · exact hne hs
        · refine hno ⟨t₀, st, ht, hclosed, hst, hkind, fun he => hne (hs.trans he), ?_, ?_, hf⟩
          · rcases hby.assigned with ⟨hnone, -⟩ | ⟨hask, -⟩
            · exact .inl hnone
            · exact .inr hask
          · rcases hby.assigned with ⟨-, ha⟩ | ⟨hask, hfree | hfree, -⟩
            · exact .inl (ha.symm.trans hmine)
            · exact .inr ⟨hfree, hask⟩
            · exact .inl hfree
      · exact ⟨t, ht, .refl _ t⟩

/-! ## A sequence of updates -/

/-- Every call of the sequence keeps the rules, where it comes. -/
def Obeyed (cfg : Config) : List TaskCall → World → Prop
  | [], _ => True
  | c :: calls, w => c.Keeps cfg w ∧ Obeyed cfg calls (c.run cfg w)

/-- No call of the sequence revives a closed task, where it comes. -/
def LeftClosed (cfg : Config) : List TaskCall → World → Prop
  | [], _ => True
  | c :: calls, w => ¬ c.Revives w ∧ LeftClosed cfg calls (c.run cfg w)

theorem obeyed_iff {cfg : Config} (hp : cfg.persistent = true) (calls : List TaskCall) :
    ∀ w : World, Keyed cfg w → (Obeyed cfg calls w ↔ LeftClosed cfg calls w) := by
  induction calls with
  | nil => exact fun w _ => Iff.rfl
  | cons c calls ih =>
      intro w hk
      have hnext : Keyed cfg (c.run cfg w) := hk.each (call_tasks hp (.updateTask c.room c.id c.req false) w)
      exact and_congr (c.keeps_iff hp hk) (ih _ hnext)

/-- Updates by people who are no operators keep the rules of the house exactly when none of them,
where it comes, has its assignee take or finish a task that is closed. -/
theorem house_rules {cfg : Config} {ok : Server → HubInput → Prop} {tr : List (HubInput × HubAnswer)} {s : Server}
    (hp : cfg.persistent = true) (hrun : Sys.Run (hubMachine cfg) ok tr s) (calls : List TaskCall) :
    Obeyed cfg calls s.world ↔ LeftClosed cfg calls s.world :=
  obeyed_iff hp calls s.world (run_keyed hp hrun)

/-- Bob has a task, and an operator cancels it. -/
def cancelledInputs : List HubInput := [
  .call (sampleEnv 1001 fun _ => false) (.createTask "den" ⟨"sweep", none, some "bob", "ann"⟩),
  .call (sampleEnv 1002 fun _ => false) (.updateTask "den" 1 ⟨some .cancelled, none, "ann"⟩ true)]

def cancelledServer : Server := ((hubMachine sampleConfig).exec cancelledInputs [] sampleServer).2

/-- Bob marks task 1 done. -/
def finished (now : Nat) : TaskCall := ⟨sampleEnv now fun _ => false, "den", 1, ⟨some .done, none, "bob"⟩⟩

theorem house_rules_sample :
    (cancelledServer.world.task? "den" 1).map Task.status = some .cancelled ∧
      (Obeyed sampleConfig [finished 1003] cancelledServer.world ↔
        LeftClosed sampleConfig [finished 1003] cancelledServer.world) := by
  refine ⟨by decide +kernel, ?_⟩
  exact house_rules rfl (sampleServer_run cancelledInputs) _

/-- What an operator cancelled, its assignee marks done. -/
theorem cancelled_gets_done :
    ∃ (tr : List (HubInput × HubAnswer)) (s : Server),
      Sys.Run (hubMachine sampleConfig) (fun _ _ => True) tr s ∧ ¬ Obeyed sampleConfig [finished 1003] s.world := by
  refine ⟨_, _, sampleServer_run cancelledInputs, fun h => ?_⟩
  have hbefore : ((cancelledServer.world.task? "den" 1).map Task.status) = some .cancelled := by decide +kernel
  have hafter : ((((finished 1003).run sampleConfig cancelledServer.world).task? "den" 1).map Task.status) =
      some .done := by decide +kernel
  obtain ⟨t, ht, hs⟩ := Option.map_eq_some_iff.mp hbefore
  obtain ⟨t', ht', hrules⟩ := h.1 "den" 1 t ht
  change _ = some t' at ht'
  replace hafter := (congrArg (Option.map Task.status) ht').symm.trans hafter
  have hkept := hrules.closed (by rw [hs]; rfl)
  rw [hs] at hkept
  rw [Option.map_some, hkept] at hafter
  cases hafter

end Loca
