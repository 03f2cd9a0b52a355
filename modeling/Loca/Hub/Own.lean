/-
# `Loca.Hub.Own` — a room holds what is its own

Every task, goal and wait in a room's memory carries the room's name, in every reachable
state: the server makes them for the room it puts them in, and a start loads them by room.
The transactions write these records under the room they carry, so this is what keeps one
room's updates out of another room's rows.
-/
import Loca.Hub.Boot
import Loca.Hub.Step

namespace Loca

open Check

/-- The tasks, goals and waits of a room are about that room. -/
structure Own (name : String) (r : Room) : Prop where
  tasks : ∀ id t, r.tasks.get id = some t → t.room = name
  goals : ∀ id g, r.goals.get id = some g → g.room = name
  waits : ∀ waiter wait, r.waits.get waiter = some wait → wait.room = name

def Homed (cfg : Config) (w : World) : Prop := ∀ name, Own name (w.roomOr cfg name)

namespace Own

variable {name : String} {r r' : Room}

theorem fresh (name : String) (mode : ChatMode) (settings : RoomSettings) (rev : Nat) :
    Own name (.fresh mode settings rev) := by
  constructor <;> intro _ _ h <;> cases h

theorem of_eq (h : Own name r) (ht : r'.tasks = r.tasks) (hg : r'.goals = r.goals)
    (hw : r'.waits = r.waits) : Own name r' :=
  ⟨fun id t hid => h.tasks id t (ht ▸ hid), fun id g hid => h.goals id g (hg ▸ hid),
    fun n w hn => h.waits n w (hw ▸ hn)⟩

theorem put_task (h : Own name r) {t : Task} (ht : t.room = name) (hs : r'.tasks = r.tasks.put t.id t)
    (hg : r'.goals = r.goals) (hw : r'.waits = r.waits) : Own name r' := by
  refine ⟨fun id t' hid => ?_, fun id g hid => h.goals id g (hg ▸ hid),
    fun n w hn => h.waits n w (hw ▸ hn)⟩
  rw [hs, Assoc.get_put] at hid
  split at hid
  · exact Option.some.inj hid ▸ ht
  · exact h.tasks id t' hid

theorem put_goal (h : Own name r) {g : Goal} (hg : g.room = name) (ht : r'.tasks = r.tasks)
    (hs : r'.goals = r.goals.put g.id g) (hw : r'.waits = r.waits) : Own name r' := by
  refine ⟨fun id t hid => h.tasks id t (ht ▸ hid), fun id g' hid => ?_,
    fun n w hn => h.waits n w (hw ▸ hn)⟩
  rw [hs, Assoc.get_put] at hid
  split at hid
  · exact Option.some.inj hid ▸ hg
  · exact h.goals id g' hid

theorem put_wait (h : Own name r) {wait : WaitState} {waiter : String} (hwait : wait.room = name)
    (ht : r'.tasks = r.tasks) (hg : r'.goals = r.goals) (hs : r'.waits = r.waits.put waiter wait) :
    Own name r' := by
  refine ⟨fun id t hid => h.tasks id t (ht ▸ hid), fun id g hid => h.goals id g (hg ▸ hid),
    fun n w hn => ?_⟩
  rw [hs, Assoc.get_put] at hn
  split at hn
  · exact Option.some.inj hn ▸ hwait
  · exact h.waits n w hn

end Own

/-! ## The records an operation makes -/

theorem UpdateTask.plan_room {req : UpdateTask} {isOperator : Bool} {now generation : Nat} {t t' : Task}
    {progressed : Bool} (h : req.plan isOperator now generation t = .ok (t', progressed)) :
    t'.room = t.room ∧ t'.id = t.id := by
  simp only [UpdateTask.plan, bind_ok] at h
  obtain ⟨⟨t₁, reassigned⟩, h₁, ⟨t₂, moved⟩, h₂, h⟩ := h
  have hassign : t₁.room = t.room ∧ t₁.id = t.id := by
    unfold UpdateTask.assign at h₁
    split at h₁
    · cases h₁; exact ⟨rfl, rfl⟩
    · simp only [bind_ok, require_ok, pure_ok, Prod.mk.injEq, exists_const] at h₁
      obtain ⟨-, rfl, -⟩ := h₁
      exact ⟨rfl, rfl⟩
  have hmove : t₂.room = t₁.room ∧ t₂.id = t₁.id := by
    unfold UpdateTask.move at h₂
    split at h₂
    · cases h₂; exact ⟨rfl, rfl⟩
    · simp only [bind_ok, require_ok, pure_ok, Prod.mk.injEq, exists_const] at h₂
      obtain ⟨-, rfl, -⟩ := h₂
      exact ⟨rfl, rfl⟩
  split at h
  · cases h
    exact ⟨hmove.1.trans hassign.1, hmove.2.trans hassign.2⟩
  · cases h
    exact ⟨hmove.1.trans hassign.1, hmove.2.trans hassign.2⟩

theorem linkedGoal_spec {generation : Nat} {t : Task} {r : Room} {g : Goal}
    (h : linkedGoal generation t r = some g) :
    ∃ id g₀, r.goals.get id = some g₀ ∧ g.room = g₀.room ∧ g.id = g₀.id ∧ g₀.status = .active := by
  simp only [linkedGoal, Option.map_eq_some_iff] at h
  obtain ⟨g₀, hfind, rfl⟩ := h
  obtain ⟨id, hid⟩ := Assoc.mem_values.mp (List.mem_of_find?_eq_some hfind)
  have hst := List.find?_some hfind
  simp only [Bool.and_eq_true, decide_eq_true_eq] at hst
  exact ⟨id, g₀, hid, rfl, rfl, hst.1⟩

theorem Goal.settle_room (r : Room) (now : Nat) (g : Goal) :
    (g.settle r now).room = g.room ∧ (g.settle r now).id = g.id := by
  unfold Goal.settle
  split <;> exact ⟨rfl, rfl⟩

theorem CreateGoal.plan_room {req : CreateGoal} {room : String} {now : Nat} {r : Room} {g : Goal}
    (h : req.plan room now r = .ok g) : g.room = room ∧ g.id = r.nextGoalId := by
  simp only [CreateGoal.plan, bind_ok, require_ok, pure_ok, exists_const] at h
  obtain ⟨-, -, ids, -, rfl⟩ := h
  exact Goal.settle_room r now _

theorem UpdateGoal.plan_room {req : UpdateGoal} {now generation : Nat} {r : Room} {g g' : Goal}
    {progressed : Bool} (h : req.plan now generation r g = .ok (g', progressed)) :
    g'.room = g.room ∧ g'.id = g.id := by
  simp only [UpdateGoal.plan, bind_ok, require_ok, exists_const] at h
  obtain ⟨ids, -, g₁, h₁, -, h⟩ := h
  have hstatus : g₁.room = g.room ∧ g₁.id = g.id := by
    unfold UpdateGoal.restatus at h₁
    split at h₁
    · cases h₁; exact ⟨rfl, rfl⟩
    · simp only [bind_ok, require_ok, pure_ok, exists_const] at h₁
      obtain ⟨-, rfl⟩ := h₁
      exact ⟨rfl, rfl⟩
  have hsettle := Goal.settle_room r now g₁
  split at h
  · cases h
    exact ⟨hsettle.1.trans hstatus.1, hsettle.2.trans hstatus.2⟩
  · cases h
    exact ⟨hsettle.1.trans hstatus.1, hsettle.2.trans hstatus.2⟩

/-- A wake renews an existing wait of the room. -/
theorem draft_wake {cfg : Config} {env : Env} {q : PostRequest} {attachments : List Attachment}
    {author : Option String} {r : Room} {hub : Hub} {wait : WaitState} {wake : CareSignal}
    (h : (q.draft cfg env attachments author r hub).wake = some (wait, wake)) :
    ∃ m g, waitWake env q.room m g r = some (wait, wake) := by
  unfold PostRequest.draft at h
  dsimp only at h
  rw [Option.ite_none_right_eq_some] at h
  exact ⟨_, _, h.2⟩

theorem waitWake_eq {env : Env} {room : String} {m : Message} {g : Nat} {r : Room}
    {wait : WaitState} {wake : CareSignal} (h : waitWake env room m g r = some (wait, wake)) :
    wait.room = room ∧ wake = wakeSignal env room m wait.waiter wait.since := by
  simp only [waitWake, Option.bind_eq_bind, Option.bind_eq_some_iff, Option.pure_def,
    Option.some.injEq, Prod.mk.injEq] at h
  obtain ⟨target, -, -, -, existing, -, -, -, rfl, rfl⟩ := h
  exact ⟨rfl, rfl⟩

/-! ## Every step keeps it -/

namespace Homed

variable {cfg : Config} {w w' : World} {room : String} {r : Room} {db : Db}

theorem stays (h : Homed cfg w) (hs : Stays cfg w w') : Homed cfg w' := by
  intro name
  rw [hs.rooms]
  exact h name

theorem edits (h : Homed cfg w) (he : Edits cfg room r db w w') (ho : Own room r) : Homed cfg w' := by
  intro name
  rw [he.rooms, Function.update_apply]
  split
  · next hn => exact hn ▸ ho
  · exact h name

/-- An edit that changes none of the three. -/
theorem edits_same (h : Homed cfg w) (he : Edits cfg room r db w w')
    (ht : r.tasks = (w.roomOr cfg room).tasks) (hg : r.goals = (w.roomOr cfg room).goals)
    (hw : r.waits = (w.roomOr cfg room).waits) : Homed cfg w' :=
  h.edits he ((h room).of_eq ht hg hw)

theorem reseats (h : Homed cfg w) (hr : Reseats cfg room w w') : Homed cfg w' := by
  obtain ⟨members, muted, banned, db, -, he⟩ := hr
  exact h.edits_same he rfl rfl rfl

end Homed

theorem Filed.own {room : String} {r r' : Room} {db db' : Db} {signals : List CareSignal}
    (h : Filed room r db signals r' db') (ho : Own room r) : Own room r' := by
  cases h with
  | marked _ => exact ho.of_eq rfl rfl rfl
  | waited hw _ _ =>
      have hroom := ho.waits _ _ hw
      refine ho.put_wait ?_ rfl rfl rfl
      exact hroom
  | everyone _ _ => exact ho.of_eq rfl rfl rfl
  | noticed _ _ => exact ho

section Steps

variable {cfg : Config} {env : Env} (hp : cfg.persistent = true)
include hp

theorem sweepRoom_homed (acc : World × List (String × CareSignal)) (room : String)
    (h : Homed cfg acc.1) : Homed cfg (sweepRoom cfg env acc room).1 := by
  rcases sweepRoom_spec hp acc room with hs | ⟨r', db, signals, -, -, hf, -, he⟩
  · rw [hs]; exact h
  · exact h.edits he.edits (hf.own (h room))

omit hp in
theorem publishCareSignal_homed (w : World) (p : String × CareSignal) (h : Homed cfg w) :
    Homed cfg (publishCareSignal cfg env w p) := by
  rcases @publishCareSignal_spec cfg env w p with ⟨hs, -⟩ | he
  · exact h.stays hs
  · exact h.edits_same he rfl rfl rfl

theorem tickCare_homed (w : World) (h : Homed cfg w) : Homed cfg (tickCare cfg env w) := by
  have hsweep := Sys.foldl_rel (R := fun a b : World × List (String × CareSignal) =>
    Homed cfg a.1 → Homed cfg b.1) (fun _ h => h) (fun _ _ _ h₁ h₂ h => h₂ (h₁ h))
    (fun acc room => @sweepRoom_homed cfg env hp acc room)
    (Assoc.inOrder env.order w.hub.rooms.keys) (w, []) h
  exact Sys.foldl_rel (R := fun a b => Homed cfg a → Homed cfg b) (fun _ h => h)
    (fun _ _ _ h₁ h₂ h => h₂ (h₁ h)) (fun w p => @publishCareSignal_homed cfg env w p) _ _ hsweep

theorem expireLiveRoom_homed (clock : Nat) (w : World) (name : String) (h : Homed cfg w) :
    Homed cfg (expireLiveRoom cfg env clock w name) := by
  rcases @expireLiveRoom_spec cfg env hp clock name w with hs | ⟨s, db, -, -, -, he⟩
  · exact h.stays hs
  · exact h.edits_same he rfl rfl rfl

theorem updateTask_homed {w : World} (room : String) (id : Nat) (req : UpdateTask) (isOperator : Bool)
    (h : Homed cfg w) : Homed cfg (updateTask cfg env room id req isOperator w).2 := by
  rcases @updateTask_spec cfg env hp room id req isOperator w with
    hs | ⟨t, t', p, goal, ht, hplan, hgoal, he⟩
  · exact h.stays hs
  · refine h.edits he ?_
    have hroom : t'.room = room := (UpdateTask.plan_room hplan).1.trans ((h room).tasks id t ht)
    obtain ⟨marks, atts, hput⟩ := putTask_eq room t' p (w.roomOr cfg room)
    have htask : Own room ((w.roomOr cfg room).putTask room t' p) :=
      (h room).put_task hroom (by rw [hput]) (by rw [hput]) (by rw [hput])
    cases hg : goal with
    | none => exact htask
    | some g =>
        rw [hg] at hgoal
        split at hgoal
        · obtain ⟨gid, g₀, hg₀, hgr, -, -⟩ := linkedGoal_spec hgoal.symm
          obtain ⟨marks', atts', hput'⟩ := putGoal_eq room g true
            ((w.roomOr cfg room).putTask room t' p)
          show Own room (((w.roomOr cfg room).putTask room t' p).putGoal room g true)
          exact htask.put_goal (hgr.trans ((h room).goals gid g₀ hg₀)) (by rw [hput']) (by rw [hput'])
            (by rw [hput'])
        · cases hgoal

/-- Every call keeps each room's records its own. -/
theorem call_homed (c : HubCall) (w : World) (h : Homed cfg w) : Homed cfg (c.run cfg env w).2 := by
  cases c with
  | createTask room req =>
      rcases @createTask_spec cfg env hp room req w with hs | ⟨t, ht, he⟩
      · exact h.stays hs
      · exact h.edits he ((h room).put_task (t := t) (by rw [ht]; rfl) rfl rfl rfl)
  | updateTask room id req isOperator => exact updateTask_homed hp room id req isOperator h
  | createGoal room req =>
      rcases @createGoal_spec cfg env hp room req w with hs | ⟨g, hg, he⟩
      · exact h.stays hs
      · exact h.edits he ((h room).put_goal (CreateGoal.plan_room hg).1 rfl rfl rfl)
  | updateGoal room id req =>
      rcases @updateGoal_spec cfg env hp room id req w with hs | ⟨g, g', p, hg, hplan, he⟩
      · exact h.stays hs
      · obtain ⟨marks, atts, hput⟩ := putGoal_eq room g' p (w.roomOr cfg room)
        have hroom := (UpdateGoal.plan_room hplan).1.trans ((h room).goals id g hg)
        exact h.edits he ((h room).put_goal hroom (by rw [hput]) (by rw [hput]) (by rw [hput]))
  | setWait room req =>
      rcases @setWait_spec cfg env hp room req w with hs | ⟨wait, hw, -, he⟩
      · exact h.stays hs
      · obtain ⟨marks, atts, hput⟩ := putWait_eq room wait (w.roomOr cfg room)
        exact h.edits he ((h room).put_wait hw (by rw [hput]) (by rw [hput]) (by rw [hput]))
  | clearWait room waiter =>
      rcases @clearWait_spec cfg env hp room waiter w with hs | he
      · exact h.stays hs
      · obtain ⟨marks, atts, hdrop⟩ := dropWait_eq room waiter env.now (w.roomOr cfg room)
        refine h.edits he ⟨?_, ?_, ?_⟩
        · rw [hdrop]; exact (h room).tasks
        · rw [hdrop]; exact (h room).goals
        · intro n wait hn
          rw [hdrop, Assoc.get_del] at hn
          split at hn
          · cases hn
          · exact (h room).waits n wait hn
  | setLead room lead actor =>
      rcases @setLead_spec cfg env hp room lead actor w with hs | ⟨m, s, db, -, -, -, -, -, he⟩
      · exact h.stays hs
      · exact h.edits_same he rfl rfl rfl
  | announceJoinRequest name kind =>
      obtain ⟨m, db, -, -, -, he⟩ := @announceJoinRequest_spec cfg env hp name kind w
      exact h.edits_same he rfl rfl rfl
  | setMode room mode clock =>
      rcases @setMode_spec cfg env hp room mode clock w with hs | ⟨db, -, -, he⟩
      · exact h.stays hs
      · exact h.edits_same he rfl rfl rfl
  | setSettings room req clock =>
      rcases @setSettings_spec cfg env hp room req clock w with hs | ⟨db, -, -, he⟩
      · exact h.stays hs
      · exact h.edits_same he rfl rfl rfl
  | expireLive clock =>
      exact Sys.foldl_rel (R := fun a b => Homed cfg a → Homed cfg b) (fun _ h => h)
        (fun _ _ _ h₁ h₂ h => h₂ (h₁ h)) (fun w n => @expireLiveRoom_homed cfg env hp clock w n) _ w h
  | createNote room req =>
      rcases @createNote_spec cfg env hp room req w with hs | ⟨note, -, -, he⟩
      · exact h.stays hs
      · exact h.edits_same he rfl rfl rfl
  | updateNote room key req isOperator =>
      rcases @updateNote_spec cfg env hp room key req isOperator w with hs | ⟨n, n', db, -, -, -, he⟩
      · exact h.stays hs
      · exact h.edits_same he rfl rfl rfl
  | deleteNote room key =>
      rcases @deleteNote_spec cfg env hp room key w with hs | he
      · exact h.stays hs
      · exact h.edits_same he rfl rfl rfl
  | appendJournal room entryBy byType text =>
      rcases @appendJournal_spec cfg env hp room entryBy byType text w with hs | ⟨e, db, -, -, -, he⟩
      · exact h.stays hs
      · exact h.edits_same he rfl rfl rfl
  | createAttention room req =>
      rcases @createAttention_spec cfg env hp room req w with hs | ⟨s, o, ps, db, a, -, -, -, -, he⟩
      · exact h.stays hs
      · exact h.edits_same he rfl rfl rfl
  | claimAttention room id actor =>
      rcases @claimAttention_spec cfg env hp room id actor w with hs | ⟨a, -, -, -, he⟩
      · exact h.stays hs
      · exact h.edits_same he rfl rfl rfl
  | resolveAttention room id actor principal isOperator =>
      rcases @resolveAttention_spec cfg env hp room id actor principal isOperator w with
        hs | ⟨a, -, -, -, he⟩
      · exact h.stays hs
      · exact h.edits_same he rfl rfl rfl
  | ackCare signalId owner principal =>
      rcases @ackCare_spec cfg env hp signalId owner principal w with
        hs | ⟨db, -, hr, -⟩ | ⟨name, id, a, -, he⟩
      · exact h.stays hs
      · intro name
        exact (congrFun hr name) ▸ h name
      · exact h.edits_same he rfl rfl rfl
  | tickCare => exact tickCare_homed hp w h
  | createLoca room actor clock =>
      rcases @createLoca_spec cfg env hp room actor clock w with hs | ⟨db, -, -, -, hr, -⟩
      · exact h.stays hs
      · intro name
        exact (congrFun hr name) ▸ h name
  | deleteRoom room =>
      rcases @deleteRoom_spec cfg env hp room w with hs | ⟨-, -, he⟩
      · exact h.stays hs
      · exact h.edits he (.fresh room _ _ _)
  | subscribe room => exact h.stays (subscribe_spec room w)
  | join room identity name kind session => exact h.reseats (join_spec room identity name kind session w)
  | leave room identity => exact h.reseats (leave_spec room identity w)
  | admitMember name kind admittedBy =>
      exact h.reseats (admitMember_spec hp "" name kind admittedBy w)
  | inviteMemberToRoom member room issuedBy =>
      exact h.reseats (inviteMemberToRoom_spec hp member room issuedBy w)
  | revokeDavet token => exact h.reseats (revokeDavet_spec hp "" token w)
  | revokeMember token => exact h.reseats (revokeMember_spec hp "" token w)
  | moderate room action name => exact h.reseats (moderate_spec hp room action name w)
  | outside db => exact h

theorem postLocked_homed (q : PostRequest) (attachments : List Attachment) (w : World)
    (h : Homed cfg w) : Homed cfg (postLocked cfg env q attachments w).2 := by
  rcases @postLocked_spec cfg env hp q attachments w with ⟨m, -, hl⟩ | ⟨e, times, -, he⟩ |
    ⟨author, r, d, db, hr, hd, -, -, -, -, he⟩
  · rw [hl]
    exact h.stays (.enter cfg q.room w)
  · exact h.edits_same he rfl rfl rfl
  · refine h.edits he ?_
    obtain ⟨times, hexp⟩ := expireStamps_eq q env.now (w.roomOr cfg q.room)
    have hown : Own q.room r := by
      rw [hr, hexp]
      exact (h q.room).of_eq rfl rfl rfl
    obtain ⟨marks, atts, hm⟩ := @mirror_eq env q db d r
    obtain ⟨ht, hg, hw⟩ := @heard_eq env q d r
    rw [hm]
    cases hwake : d.wake with
    | none => exact hown.of_eq ht hg (by rw [hw, PostDraft.waits, hwake])
    | some p =>
        have hroom : p.1.room = q.room := by
          rw [hd] at hwake
          obtain ⟨m, g, hww⟩ := draft_wake hwake
          exact (waitWake_eq hww).1
        exact hown.put_wait hroom ht hg (by rw [hw, PostDraft.waits, hwake])

end Steps

/-! ## Starting -/

theorem Homed.setRoom {cfg : Config} {w : World} {name : String} {r : Room} (h : Homed cfg w)
    (ho : Own name r) : Homed cfg (w.setRoom name r) :=
  have he : Edits cfg name r w.db w (w.setRoom name r) := ⟨World.roomOr_setRoom cfg name r w, rfl⟩
  h.edits he ho

theorem loadRoom_own (name : String) (db : Db) : Own name (loadRoom name db) := by
  refine ⟨fun id t h => ?_, fun id g h => ?_, fun n wait h => ?_⟩
  · have hmem : t ∈ loadTasks name db := Assoc.mem_of_get_ofRows h
    simpa using (List.mem_filter.mp (Table.mem_orderBy.mp hmem)).2
  · have hmem : g ∈ loadGoals name db := Assoc.mem_of_get_ofRows h
    simpa using (List.mem_filter.mp (Table.mem_orderBy.mp hmem)).2
  · have hmem : wait ∈ loadWaits name db := Assoc.mem_of_get_ofRows h
    simpa using (List.mem_filter.mp (Table.mem_orderBy.mp hmem)).2

theorem build_homed (cfg : Config) (env : Env) (clock : Nat) (db : Db) :
    Homed cfg (build cfg env clock db) := by
  refine build_rule (P := Homed cfg) ?_ ?_ ?_ ?_ ?_
  · intro db₀ _ name
    unfold World.roomOr
    rw [room?_restored]
    split
    · exact loadRoom_own name db₀
    · exact .fresh name _ _ _
  · intro w room h
    rcases migrateOperator_spec env clock w room with ⟨hr, -⟩ | ⟨r, s, db₁, db₂, hr, -, -, -, he⟩
    · intro name
      rw [World.roomOr_of_rooms hr]
      exact h name
    · rw [he]
      have hr' : (w.setDb db₂).roomOr cfg room = r := World.roomOr_of_some hr
      exact Homed.setRoom (fun n => h n) ((h room).of_eq (by rw [← hr']; rfl) (by rw [← hr']; rfl)
        (by rw [← hr']; rfl))
  · intro w w' h hr _ name
    rw [World.roomOr_of_rooms hr]
    exact h name
  · intro w h
    refine h.setRoom ?_
    split
    · exact (h _).of_eq rfl rfl rfl
    · exact h _
  · intro w b _ h
    refine h.setRoom ?_
    split
    · exact (h _).of_eq rfl rfl rfl
    · split
      · exact (h _).of_eq rfl rfl rfl
      · exact h _

theorem step_homed {cfg : Config} (hp : cfg.persistent = true) {s : Server} (i : HubInput)
    (h : Homed cfg s.world) : Homed cfg (s.step cfg i).2.world := by
  rcases serverStep_world cfg s i with hs | ⟨env, c, -, hs⟩ |
    ⟨env, k, q, attachments, posts, -, -, hs⟩ | ⟨env, clock, -, hs⟩
  · rw [hs]; exact h
  · rw [hs]; exact call_homed hp c s.world h
  · rw [hs]; exact postLocked_homed hp q attachments s.world h
  · rw [hs]; exact build_homed cfg env clock s.world.db

end Loca
