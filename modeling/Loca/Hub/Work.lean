/-
# `Loca.Hub.Work` — tasks, goals and waits

`hub/work/task.rs`, `goal.rs`, `policy.rs` and `wait.rs`.  Each update is split into what
it decides from the room (a plan, pure) and what it then writes: one transaction, and the
room's memory after it.  Creating a task, a goal or a wait also creates the room.
-/
import Loca.Base.Check
import Loca.Hub.Room

namespace Loca

open Check

/-- A write transaction of an operation. -/
def World.store (cfg : Config) (env : Env) (call : StoreCall) (tx : Db → Except StoreError Db)
    (w : World) : Except StoreError World :=
  (commit cfg.persistent (env.fails call) tx w.db).map w.setDb

def World.setGeneration (generation : Nat) (w : World) : World :=
  { w with hub := { w.hub with conditionGeneration := generation } }

/-! ## Tasks -/

inductive TaskError | notFound | forbidden | storage
  deriving DecidableEq, Repr

/-- The task as it is declared. -/
def CreateTask.task (req : CreateTask) (room : String) (id now : Nat) : Task :=
  ⟨id, room, req.title, req.taskBy, req.fromMessage, req.assignedTo, .opened, now, now, none⟩

def createTask (cfg : Config) (env : Env) (room : String) (req : CreateTask) (w : World) :
    Except StoreError Task × World :=
  let r := w.roomOr cfg room
  let t := req.task room r.nextTaskId env.now
  match w.store cfg env .write (fun db => .ok (writeTask t db)) with
  | .error e => (.error e, w)
  | .ok w => (.ok t, (w.setRoom room
      { r with nextTaskId := t.id + 1, tasks := r.tasks.put t.id t }).send room [.task t])

/-- A new assignee, and whether that is one. -/
def UpdateTask.assign (req : UpdateTask) (isOperator : Bool) (t : Task) :
    Except TaskError (Task × Bool) :=
  match req.assignedTo with
  | none => pure (t, false)
  | some assignee => do
    -- an unassigned task may be claimed for oneself; anything else needs the operator
    require (isOperator = true ∨
      ((t.assignedTo = none ∨ t.assignedTo = some req.taskBy) ∧ assignee = req.taskBy)) .forbidden
    pure ({ t with assignedTo := some assignee }, t.assignedTo ≠ some assignee)

/-- A new status, and whether that is one. -/
def UpdateTask.move (req : UpdateTask) (isOperator : Bool) (now : Nat) (t : Task) :
    Except TaskError (Task × Bool) :=
  match req.status with
  | none => pure (t, false)
  | some st => do
    require (isOperator = true ∨
      ((st = .taken ∨ st = .done) ∧ t.assignedTo = some req.taskBy)) .forbidden
    let closedAt := if t.status ≠ st then
        if st = .done ∨ st = .cancelled then some now else none
      else t.closedAt
    pure ({ t with status := st, closedAt := closedAt }, t.status ≠ st)

/-- The task after the update, and whether it is progress. -/
def UpdateTask.plan (req : UpdateTask) (isOperator : Bool) (now generation : Nat) (t : Task) :
    Except TaskError (Task × Bool) := do
  let (t₁, reassigned) ← req.assign isOperator t
  let (t₂, moved) ← req.move isOperator now t₁
  if reassigned || moved then
    pure ({ t₂ with progressAt := World.nextGeneration now t.progressAt generation }, true)
  else pure (t₂, false)

/-- `linked_goal_after_task_progress`: the active goal that lists the task moves with it. -/
def linkedGoal (generation : Nat) (t : Task) (r : Room) : Option Goal :=
  (r.goals.values.find? fun g => g.status = .active && g.taskIds.contains t.id).map fun g =>
    let done := g.taskIds.all fun id =>
      if id = t.id then t.status = .done
      else (r.tasks.get id).any fun linked => linked.status = .done
    { g with
      progressAt := World.nextGeneration t.progressAt g.progressAt generation
      status := if done then .achieved else g.status
      closedAt := if done then some t.progressAt else g.closedAt }

/-- The room after a task update. -/
def Room.putTask (room : String) (t : Task) (progressed : Bool) (r : Room) : Room :=
  let r := if progressed then r.resetCare room (taskKey t.id) t.progressAt else r
  { r with tasks := r.tasks.put t.id t }

/-- The room after a goal moved. -/
def Room.putGoal (room : String) (g : Goal) (progressed : Bool) (r : Room) : Room :=
  let r := if progressed then r.resetCare room (goalKey g.id) g.progressAt else r
  { r with goals := r.goals.put g.id g }

def careFrames (room key : String) (progressed : Bool) (now : Nat) (r : Room) : List ServerFrame :=
  if progressed then r.resolvedFrames (conditionHit room key) now else []

def updateTask (cfg : Config) (env : Env) (room : String) (id : Nat) (req : UpdateTask)
    (isOperator : Bool) (w : World) : Except TaskError Task × World :=
  match w.room? room with
  | none => (.error .notFound, w)
  | some r =>
    match r.tasks.get id with
    | none => (.error .notFound, w)
    | some t =>
      match req.plan isOperator env.now w.hub.conditionGeneration t with
      | .error e => (.error e, w)
      | .ok (t, progressed) =>
        let goal := if progressed then linkedGoal t.progressAt t r else none
        let w := w.setGeneration (match goal with
          | some g => g.progressAt
          | none => if progressed then t.progressAt else w.hub.conditionGeneration)
        match w.store cfg env .write fun db => .ok (upsertTaskWithGoalProgress t goal progressed db) with
        | .error _ => (.error .storage, w)
        | .ok w =>
          let r₁ := r.putTask room t progressed
          let frames := careFrames room (taskKey t.id) progressed t.progressAt r ++ [.task t]
          match goal with
          | none => (.ok t, (w.setRoom room r₁).send room frames)
          | some g => (.ok t, (w.setRoom room (r₁.putGoal room g true)).send room
              (frames ++ careFrames room (goalKey g.id) true g.progressAt r₁ ++ [.goal g]))

/-! ## Goals -/

inductive GoalError | notFound | activeExists | leadRequired | invalidTasks | storage
  deriving DecidableEq, Repr

/-- `normalize_goal_tasks`: a manual goal lists no tasks, any other lists known ones. -/
def normalizeGoalTasks (r : Room) (completion : GoalCompletion) (ids : List Nat) :
    Except GoalError (List Nat) := do
  let ids := (Table.orderBy id ids).dedup
  if completion = .manual then pure []
  else do
    require (ids ≠ [] ∧ ∀ id ∈ ids, (r.tasks.get id).isSome) .invalidTasks
    pure ids

def allGoalTasksDone (r : Room) (g : Goal) : Bool :=
  g.completion = .allTasks && !g.taskIds.isEmpty && g.taskIds.all fun id =>
    (r.tasks.get id).any fun t => t.status = .done

/-- Close an active goal whose tasks are all done. -/
def Goal.settle (r : Room) (now : Nat) (g : Goal) : Goal :=
  if g.status = .active && allGoalTasksDone r g then
    { g with status := .achieved, closedAt := some now }
  else g

def CreateGoal.plan (req : CreateGoal) (room : String) (now : Nat) (r : Room) :
    Except GoalError Goal := do
  require (r.settings.lead ≠ none) .leadRequired
  require (r.goals.values.all (fun g => g.status ≠ .active) = true) .activeExists
  let ids ← normalizeGoalTasks r req.completion req.taskIds
  pure (Goal.settle r now ⟨r.nextGoalId, room, req.outcome, req.checkpoint, req.staleAfterSecs,
    req.goalBy, req.completion, ids, .active, now, now, none⟩)

def createGoal (cfg : Config) (env : Env) (room : String) (req : CreateGoal) (w : World) :
    Except GoalError Goal × World :=
  let r := w.roomOr cfg room
  let w := w.setRoom room r
  match req.plan room env.now r with
  | .error e => (.error e, w)
  | .ok g =>
    match w.store cfg env .write fun db => .ok (writeGoal g db) with
    | .error _ => (.error .storage, w)
    | .ok w => (.ok g, (w.setRoom room
        { r with nextGoalId := r.nextGoalId + 1, goals := r.goals.put g.id g }).send room [.goal g])

/-- The fields whose change counts as progress. -/
def Goal.substance (g : Goal) :
    String × Option String × Option Nat × GoalCompletion × List Nat × GoalStatus :=
  (g.outcome, g.checkpoint, g.staleAfterSecs, g.completion, g.taskIds, g.status)

/-- The requested fields, before any check. -/
def UpdateGoal.edit (req : UpdateGoal) (g : Goal) : Goal :=
  { g with
    outcome := req.outcome.getD g.outcome
    checkpoint := match req.checkpoint with
      | some c => if c = "" then none else some c
      | none => g.checkpoint
    staleAfterSecs := req.staleAfterSecs.getD g.staleAfterSecs
    completion := req.completion.getD g.completion
    taskIds := req.taskIds.getD g.taskIds }

/-- A requested status; a second active goal is refused. -/
def UpdateGoal.restatus (req : UpdateGoal) (r : Room) (now : Nat) (g : Goal) :
    Except GoalError Goal :=
  match req.status with
  | none => pure g
  | some status => do
    require (status = .active →
      r.goals.values.all (fun other => other.id = g.id || other.status ≠ .active) = true) .activeExists
    let closedAt := if g.status ≠ status then
        if status = .active then none else some now
      else g.closedAt
    pure { g with status := status, closedAt := closedAt }

/-- The goal after the update, and whether it is progress. -/
def UpdateGoal.plan (req : UpdateGoal) (now generation : Nat) (r : Room) (g : Goal) :
    Except GoalError (Goal × Bool) := do
  let edited := req.edit g
  let ids ← normalizeGoalTasks r edited.completion edited.taskIds
  let g₁ ← req.restatus r now { edited with taskIds := ids }
  require (g₁.status = .active → r.settings.lead ≠ none) .leadRequired
  let g₂ := g₁.settle r now
  if g₂.substance ≠ g.substance then
    pure ({ g₂ with progressAt := World.nextGeneration now g.progressAt generation }, true)
  else pure (g₂, false)

def updateGoal (cfg : Config) (env : Env) (room : String) (id : Nat) (req : UpdateGoal) (w : World) :
    Except GoalError Goal × World :=
  match w.room? room with
  | none => (.error .notFound, w)
  | some r =>
    match r.goals.get id with
    | none => (.error .notFound, w)
    | some g =>
      match req.plan env.now w.hub.conditionGeneration r g with
      | .error e => (.error e, w)
      | .ok (g, progressed) =>
        let w := if progressed then w.setGeneration g.progressAt else w
        match w.store cfg env .write fun db => .ok (upsertGoalWithCareReset g progressed db) with
        | .error _ => (.error .storage, w)
        | .ok w => (.ok g, (w.setRoom room (r.putGoal room g progressed)).send room
            (careFrames room (goalKey g.id) progressed g.progressAt r ++ [.goal g]))

/-! ## Waits -/

inductive WaitError | selfWait | notFound | storage
  deriving DecidableEq, Repr

/-- The room after a wait is declared. -/
def Room.putWait (room : String) (wait : WaitState) (r : Room) : Room :=
  let r := Room.resolveWaitAttentions room wait.waiter wait.since
    { r with careMarks := r.careMarks.del (waitKey wait.waiter) }
  { r with waits := r.waits.put wait.waiter wait }

def setWait (cfg : Config) (env : Env) (room : String) (req : SetWait) (w : World) :
    Except WaitError WaitState × World :=
  if req.waitBy = req.waitingFor then (.error .selfWait, w)
  else
    let r := w.roomOr cfg room
    let w := w.setRoom room r
    let existing := r.waits.get req.waitBy
    match existing.filter fun e => e.waitingFor = req.waitingFor && e.reason = req.reason with
    | some e => (.ok e, w)
    | none =>
      let since := World.nextGeneration env.now ((existing.map WaitState.since).getD 0)
        w.hub.conditionGeneration
      let wait : WaitState := ⟨room, req.waitBy, req.waitingFor, req.reason, since, none, 0⟩
      let w := w.setGeneration since
      match w.store cfg env .write fun db => .ok (replaceWaitWithCare wait since db) with
      | .error _ => (.error .storage, w)
      | .ok w => (.ok wait, (w.setRoom room (r.putWait room wait)).send room
          (r.resolvedFrames (waitHit room wait.waiter) since ++ [.wait wait.waiter (some wait)]))

/-- The room after a wait ended.  The mark of the wait itself stays in memory. -/
def Room.dropWait (room waiter : String) (now : Nat) (r : Room) : Room :=
  Room.resolveWaitAttentions room waiter now { r with waits := r.waits.del waiter }

def clearWait (cfg : Config) (env : Env) (room waiter : String) (w : World) :
    Except WaitError Unit × World :=
  match w.room? room with
  | none => (.error .notFound, w)
  | some r =>
    match r.waits.get waiter with
    | none => (.error .notFound, w)
    | some _ =>
      match w.store cfg env .write fun db => .ok (deleteWait room waiter env.now db) with
      | .error _ => (.error .storage, w)
      | .ok w => (.ok (), (w.setRoom room (r.dropWait room waiter env.now)).send room
          (r.resolvedFrames (waitHit room waiter) env.now ++ [.wait waiter none]))

end Loca
