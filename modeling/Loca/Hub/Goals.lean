/-
# `Loca.Hub.Goals` — what goals and tasks owe each other

A room has at most one active goal, an active goal has a lead to keep it, and one that waits for
tasks lists known ones that are not all done; a record has an end exactly when it is closed.
`Consistent` is that invariant for one room.  `Progress` is the law of one step: `progress_at`
grows with every change of assignee, status or substance, and with nothing else.

Nothing else in the code keeps these together: a task update closes the goal that lists it, a
goal update may change its tasks, its rule and its status at once, and the lead is guarded where
it is cleared.  So each call has one lemma here, and `goals_and_tasks_consistent` is the run.
-/
import Loca.Hub.Retry
import Loca.Hub.Synced

namespace Loca

open Check

/-! ## The invariant -/

/-- Taken, done and cancelled are not open; done and cancelled are closed. -/
def TaskStatus.isClosed : TaskStatus → Bool
  | .opened | .taken => false
  | .done | .cancelled => true

def GoalStatus.isClosed : GoalStatus → Bool
  | .active => false
  | .achieved | .cancelled => true

/-- The goals and the tasks of one room. -/
structure Consistent (r : Room) : Prop where
  single : ∀ i j g g', r.goals.get i = some g → r.goals.get j = some g' →
    g.status = .active → g'.status = .active → i = j
  led : ∀ i g, r.goals.get i = some g → g.status = .active → r.settings.lead ≠ none
  /-- An active goal that waits for its tasks lists known ones, and one of them is not done. -/
  unfinished : ∀ i g, r.goals.get i = some g → g.status = .active → g.completion = .allTasks →
    (∀ k ∈ g.taskIds, ∃ t, r.tasks.get k = some t) ∧
      ∃ k ∈ g.taskIds, ∃ t, r.tasks.get k = some t ∧ t.status ≠ .done
  goalEnds : ∀ i g, r.goals.get i = some g → g.closedAt.isSome = g.status.isClosed
  taskEnds : ∀ i t, r.tasks.get i = some t → t.closedAt.isSome = t.status.isClosed

/-- Each record stands under its own number, below the next one. -/
structure Enumerated (r : Room) : Prop where
  tasks : ∀ i t, r.tasks.get i = some t → t.id = i ∧ i < r.nextTaskId
  goals : ∀ i g, r.goals.get i = some g → g.id = i ∧ i < r.nextGoalId

/-! ## Progress -/

/-- What counts as progress of a task: another assignee, another status. -/
def Task.Moved (t t' : Task) : Prop := t'.assignedTo ≠ t.assignedTo ∨ t'.status ≠ t.status

/-- What counts as progress of a goal: another substance, or progress of a task that an active
goal lists. -/
def Goal.Moved (r r' : Room) (g g' : Goal) : Prop :=
  g'.substance ≠ g.substance ∨ g.status = .active ∧
    ∃ k ∈ g.taskIds, ∃ t t', r.tasks.get k = some t ∧ r'.tasks.get k = some t' ∧ t.Moved t'

/-- From one state of a room to the next: no record goes, and `progress_at` grows exactly with
progress. -/
structure Progress (r r' : Room) : Prop where
  tasks : ∀ i t, r.tasks.get i = some t → ∃ t', r'.tasks.get i = some t' ∧
    (t.Moved t' → t.progressAt < t'.progressAt) ∧ (¬ t.Moved t' → t'.progressAt = t.progressAt)
  goals : ∀ i g, r.goals.get i = some g → ∃ g', r'.goals.get i = some g' ∧
    (g.Moved r r' g' → g.progressAt < g'.progressAt) ∧ (¬ g.Moved r r' g' → g'.progressAt = g.progressAt)

theorem Progress.refl (r : Room) : Progress r r := by
  have hstill : ∀ t : Task, ¬ t.Moved t := fun t h => h.elim (fun h => h rfl) fun h => h rfl
  refine ⟨fun i t ht => ⟨t, ht, fun h => absurd h (hstill t), fun _ => rfl⟩, fun i g hg =>
    ⟨g, hg, fun h => ?_, fun _ => rfl⟩⟩
  rcases h with h | ⟨-, k, -, t, t', ht, ht', h⟩
  · exact absurd rfl h
  · obtain rfl := Option.some.inj (ht.symm.trans ht')
    exact absurd h (hstill t)

/-- Rooms with the same tasks and goals. -/
theorem Progress.of_eq {r r' : Room} (ht : r'.tasks = r.tasks) (hg : r'.goals = r.goals) : Progress r r' := by
  have h := Progress.refl r
  refine ⟨fun i t hi => ht ▸ h.tasks i t hi, fun i g hi => ?_⟩
  obtain ⟨g', hg', hm, hn⟩ := h.goals i g hi
  unfold Goal.Moved at hm hn ⊢
  rw [hg, ht]
  exact ⟨g', hg', hm, hn⟩

theorem Consistent.of_eq {r r' : Room} (h : Consistent r) (ht : r'.tasks = r.tasks) (hg : r'.goals = r.goals)
    (hl : ∀ i g, r.goals.get i = some g → g.status = .active → r'.settings.lead ≠ none) : Consistent r' := by
  refine ⟨?_, ?_, ?_, ?_, ?_⟩
  · rw [hg]; exact h.single
  · rw [hg]; exact hl
  · rw [hg, ht]; exact h.unfinished
  · rw [hg]; exact h.goalEnds
  · rw [ht]; exact h.taskEnds

theorem Enumerated.of_eq {r r' : Room} (h : Enumerated r) (ht : r'.tasks = r.tasks) (hg : r'.goals = r.goals)
    (hnt : r'.nextTaskId = r.nextTaskId) (hng : r'.nextGoalId = r.nextGoalId) : Enumerated r' := by
  refine ⟨?_, ?_⟩
  · rw [ht, hnt]; exact h.tasks
  · rw [hg, hng]; exact h.goals

/-! ## Plans -/

theorem nextGeneration_gt (now previous generation : Nat) :
    previous < World.nextGeneration now previous generation := by
  unfold World.nextGeneration
  omega

/-- What an update makes of a task. -/
structure TaskPlanned (t t' : Task) (progressed : Bool) : Prop where
  moved : progressed = true ↔ t.Moved t'
  later : progressed = true → t.progressAt < t'.progressAt
  same : progressed = false → t'.progressAt = t.progressAt
  ends : t.closedAt.isSome = t.status.isClosed → t'.closedAt.isSome = t'.status.isClosed

theorem UpdateTask.assign_ok {req : UpdateTask} {isOperator : Bool} {t t' : Task} {b : Bool}
    (h : req.assign isOperator t = .ok (t', b)) :
    t' = { t with assignedTo := t'.assignedTo } ∧ (b = true ↔ t'.assignedTo ≠ t.assignedTo) := by
  unfold UpdateTask.assign at h
  split at h
  · cases h
    exact ⟨rfl, by simp⟩
  · simp only [bind_ok, require_ok, pure_ok, Prod.mk.injEq, exists_const] at h
    obtain ⟨-, rfl, rfl⟩ := h
    exact ⟨rfl, decide_eq_true_iff.trans ne_comm⟩

theorem UpdateTask.move_ok {req : UpdateTask} {isOperator : Bool} {now : Nat} {t t' : Task} {b : Bool}
    (h : req.move isOperator now t = .ok (t', b)) :
    t' = { t with status := t'.status, closedAt := t'.closedAt } ∧ (b = true ↔ t'.status ≠ t.status) ∧
      (t.closedAt.isSome = t.status.isClosed → t'.closedAt.isSome = t'.status.isClosed) := by
  unfold UpdateTask.move at h
  split at h
  · cases h
    exact ⟨rfl, by simp, fun hc => hc⟩
  · next st hst =>
    simp only [bind_ok, require_ok, pure_ok, Prod.mk.injEq, exists_const] at h
    obtain ⟨-, rfl, rfl⟩ := h
    refine ⟨rfl, decide_eq_true_iff.trans ne_comm, fun hc => ?_⟩
    by_cases hsame : t.status = st
    · simp only [hsame, ne_eq, not_true_eq_false, if_false]
      rw [hc, hsame]
    · simp only [ne_eq, hsame, not_false_eq_true, if_true]
      cases st <;> rfl

theorem UpdateTask.plan_ok {req : UpdateTask} {isOperator : Bool} {now generation : Nat} {t t' : Task}
    {progressed : Bool} (h : req.plan isOperator now generation t = .ok (t', progressed)) :
    TaskPlanned t t' progressed := by
  simp only [UpdateTask.plan, bind_ok] at h
  obtain ⟨⟨t₁, reassigned⟩, h₁, ⟨t₂, moved⟩, h₂, h⟩ := h
  obtain ⟨he₁, hb₁⟩ := UpdateTask.assign_ok h₁
  obtain ⟨he₂, hb₂, hends⟩ := UpdateTask.move_ok h₂
  have hassigned : t₂.assignedTo = t₁.assignedTo := by rw [he₂]
  have hstatus : t₁.status = t.status := by rw [he₁]
  have hclosed : t₁.closedAt = t.closedAt := by rw [he₁]
  have hprogress : t₂.progressAt = t.progressAt := by rw [he₂, he₁]
  have hends' : t.closedAt.isSome = t.status.isClosed → t₂.closedAt.isSome = t₂.status.isClosed := by
    rw [← hclosed, ← hstatus]
    exact hends
  have hmoved : (reassigned || moved) = true ↔ t.Moved t₂ := by
    rw [Bool.or_eq_true, hb₁, hb₂, Task.Moved, hassigned, hstatus]
  split at h
  · next hany =>
    cases h
    exact ⟨⟨fun _ => hmoved.mp hany, fun _ => rfl⟩, fun _ => nextGeneration_gt _ _ _, fun h => (by cases h), hends'⟩
  · next hnone =>
    cases h
    exact ⟨⟨fun h => (by cases h), fun h => absurd (hmoved.mpr h) hnone⟩, fun h => (by cases h), fun _ => hprogress,
      hends'⟩

/-- A list of task ids as an update keeps it. -/
theorem normalizeGoalTasks_ok {r : Room} {completion : GoalCompletion} {ids ids' : List Nat}
    (h : normalizeGoalTasks r completion ids = .ok ids') :
    completion = .allTasks → ids' ≠ [] ∧ ∀ k ∈ ids', ∃ t, r.tasks.get k = some t := by
  rintro rfl
  unfold normalizeGoalTasks at h
  simp only [reduceCtorEq, if_false, bind_ok, require_ok, pure_ok, exists_const] at h
  obtain ⟨⟨hne, hall⟩, rfl⟩ := h
  exact ⟨hne, fun k hk => Option.isSome_iff_exists.mp (hall k hk)⟩

/-- What is left active lists a task that is not done. -/
theorem Goal.settle_spec (r : Room) (now : Nat) (g : Goal) :
    (g.settle r now).completion = g.completion ∧ (g.settle r now).taskIds = g.taskIds ∧
    (g.settle r now).progressAt = g.progressAt ∧
    ((g.settle r now).status = .active → g.status = .active ∧ (g.completion = .allTasks → g.taskIds ≠ [] →
      ∃ k ∈ g.taskIds, ¬ (r.tasks.get k).any (fun t => t.status = .done) = true)) ∧
    (g.closedAt.isSome = g.status.isClosed →
      (g.settle r now).closedAt.isSome = (g.settle r now).status.isClosed) := by
  unfold Goal.settle
  split
  · exact ⟨rfl, rfl, rfl, fun h => (by cases h), fun _ => rfl⟩
  · next hopen =>
    refine ⟨rfl, rfl, rfl, fun hactive => ⟨hactive, fun hc hne => ?_⟩, fun h => h⟩
    by_contra hall
    push Not at hall
    refine hopen ?_
    rw [Bool.and_eq_true, decide_eq_true_eq]
    refine ⟨hactive, ?_⟩
    unfold allGoalTasksDone
    rw [Bool.and_eq_true, Bool.and_eq_true, List.all_eq_true, decide_eq_true_eq]
    exact ⟨⟨hc, by simpa using hne⟩, hall⟩

/-- What a room says of an active goal of its own. -/
structure Kept (r : Room) (g : Goal) : Prop where
  led : g.status = .active → r.settings.lead ≠ none
  unfinished : g.status = .active → g.completion = .allTasks →
    (∀ k ∈ g.taskIds, ∃ t, r.tasks.get k = some t) ∧
      ∃ k ∈ g.taskIds, ∃ t, r.tasks.get k = some t ∧ t.status ≠ .done
  ends : g.closedAt.isSome = g.status.isClosed

/-- A settled goal with known tasks is kept. -/
theorem Goal.settle_kept {r : Room} {now : Nat} {g : Goal}
    (hled : g.status = .active → r.settings.lead ≠ none)
    (hids : g.completion = .allTasks → g.taskIds ≠ [] ∧ ∀ k ∈ g.taskIds, ∃ t, r.tasks.get k = some t)
    (hends : g.closedAt.isSome = g.status.isClosed) : Kept r (g.settle r now) := by
  obtain ⟨hc, ht, -, hactive, hends'⟩ := Goal.settle_spec r now g
  refine ⟨fun h => hled (hactive h).1, fun h hall => ?_, hends' hends⟩
  rw [hc] at hall
  rw [ht]
  obtain ⟨hne, hknown⟩ := hids hall
  obtain ⟨k, hk, hopen⟩ := (hactive h).2 hall hne
  obtain ⟨t, htask⟩ := hknown k hk
  refine ⟨hknown, k, hk, t, htask, fun hdone => hopen ?_⟩
  rw [htask, Option.any_some, decide_eq_true_eq]
  exact hdone

/-- What is made a goal. -/
theorem CreateGoal.plan_ok {req : CreateGoal} {room : String} {now : Nat} {r : Room} {g : Goal}
    (h : req.plan room now r = .ok g) :
    Kept r g ∧ ∀ i g', r.goals.get i = some g' → g'.status ≠ .active := by
  simp only [CreateGoal.plan, bind_ok, require_ok, pure_ok, exists_const] at h
  obtain ⟨hlead, hfree, ids, hids, rfl⟩ := h
  refine ⟨Goal.settle_kept (fun _ => hlead) (normalizeGoalTasks_ok hids) rfl, fun i g' hg' => ?_⟩
  have hall := List.all_eq_true.mp hfree g' (Assoc.mem_values.mpr ⟨i, hg'⟩)
  exact of_decide_eq_true hall

/-- What an update makes of a goal. -/
structure GoalPlanned (r : Room) (g g' : Goal) (progressed : Bool) : Prop where
  moved : progressed = true ↔ g'.substance ≠ g.substance
  later : progressed = true → g.progressAt < g'.progressAt
  same : progressed = false → g'.progressAt = g.progressAt
  kept : g.closedAt.isSome = g.status.isClosed → Kept r g'
  /-- It was active before, or no other goal is. -/
  alone : g'.status = .active → g.status = .active ∨
    ∀ i other, r.goals.get i = some other → other.status = .active → other.id = g.id

theorem UpdateGoal.restatus_ok {req : UpdateGoal} {r : Room} {now : Nat} {g g' : Goal}
    (h : req.restatus r now g = .ok g') :
    g' = { g with status := g'.status, closedAt := g'.closedAt } ∧
    (g.closedAt.isSome = g.status.isClosed → g'.closedAt.isSome = g'.status.isClosed) ∧
    (g'.status = .active → g.status = .active ∨
      ∀ i other, r.goals.get i = some other → other.status = .active → other.id = g.id) := by
  unfold UpdateGoal.restatus at h
  split at h
  · cases h
    exact ⟨rfl, fun hc => hc, fun ha => .inl ha⟩
  · next status hst =>
    simp only [bind_ok, require_ok, pure_ok, exists_const] at h
    obtain ⟨hfree, rfl⟩ := h
    refine ⟨rfl, fun hc => ?_, fun ha => .inr fun i other hi ho => ?_⟩
    · by_cases hsame : g.status = status
      · simp only [hsame, ne_eq, not_true_eq_false, if_false]
        rw [hc, hsame]
      · simp only [ne_eq, hsame, not_false_eq_true, if_true]
        cases status <;> rfl
    · have hall := List.all_eq_true.mp (hfree ha) other (Assoc.mem_values.mpr ⟨i, hi⟩)
      rw [Bool.or_eq_true, decide_eq_true_eq, decide_eq_true_eq] at hall
      exact hall.resolve_right fun hne => hne ho

theorem UpdateGoal.plan_ok {req : UpdateGoal} {now generation : Nat} {r : Room} {g g' : Goal} {progressed : Bool}
    (h : req.plan now generation r g = .ok (g', progressed)) : GoalPlanned r g g' progressed := by
  simp only [UpdateGoal.plan, bind_ok, require_ok, exists_const] at h
  obtain ⟨ids, hids, g₁, h₁, hlead, h⟩ := h
  obtain ⟨he, hends, halone⟩ := UpdateGoal.restatus_ok h₁
  have hcomp : g₁.completion = (req.edit g).completion := by rw [he]
  have htasks : g₁.taskIds = ids := by rw [he]
  have hprogress : g₁.progressAt = g.progressAt := by rw [he]; rfl
  obtain ⟨-, -, hsettled, hactive, -⟩ := Goal.settle_spec r now g₁
  have hkept : g.closedAt.isSome = g.status.isClosed → Kept r (g₁.settle r now) := by
    intro hc
    refine Goal.settle_kept hlead (fun hall => ?_) (hends hc)
    rw [htasks]
    exact normalizeGoalTasks_ok hids (hcomp ▸ hall)
  split at h
  · next hsub =>
    cases h
    refine ⟨⟨fun _ => hsub, fun _ => rfl⟩, fun _ => nextGeneration_gt _ _ _, fun h => (by cases h), fun hc => ?_,
      fun ha => halone (hactive ha).1⟩
    exact ⟨(hkept hc).led, (hkept hc).unfinished, (hkept hc).ends⟩
  · next hsub =>
    cases h
    exact ⟨⟨fun h => (by cases h), fun h => absurd h hsub⟩, fun h => (by cases h),
      fun _ => hsettled.trans hprogress, hkept, fun ha => halone (hactive ha).1⟩

/-- What a task's progress makes of the goal that lists it. -/
structure GoalLinked (r : Room) (t : Task) (g g' : Goal) : Prop where
  active : g.status = .active
  lists : t.id ∈ g.taskIds
  id : g'.id = g.id
  taskIds : g'.taskIds = g.taskIds
  completion : g'.completion = g.completion
  later : g.progressAt < g'.progressAt
  ends : g.closedAt.isSome = g.status.isClosed → g'.closedAt.isSome = g'.status.isClosed
  unfinished : g'.status = .active → ∃ k ∈ g.taskIds,
    (k = t.id ∧ t.status ≠ .done) ∨ (k ≠ t.id ∧ ¬ (r.tasks.get k).any (fun t => t.status = .done) = true)

theorem linkedGoal_some {generation : Nat} {t : Task} {r : Room} {g' : Goal}
    (h : linkedGoal generation t r = some g') : ∃ i g, r.goals.get i = some g ∧ GoalLinked r t g g' := by
  simp only [linkedGoal, Option.map_eq_some_iff] at h
  obtain ⟨g, hfind, rfl⟩ := h
  obtain ⟨i, hi⟩ := Assoc.mem_values.mp (List.mem_of_find?_eq_some hfind)
  have hst := List.find?_some hfind
  simp only [Bool.and_eq_true, decide_eq_true_eq] at hst
  obtain ⟨hactive, hlists⟩ := hst
  refine ⟨i, g, hi, hactive, by simpa using hlists, rfl, rfl, rfl, nextGeneration_gt _ _ _, fun hc => ?_, fun ha => ?_⟩
  · dsimp only
    split
    · rfl
    · exact hc
  · dsimp only at ha
    split at ha
    · cases ha
    · next hopen =>
      rw [List.all_eq_true] at hopen
      push Not at hopen
      obtain ⟨k, hk, hopen⟩ := hopen
      refine ⟨k, hk, ?_⟩
      split at hopen
      · next heq => exact .inl ⟨heq, by simpa using hopen⟩
      · next hne => exact .inr ⟨hne, hopen⟩

theorem linkedGoal_none {generation : Nat} {t : Task} {r : Room} (h : linkedGoal generation t r = none) {i : Nat}
    {g : Goal} (hi : r.goals.get i = some g) (ha : g.status = .active) : t.id ∉ g.taskIds := by
  intro hmem
  rw [linkedGoal, Option.map_eq_none_iff] at h
  refine List.find?_eq_none.mp h g (Assoc.mem_values.mpr ⟨i, hi⟩) ?_
  simp [ha, hmem]

/-! ## One call -/

/-- The tasks and goals of a room before and after a call. -/
structure Step (r r' : Room) : Prop where
  numbered : Enumerated r'
  consistent : Consistent r'
  progress : Progress r r'

theorem Task.still (t : Task) : ¬ t.Moved t := fun h => h.elim (fun h => h rfl) fun h => h rfl

/-- A new task. -/
theorem step_createTask {r r' : Room} (hn : Enumerated r) (hc : Consistent r) {t : Task} (hid : t.id = r.nextTaskId)
    (hends : t.closedAt.isSome = t.status.isClosed) (ht : r'.tasks = r.tasks.put t.id t)
    (hnt : r'.nextTaskId = r.nextTaskId + 1) (hg : r'.goals = r.goals) (hng : r'.nextGoalId = r.nextGoalId)
    (hl : r'.settings = r.settings) : Step r r' := by
  -- no task is written over
  have hold : ∀ k x, r.tasks.get k = some x → r'.tasks.get k = some x := by
    intro k x hk
    have := (hn.tasks k x hk).2
    rw [ht, Assoc.get_put_ne (by omega), hk]
  refine ⟨⟨fun k x hk => ?_, ?_⟩, ⟨?_, ?_, fun k g hk ha hall => ?_, ?_, fun k x hk => ?_⟩, ⟨fun k x hk => ?_,
    fun k g hk => ?_⟩⟩
  · rw [ht, Assoc.get_put] at hk
    split at hk
    · next hkey =>
      obtain rfl := Option.some.inj hk
      exact ⟨hkey.symm, by omega⟩
    · have := hn.tasks k x hk
      exact ⟨this.1, by omega⟩
  · rw [hg, hng]; exact hn.goals
  · rw [hg]; exact hc.single
  · rw [hg, hl]; exact hc.led
  · rw [hg] at hk
    obtain ⟨hknown, j, hj, x, hx, hopen⟩ := hc.unfinished k g hk ha hall
    refine ⟨fun i hi => ?_, j, hj, x, hold j x hx, hopen⟩
    obtain ⟨y, hy⟩ := hknown i hi
    exact ⟨y, hold i y hy⟩
  · rw [hg]; exact hc.goalEnds
  · rw [ht, Assoc.get_put] at hk
    split at hk
    · obtain rfl := Option.some.inj hk
      exact hends
    · exact hc.taskEnds k x hk
  · exact ⟨x, hold k x hk, fun h => absurd h x.still, fun _ => rfl⟩
  · refine ⟨g, hg ▸ hk, fun h => ?_, fun _ => rfl⟩
    rcases h with h | ⟨-, j, -, x, x', hx, hx', h⟩
    · exact absurd rfl h
    · obtain rfl := Option.some.inj ((hold j x hx).symm.trans hx')
      exact absurd h x.still

/-- A new goal, with no other one active. -/
theorem step_createGoal {r r' : Room} (hn : Enumerated r) (hc : Consistent r) {g : Goal} (hid : g.id = r.nextGoalId)
    (hk : Kept r g) (hfree : ∀ i g', r.goals.get i = some g' → g'.status ≠ .active)
    (hg : r'.goals = r.goals.put g.id g) (hng : r'.nextGoalId = r.nextGoalId + 1) (ht : r'.tasks = r.tasks)
    (hnt : r'.nextTaskId = r.nextTaskId) (hl : r'.settings = r.settings) : Step r r' := by
  -- nothing is active but the new one
  have hnew : ∀ i x, r'.goals.get i = some x → x.status = .active → i = g.id ∧ x = g := by
    intro i x hi ha
    rw [hg, Assoc.get_put] at hi
    split at hi
    · next hkey => exact ⟨hkey, (Option.some.inj hi).symm⟩
    · exact absurd ha (hfree i x hi)
  refine ⟨⟨?_, fun i x hi => ?_⟩, ⟨fun i j x y hi hj hx hy => ?_, fun i x hi ha => ?_, fun i x hi ha hall => ?_,
    fun i x hi => ?_, ?_⟩, ⟨fun i t hi => ?_, fun i x hi => ?_⟩⟩
  · rw [ht, hnt]; exact hn.tasks
  · rw [hg, Assoc.get_put] at hi
    split at hi
    · next hkey =>
      obtain rfl := Option.some.inj hi
      exact ⟨hkey.symm, by omega⟩
    · have := hn.goals i x hi
      exact ⟨this.1, by omega⟩
  · exact (hnew i x hi hx).1.trans (hnew j y hj hy).1.symm
  · obtain ⟨-, rfl⟩ := hnew i x hi ha
    rw [hl]
    exact hk.led ha
  · obtain ⟨-, rfl⟩ := hnew i x hi ha
    rw [ht]
    exact hk.unfinished ha hall
  · rw [hg, Assoc.get_put] at hi
    split at hi
    · obtain rfl := Option.some.inj hi
      exact hk.ends
    · exact hc.goalEnds i x hi
  · rw [ht]; exact hc.taskEnds
  · exact ⟨t, ht ▸ hi, fun h => absurd h t.still, fun _ => rfl⟩
  · have hlt := (hn.goals i x hi).2
    refine ⟨x, by rw [hg, Assoc.get_put_ne (by omega), hi], fun h => ?_, fun _ => rfl⟩
    rcases h with h | ⟨ha, -⟩
    · exact absurd rfl h
    · exact absurd ha (hfree i x hi)

/-- An updated goal. -/
theorem step_updateGoal {r r' : Room} (hn : Enumerated r) (hc : Consistent r) {i : Nat} {g g' : Goal} {progressed : Bool}
    (hi : r.goals.get i = some g) (hp : GoalPlanned r g g' progressed) (hid : g'.id = g.id)
    (hg : r'.goals = r.goals.put g'.id g') (hng : r'.nextGoalId = r.nextGoalId) (ht : r'.tasks = r.tasks)
    (hnt : r'.nextTaskId = r.nextTaskId) (hl : r'.settings = r.settings) : Step r r' := by
  obtain ⟨hgid, hlt⟩ := hn.goals i g hi
  have hkey : g'.id = i := hid.trans hgid
  have hk := hp.kept (hc.goalEnds i g hi)
  have hget : ∀ j x, r'.goals.get j = some x → (j = i ∧ x = g') ∨ (j ≠ i ∧ r.goals.get j = some x) := by
    intro j x hj
    rw [hg, hkey, Assoc.get_put] at hj
    split at hj
    · next hji => exact .inl ⟨hji, (Option.some.inj hj).symm⟩
    · next hji => exact .inr ⟨hji, hj⟩
  -- another active goal and this one
  have halone : ∀ j x, j ≠ i → r.goals.get j = some x → x.status = .active → g'.status ≠ .active := by
    intro j x hji hj hx ha
    rcases hp.alone ha with hold | hfree
    · exact hji (hc.single j i x g hj hi hx hold)
    · exact hji ((hn.goals j x hj).1.symm.trans ((hfree j x hj hx).trans hgid))
  refine ⟨⟨?_, fun j x hj => ?_⟩, ⟨fun j k x y hj hk' hx hy => ?_, fun j x hj ha => ?_, fun j x hj ha hall => ?_,
    fun j x hj => ?_, ?_⟩, ⟨fun j t hj => ⟨t, ht ▸ hj, fun h => absurd h t.still, fun _ => rfl⟩, fun j x hj => ?_⟩⟩
  · rw [ht, hnt]; exact hn.tasks
  · rw [hng]
    rcases hget j x hj with ⟨rfl, rfl⟩ | ⟨-, hj⟩
    · exact ⟨hkey, hlt⟩
    · exact hn.goals j x hj
  · rcases hget j x hj with ⟨rfl, rfl⟩ | ⟨hji, hj⟩ <;> rcases hget k y hk' with ⟨rfl, rfl⟩ | ⟨hki, hk'⟩
    · rfl
    · exact absurd hx (halone k y hki hk' hy)
    · exact absurd hy (halone j x hji hj hx)
    · exact hc.single j k x y hj hk' hx hy
  · rw [hl]
    rcases hget j x hj with ⟨-, rfl⟩ | ⟨-, hj⟩
    · exact hk.led ha
    · exact hc.led j x hj ha
  · rw [ht]
    rcases hget j x hj with ⟨-, rfl⟩ | ⟨-, hj⟩
    · exact hk.unfinished ha hall
    · exact hc.unfinished j x hj ha hall
  · rcases hget j x hj with ⟨-, rfl⟩ | ⟨-, hj⟩
    · exact hk.ends
    · exact hc.goalEnds j x hj
  · rw [ht]; exact hc.taskEnds
  · -- no task moved, so only the substance counts
    have hcounts : ∀ y : Goal, x.Moved r r' y → y.substance ≠ x.substance := by
      rintro y (h | ⟨-, k, -, t, t', hkt, hkt', h⟩)
      · exact h
      · rw [ht] at hkt'
        obtain rfl := Option.some.inj (hkt.symm.trans hkt')
        exact absurd h t.still
    by_cases hji : j = i
    · subst hji
      obtain rfl := Option.some.inj (hi.symm.trans hj)
      refine ⟨g', by rw [hg, hkey, Assoc.get_put_self], fun h => hp.later (hp.moved.mpr (hcounts g' h)), fun h => ?_⟩
      refine hp.same ?_
      by_contra hne
      exact h (.inl (hp.moved.mp (by simpa using hne)))
    · refine ⟨x, by rw [hg, hkey, Assoc.get_put_ne hji, hj], fun h => absurd rfl (hcounts x h), fun _ => rfl⟩

/-- An updated task, and the goal that moves with it. -/
theorem step_updateTask {r r' : Room} (hn : Enumerated r) (hc : Consistent r) {i : Nat} {t t' : Task} {progressed : Bool}
    {goal : Option Goal} (hi : r.tasks.get i = some t) (hp : TaskPlanned t t' progressed) (hid : t'.id = t.id)
    {generation : Nat} (hgoal : goal = if progressed then linkedGoal generation t' r else none)
    (ht : r'.tasks = r.tasks.put t'.id t')
    (hg : r'.goals = goal.elim r.goals fun g => r.goals.put g.id g)
    (hng : r'.nextGoalId = r.nextGoalId) (hnt : r'.nextTaskId = r.nextTaskId) (hl : r'.settings = r.settings) :
    Step r r' := by
  obtain ⟨htid, hlt⟩ := hn.tasks i t hi
  have hkey : t'.id = i := hid.trans htid
  have hself : r'.tasks.get i = some t' := by rw [ht, hkey, Assoc.get_put_self]
  have hother : ∀ j, j ≠ i → r'.tasks.get j = r.tasks.get j := fun j hji => by rw [ht, hkey, Assoc.get_put_ne hji]
  have hknown : ∀ j x, r.tasks.get j = some x → ∃ y, r'.tasks.get j = some y := by
    intro j x hj
    by_cases hji : j = i
    · subst hji; exact ⟨t', hself⟩
    · exact ⟨x, by rw [hother j hji, hj]⟩
  have hmoved : ∀ k x y, r.tasks.get k = some x → r'.tasks.get k = some y → x.Moved y → k = i ∧ progressed = true := by
    intro k x y hx hy h
    by_cases hki : k = i
    · subst hki
      obtain rfl := Option.some.inj (hi.symm.trans hx)
      obtain rfl := Option.some.inj (hself.symm.trans hy)
      exact ⟨rfl, hp.moved.mpr h⟩
    · rw [hother k hki, hx] at hy
      obtain rfl := Option.some.inj hy
      exact absurd h x.still
  have htasks : ∀ k x, r.tasks.get k = some x → ∃ y, r'.tasks.get k = some y ∧
      (x.Moved y → x.progressAt < y.progressAt) ∧ (¬ x.Moved y → y.progressAt = x.progressAt) := by
    intro k x hx
    by_cases hki : k = i
    · subst hki
      obtain rfl := Option.some.inj (hi.symm.trans hx)
      refine ⟨t', hself, fun h => hp.later (hp.moved.mpr h), fun h => hp.same ?_⟩
      by_contra hne
      exact h (hp.moved.mp (by simpa using hne))
    · exact ⟨x, by rw [hother k hki, hx], fun h => absurd h x.still, fun _ => rfl⟩
  have hends : ∀ k x, r'.tasks.get k = some x → x.closedAt.isSome = x.status.isClosed := by
    intro k x hx
    by_cases hki : k = i
    · subst hki
      obtain rfl := Option.some.inj (hself.symm.trans hx)
      exact hp.ends (hc.taskEnds k t hi)
    · exact hc.taskEnds k x (hother k hki ▸ hx)
  have hnum : ∀ k x, r'.tasks.get k = some x → x.id = k ∧ k < r'.nextTaskId := by
    intro k x hx
    rw [hnt]
    by_cases hki : k = i
    · subst hki
      obtain rfl := Option.some.inj (hself.symm.trans hx)
      exact ⟨hkey, hlt⟩
    · exact hn.tasks k x (hother k hki ▸ hx)
  -- an active goal that does not see the task move stays as it was
  have hstays : ∀ j x, r.goals.get j = some x → x.status = .active → (progressed = true → t'.id ∉ x.taskIds) →
      x.completion = .allTasks → (∀ k ∈ x.taskIds, ∃ y, r'.tasks.get k = some y) ∧
        ∃ k ∈ x.taskIds, ∃ y, r'.tasks.get k = some y ∧ y.status ≠ .done := by
    intro j x hj ha hout hall
    obtain ⟨hk, k, hkx, y, hy, hopen⟩ := hc.unfinished j x hj ha hall
    refine ⟨fun k hkx => ?_, k, hkx, ?_⟩
    · obtain ⟨y, hy⟩ := hk k hkx
      exact hknown k y hy
    · obtain ⟨z, hz⟩ := hknown k y hy
      refine ⟨z, hz, fun hdone => ?_⟩
      have hmove : y.Moved z := .inr fun he => hopen (he ▸ hdone)
      obtain ⟨rfl, hpr⟩ := hmoved k y z hy hz hmove
      exact hout hpr (hkey ▸ hkx)
  -- and does not progress
  have hquiet : ∀ j x, r.goals.get j = some x → (x.status = .active → progressed = true → t'.id ∉ x.taskIds) →
      ¬ x.Moved r r' x := by
    rintro j x hj hout (h | ⟨ha, k, hkx, y, z, hy, hz, h⟩)
    · exact absurd rfl h
    · obtain ⟨rfl, hpr⟩ := hmoved k y z hy hz h
      exact hout ha hpr (hkey ▸ hkx)
  cases goal with
  | none =>
      have hout : ∀ j x, r.goals.get j = some x → x.status = .active → progressed = true → t'.id ∉ x.taskIds := by
        rintro j x hj ha rfl
        exact linkedGoal_none hgoal.symm hj ha
      have hgs : r'.goals = r.goals := hg
      refine ⟨⟨hnum, ?_⟩, ⟨?_, ?_, fun j x hj ha hall => ?_, ?_, hends⟩, ⟨htasks, fun j x hj => ?_⟩⟩
      · rw [hgs, hng]; exact hn.goals
      · rw [hgs]; exact hc.single
      · rw [hgs, hl]; exact hc.led
      · rw [hgs] at hj
        exact hstays j x hj ha (hout j x hj ha) hall
      · rw [hgs]; exact hc.goalEnds
      · exact ⟨x, hgs ▸ hj, fun h => absurd h (hquiet j x hj (hout j x hj)), fun _ => rfl⟩
  | some g =>
      have hpr : progressed = true := by
        cases progressed with
        | true => rfl
        | false => cases hgoal
      subst hpr
      obtain ⟨j₀, g₀, hj₀, hlink⟩ := linkedGoal_some hgoal.symm
      obtain ⟨hg₀, hlt₀⟩ := hn.goals j₀ g₀ hj₀
      have hgkey : g.id = j₀ := hlink.id.trans hg₀
      have hgs : r'.goals = r.goals.put j₀ g := by rw [← hgkey]; exact hg
      have hget : ∀ j x, r'.goals.get j = some x → (j = j₀ ∧ x = g) ∨ (j ≠ j₀ ∧ r.goals.get j = some x) := by
        intro j x hj
        rw [hgs, Assoc.get_put] at hj
        split at hj
        · next hjj => exact .inl ⟨hjj, (Option.some.inj hj).symm⟩
        · next hjj => exact .inr ⟨hjj, hj⟩
      -- no other goal is active
      have hfree : ∀ j x, j ≠ j₀ → r.goals.get j = some x → x.status ≠ .active :=
        fun j x hjj hj ha => hjj (hc.single j j₀ x g₀ hj hj₀ ha hlink.active)
      refine ⟨⟨hnum, fun j x hj => ?_⟩, ⟨fun j k x y hj hk hx hy => ?_, fun j x hj ha => ?_,
        fun j x hj ha hall => ?_, fun j x hj => ?_, hends⟩, ⟨htasks, fun j x hj => ?_⟩⟩
      · rw [hng]
        rcases hget j x hj with ⟨rfl, rfl⟩ | ⟨-, hj⟩
        · exact ⟨hgkey, hlt₀⟩
        · exact hn.goals j x hj
      · rcases hget j x hj with ⟨rfl, -⟩ | ⟨hjj, hj⟩
        · rcases hget k y hk with ⟨rfl, -⟩ | ⟨hkk, hk⟩
          · rfl
          · exact absurd hy (hfree k y hkk hk)
        · exact absurd hx (hfree j x hjj hj)
      · rw [hl]
        exact hc.led j₀ g₀ hj₀ hlink.active
      · rcases hget j x hj with ⟨rfl, rfl⟩ | ⟨hjj, hj⟩
        · rw [hlink.taskIds]
          have hold := (hc.unfinished j g₀ hj₀ hlink.active (hlink.completion ▸ hall)).1
          refine ⟨fun k hk => ?_, ?_⟩
          · obtain ⟨y, hy⟩ := hold k hk
            exact hknown k y hy
          · obtain ⟨k, hk, ⟨rfl, hopen⟩ | ⟨hne, hopen⟩⟩ := hlink.unfinished ha
            · exact ⟨t'.id, hk, t', hkey ▸ hself, hopen⟩
            · obtain ⟨y, hy⟩ := hold k hk
              refine ⟨k, hk, y, by rw [hother k (hkey ▸ hne), hy], fun hdone => hopen ?_⟩
              rw [hy, Option.any_some, decide_eq_true_eq]
              exact hdone
        · exact absurd ha (hfree j x hjj hj)
      · rcases hget j x hj with ⟨rfl, rfl⟩ | ⟨-, hj⟩
        · exact hlink.ends (hc.goalEnds j g₀ hj₀)
        · exact hc.goalEnds j x hj
      · by_cases hjj : j = j₀
        · subst hjj
          obtain rfl := Option.some.inj (hj₀.symm.trans hj)
          refine ⟨g, by rw [hgs, Assoc.get_put_self], fun _ => hlink.later, fun h => absurd ?_ h⟩
          exact .inr ⟨hlink.active, t'.id, hlink.lists, t, t', hkey ▸ hi, hkey ▸ hself, hp.moved.mp rfl⟩
        · have hpast := hfree j x hjj hj
          exact ⟨x, by rw [hgs, Assoc.get_put_ne hjj, hj],
            fun h => absurd h (hquiet j x hj fun ha => absurd ha hpast), fun _ => rfl⟩

/-! ## The six calls -/

/-- The operations on tasks, goals, the lead and the settings. -/
def HubCall.isWork : HubCall → Bool
  | .createTask .. | .updateTask .. | .createGoal .. | .updateGoal .. | .setLead .. | .setSettings .. => true
  | _ => false

/-- Only these are called, whatever fails. -/
def workOnly (_ : Server) : HubInput → Prop
  | .call _ c => c.isWork = true
  | .post .. | .advance .. | .restart .. => False

/-- Every room, also one that is only about to be made. -/
structure Orderly (cfg : Config) (w : World) : Prop where
  numbered : ∀ name, Enumerated (w.roomOr cfg name)
  consistent : ∀ name, Consistent (w.roomOr cfg name)

/-- What a call does to one room, it does to the world. -/
theorem Orderly.edits {cfg : Config} {w w' : World} {room : String} {r : Room} {db : Db} (h : Orderly cfg w)
    (he : Edits cfg room r db w w') (hs : Step (w.roomOr cfg room) r) :
    Orderly cfg w' ∧ ∀ name, Progress (w.roomOr cfg name) (w'.roomOr cfg name) := by
  have hroom : ∀ name, w'.roomOr cfg name = if name = room then r else w.roomOr cfg name := by
    intro name
    rw [he.rooms, Function.update_apply]
  refine ⟨⟨fun name => ?_, fun name => ?_⟩, fun name => ?_⟩
  · rw [hroom]
    split
    · exact hs.numbered
    · exact h.numbered name
  · rw [hroom]
    split
    · exact hs.consistent
    · exact h.consistent name
  · rw [hroom]
    split
    · next hn => exact hn ▸ hs.progress
    · exact .refl _

theorem Orderly.stays {cfg : Config} {w w' : World} (h : Orderly cfg w) (hs : Stays cfg w w') :
    Orderly cfg w' ∧ ∀ name, Progress (w.roomOr cfg name) (w'.roomOr cfg name) := by
  refine ⟨⟨?_, ?_⟩, fun name => ?_⟩
  · rw [hs.rooms]; exact h.numbered
  · rw [hs.rooms]; exact h.consistent
  · rw [hs.rooms]; exact .refl _

/-- A room whose tasks and goals are untouched. -/
theorem Step.of_eq {r r' : Room} (hn : Enumerated r) (hc : Consistent r) (ht : r'.tasks = r.tasks)
    (hg : r'.goals = r.goals) (hnt : r'.nextTaskId = r.nextTaskId) (hng : r'.nextGoalId = r.nextGoalId)
    (hl : ∀ i g, r.goals.get i = some g → g.status = .active → r'.settings.lead ≠ none) : Step r r' :=
  ⟨hn.of_eq ht hg hnt hng, hc.of_eq ht hg hl, .of_eq ht hg⟩

theorem work_step {cfg : Config} {env : Env} (hp : cfg.persistent = true) {w : World} (h : Orderly cfg w)
    {c : HubCall} (hc : c.isWork = true) : Orderly cfg (c.run cfg env w).2 ∧
      ∀ name, Progress (w.roomOr cfg name) ((c.run cfg env w).2.roomOr cfg name) := by
  cases c with
  | createTask room req =>
      rcases @createTask_spec cfg env hp room req w with hs | ⟨t, rfl, he⟩
      · exact h.stays hs
      · exact h.edits he (step_createTask (h.numbered room) (h.consistent room) rfl rfl rfl rfl rfl rfl rfl)
  | updateTask room id req isOperator =>
      rcases @updateTask_spec cfg env hp room id req isOperator w with hs | ⟨t, t', progressed, goal, hi, hplan, hgoal, he⟩
      · exact h.stays hs
      · refine h.edits he ?_
        obtain ⟨marks, attentions, hput⟩ := putTask_eq room t' progressed (w.roomOr cfg room)
        have hstep := @step_updateTask (w.roomOr cfg room)
        have hn := h.numbered room
        have hc := h.consistent room
        have hplanned := UpdateTask.plan_ok hplan
        have hid := (UpdateTask.plan_room hplan).2
        cases goal with
        | none =>
            dsimp only
            rw [hput]
            exact hstep hn hc hi hplanned hid hgoal rfl rfl rfl rfl rfl
        | some g =>
            obtain ⟨marks', attentions', hputg⟩ := putGoal_eq room g true ((w.roomOr cfg room).putTask room t' progressed)
            dsimp only
            rw [hputg, hput]
            exact hstep hn hc hi hplanned hid hgoal rfl rfl rfl rfl rfl
  | createGoal room req =>
      rcases @createGoal_spec cfg env hp room req w with hs | ⟨g, hplan, he⟩
      · exact h.stays hs
      · obtain ⟨hk, hfree⟩ := CreateGoal.plan_ok hplan
        exact h.edits he (step_createGoal (h.numbered room) (h.consistent room) (CreateGoal.plan_room hplan).2 hk hfree
          rfl rfl rfl rfl rfl)
  | updateGoal room id req =>
      rcases @updateGoal_spec cfg env hp room id req w with hs | ⟨g, g', progressed, hi, hplan, he⟩
      · exact h.stays hs
      · refine h.edits he ?_
        obtain ⟨marks, attentions, hput⟩ := putGoal_eq room g' progressed (w.roomOr cfg room)
        rw [hput]
        exact step_updateGoal (h.numbered room) (h.consistent room) hi (UpdateGoal.plan_ok hplan)
          (UpdateGoal.plan_room hplan).2 rfl rfl rfl rfl rfl
  | setLead room lead actor =>
      by_cases hgoal : lead = none ∧ (w.roomOr cfg room).goals.values.any (fun g => g.status = .active) = true
      · refine h.stays ?_
        show Stays cfg w (setLead cfg env room lead actor w).2
        unfold setLead
        dsimp only
        rw [if_pos hgoal]
        split <;> exact .refl cfg w
      · rcases @setLead_spec cfg env hp room lead actor w with hs | ⟨m, s, db, -, -, -, rfl, -, he⟩
        · exact h.stays hs
        · refine h.edits he (Step.of_eq (h.numbered room) (h.consistent room) rfl rfl rfl rfl fun i g hi ha hnone => ?_)
          -- an active goal does not lose its lead
          refine hgoal ⟨hnone, List.any_eq_true.mpr ⟨g, Assoc.mem_values.mpr ⟨i, hi⟩, ?_⟩⟩
          simpa using ha
  | setSettings room req clock =>
      rcases @setSettings_spec cfg env hp room req clock w with hs | ⟨db, -, -, he⟩
      · exact h.stays hs
      · exact h.edits he (Step.of_eq (h.numbered room) (h.consistent room) rfl rfl rfl rfl
          fun i g hi ha => (h.consistent room).led i g hi ha)
  | _ => cases hc

/-! ## The start -/

/-- A server that was never used. -/
structure Unused (cfg : Config) (w : World) : Prop where
  tasks : ∀ name, (w.roomOr cfg name).tasks = ∅
  goals : ∀ name, (w.roomOr cfg name).goals = ∅
  rows : ∀ row ∈ w.db.rooms, row.sealedAt = none

theorem Unused.set {cfg : Config} {w : World} (h : Unused cfg w) {name : String} {r : Room}
    (ht : r.tasks = (w.roomOr cfg name).tasks) (hg : r.goals = (w.roomOr cfg name).goals) :
    Unused cfg (w.setRoom name r) := by
  refine ⟨fun n => ?_, fun n => ?_, h.rows⟩
  · rw [World.roomOr_setRoom, Function.update_apply]
    split
    · rw [ht, h.tasks]
    · exact h.tasks n
  · rw [World.roomOr_setRoom, Function.update_apply]
    split
    · rw [hg, h.goals]
    · exact h.goals n

/-- A row of a room that is written is not sealed. -/
theorem unsealed_roomRow {room : String} {mode : ChatMode} {settings : RoomSettings} {rows : List RoomRow}
    (h : ∀ row ∈ rows, row.sealedAt = none) :
    ∀ row ∈ Table.insertOrUpdate RoomRow.room ⟨room, mode, settings, none⟩
      (fun r => { r with mode := mode, settings := settings }) rows, row.sealedAt = none := by
  intro row hrow
  rcases Table.insertOrUpdate_cases RoomRow.room ⟨room, mode, settings, none⟩
    (fun r => { r with mode := mode, settings := settings }) rows with ⟨-, hc⟩ | ⟨-, hc⟩
  · rw [hc, Table.mem_updateWhere] at hrow
    obtain ⟨old, hold, rfl⟩ := hrow
    split <;> exact h old hold
  · rw [hc] at hrow
    rcases List.mem_append.mp hrow with hrow | hrow
    · exact h row hrow
    · rw [List.mem_singleton.mp hrow]

theorem build_unused (cfg : Config) (env : Env) (clock : Nat) : Unused cfg (build cfg env clock {}) := by
  refine build_rule (P := Unused cfg) ?_ ?_ ?_ ?_ ?_
  · intro db₀ hc
    have hempty : ∀ name, (((restored db₀).room? name).getD (Room.fresh .free cfg.defaultSettings 1)).tasks = ∅ ∧
        (((restored db₀).room? name).getD (Room.fresh .free cfg.defaultSettings 1)).goals = ∅ := by
      intro name
      rw [room?_restored]
      split
      · have ht : loadTasks name db₀ = [] := by rw [loadTasks, hc.tasks]; rfl
        have hg : loadGoals name db₀ = [] := by rw [loadGoals, hc.goals]; rfl
        show Assoc.ofRows Task.id (loadTasks name db₀) = ∅ ∧ Assoc.ofRows Goal.id (loadGoals name db₀) = ∅
        rw [ht, hg]
        exact ⟨rfl, rfl⟩
      · exact ⟨rfl, rfl⟩
    refine ⟨fun name => (hempty name).1, fun name => (hempty name).2, fun row hrow => ?_⟩
    have hrow' : row ∈ db₀.rooms := hrow
    rw [hc.rooms] at hrow'
    cases hrow'
  · intro w room h
    rcases migrateOperator_spec env clock w room with ⟨hr, hc⟩ | ⟨r, settings, db₁, db, hr, rfl, hc, hs, he⟩
    · refine ⟨fun name => ?_, fun name => ?_, fun row hrow => h.rows row (hc.rooms ▸ hrow)⟩
      · rw [World.roomOr_of_rooms hr]; exact h.tasks name
      · rw [World.roomOr_of_rooms hr]; exact h.goals name
    · rw [he]
      have hdb : Unused cfg (w.setDb db) := by
        refine ⟨h.tasks, h.goals, ?_⟩
        obtain ⟨-, rfl⟩ := saveRoom_ok hs
        exact unsealed_roomRow fun row hrow => h.rows row (hc.rooms ▸ hrow)
      have hroom : (w.setDb db).roomOr cfg room = r := World.roomOr_of_some hr
      exact hdb.set (by rw [hroom]) (by rw [hroom])
  · intro w w' h hr hc
    refine ⟨fun name => ?_, fun name => ?_, fun row hrow => h.rows row (hc.rooms ▸ hrow)⟩
    · rw [World.roomOr_of_rooms hr]; exact h.tasks name
    · rw [World.roomOr_of_rooms hr]; exact h.goals name
  · intro w h
    unfold ensureHome
    dsimp only
    refine h.set ?_ ?_ <;> split <;> rfl
  · intro w b _ h
    unfold loadBan
    dsimp only
    refine h.set ?_ ?_
    · split
      · rfl
      · split <;> rfl
    · split
      · rfl
      · split <;> rfl

/-- Nothing is there that could be in disorder. -/
theorem Unused.orderly {cfg : Config} {w : World} (h : Unused cfg w) : Orderly cfg w := by
  refine ⟨fun name => ⟨fun i t hi => ?_, fun i g hi => ?_⟩, fun name => ⟨fun i j g g' hi => ?_, fun i g hi => ?_,
    fun i g hi => ?_, fun i g hi => ?_, fun i t hi => ?_⟩⟩
  · rw [h.tasks] at hi; cases hi
  · rw [h.goals] at hi; cases hi
  · rw [h.goals] at hi; cases hi
  · rw [h.goals] at hi; cases hi
  · rw [h.goals] at hi; cases hi
  · rw [h.goals] at hi; cases hi
  · rw [h.tasks] at hi; cases hi

/-! ## The rows -/

/-- No work seals a room. -/
theorem work_unsealed {cfg : Config} {env : Env} (hp : cfg.persistent = true) {w : World}
    (h : ∀ row ∈ w.db.rooms, row.sealedAt = none) {c : HubCall} (hc : c.isWork = true) :
    ∀ row ∈ (c.run cfg env w).2.db.rooms, row.sealedAt = none := by
  have hstay : ∀ w', Stays cfg w w' → ∀ row ∈ w'.db.rooms, row.sealedAt = none := fun w' hs => by rw [hs.db]; exact h
  have hrooms : ∀ w' room r db, Edits cfg room r db w w' → db.rooms = w.db.rooms →
      ∀ row ∈ w'.db.rooms, row.sealedAt = none := fun w' room r db he hdb => by rw [he.db, hdb]; exact h
  cases c with
  | createTask room req =>
      rcases @createTask_spec cfg env hp room req w with hs | ⟨t, -, he⟩
      · exact hstay _ hs
      · exact hrooms _ _ _ _ he rfl
  | updateTask room id req isOperator =>
      rcases @updateTask_spec cfg env hp room id req isOperator w with hs | ⟨t, t', progressed, goal, -, -, -, he⟩
      · exact hstay _ hs
      · exact hrooms _ _ _ _ he (by rw [upsertTaskWithGoalProgress_eq]; rfl)
  | createGoal room req =>
      rcases @createGoal_spec cfg env hp room req w with hs | ⟨g, -, he⟩
      · exact hstay _ hs
      · exact hrooms _ _ _ _ he rfl
  | updateGoal room id req =>
      rcases @updateGoal_spec cfg env hp room id req w with hs | ⟨g, g', progressed, -, -, he⟩
      · exact hstay _ hs
      · exact hrooms _ _ _ _ he (by rw [upsertGoalWithCareReset_eq]; rfl)
  | setLead room lead actor =>
      rcases @setLead_spec cfg env hp room lead actor w with hs | ⟨m, s, db, -, -, -, -, hdb, he⟩
      · exact hstay _ hs
      · rw [show (HubCall.run cfg env w (.setLead room lead actor)).2.db = db from he.db]
        simp only [insertMessageWithRoom, bind_ok] at hdb
        obtain ⟨db₁, h₁, h₂⟩ := hdb
        obtain ⟨-, -, refs, pending, rfl⟩ := writeMessage_ok h₂
        obtain ⟨-, rfl⟩ := writeRoomState_ok.mp h₁
        exact unsealed_roomRow h
  | setSettings room req clock =>
      rcases @setSettings_spec cfg env hp room req clock w with hs | ⟨db, -, hdb, he⟩
      · exact hstay _ hs
      · rw [show (HubCall.run cfg env w (.setSettings room req clock)).2.db = db from he.db]
        obtain ⟨-, rfl⟩ := saveRoom_ok hdb
        exact unsealed_roomRow h
  | _ => cases hc

/-- The rows of tasks and goals are what is in memory, and the room of an active goal has its lead
in its row. -/
structure StoredAlike (cfg : Config) (w : World) : Prop where
  tasks : ∀ name, Mirror.Holds Task.id id (w.db.tasks.filter fun t => t.room = name) (w.roomOr cfg name).tasks
  goals : ∀ name, Mirror.Holds Goal.id id (w.db.goals.filter fun g => g.room = name) (w.roomOr cfg name).goals
  /-- A room without a row runs with the settings the server was started with. -/
  led : ∀ g ∈ w.db.goals, g.status = .active →
    (∃ row ∈ w.db.rooms, row.room = g.room ∧ row.settings.lead ≠ none) ∨
      (∀ row ∈ w.db.rooms, row.room ≠ g.room) ∧ cfg.defaultSettings.lead ≠ none

theorem storedAlike {cfg : Config} {w : World} (ha : Agreed cfg w) (ho : Orderly cfg w)
    (hrows : ∀ row ∈ w.db.rooms, row.sealedAt = none) : StoredAlike cfg w := by
  have hopen : ∀ name, isSealed name w.db = false := by
    intro name
    by_contra hsealed
    rw [Bool.not_eq_false, isSealed, List.any_eq_true] at hsealed
    obtain ⟨row, hrow, hs⟩ := hsealed
    rw [hrows row hrow] at hs
    simp at hs
  refine ⟨fun name => (ha name (hopen name)).tasks, fun name => (ha name (hopen name)).goals, fun g hg hact => ?_⟩
  have hs := ha g.room (hopen g.room)
  have hget : (w.roomOr cfg g.room).goals.get g.id = some g :=
    (hs.goals.same g.id g).mpr ⟨g, List.mem_filter.mpr ⟨hg, by simp⟩, rfl, rfl⟩
  have hlead := (ho.consistent g.room).led g.id g hget hact
  by_cases hrow : ∃ row ∈ w.db.rooms, row.room = g.room
  · obtain ⟨row, hmem, hroom⟩ := hrow
    exact .inl ⟨row, hmem, hroom, (hs.row row hmem hroom).2 ▸ hlead⟩
  · have hnone : ∀ row ∈ w.db.rooms, row.room ≠ g.room := fun row hmem he => hrow ⟨row, hmem, he⟩
    rcases (hs.bare hnone).2 with hset | hset
    · exact .inr ⟨hnone, hset ▸ hlead⟩
    · exact absurd (by rw [hset]; rfl) hlead

/-! ## Runs -/

theorem work_keeps {cfg : Config} (hp : cfg.persistent = true) {s : Server} {i : HubInput} (hi : workOnly s i)
    (h : Orderly cfg s.world ∧ ∀ row ∈ s.world.db.rooms, row.sealedAt = none) :
    (Orderly cfg (s.step cfg i).2.world ∧ ∀ row ∈ (s.step cfg i).2.world.db.rooms, row.sealedAt = none) ∧
      ∀ name, Progress (s.world.roomOr cfg name) ((s.step cfg i).2.world.roomOr cfg name) := by
  cases i with
  | call env c =>
      obtain ⟨ho, hprogress⟩ := @work_step cfg env hp s.world h.1 c hi
      exact ⟨⟨ho, work_unsealed hp h.2 hi⟩, hprogress⟩
  | post | advance | restart => exact False.elim hi

/-- In every state that work reaches, goals and tasks are consistent, the rows say the same, and
the next call's progress is seen. -/
theorem goals_and_tasks_consistent {cfg : Config} (hp : cfg.persistent = true) {tr : List (HubInput × HubAnswer)}
    {s : Server} (r : Sys.Run (hubMachine cfg) workOnly tr s) :
    (∀ name, Consistent (s.world.roomOr cfg name)) ∧ StoredAlike cfg s.world ∧
      ∀ i, workOnly s i → ∀ name, Progress (s.world.roomOr cfg name) ((s.step cfg i).2.world.roomOr cfg name) := by
  have h : Orderly cfg s.world ∧ ∀ row ∈ s.world.db.rooms, row.sealedAt = none := by
    refine Sys.Run.invariant
      (I := fun s => Orderly cfg s.world ∧ ∀ row ∈ s.world.db.rooms, row.sealedAt = none) ?_ ?_ r
    · rintro s ⟨env, clock, rfl⟩
      have hu := build_unused cfg env clock
      exact ⟨hu.orderly, hu.rows⟩
    · intro s i h hi
      exact (work_keeps hp hi h).1
  exact ⟨h.1.consistent, storedAlike (run_agreed hp r).2 h.1 h.2, fun i hi => (work_keeps hp hi h).2⟩

/-- `ann` leads a goal of one task, and `bob` does the task. -/
def workInputs : List HubInput :=
  let env := fun now => sampleEnv now fun _ => false
  [.call (env 1000) (.setLead "den" (some "ann") "ann"),
    .call (env 1000) (.createTask "den" ⟨"fix the door", none, some "bob", "ann"⟩),
    .call (env 1000) (.createGoal "den" ⟨"a door that shuts", none, none, .allTasks, [1], "ann"⟩),
    .call (env 1000) (.updateTask "den" 1 ⟨some .done, none, "bob"⟩ false)]

def workServer : Server := ((hubMachine sampleConfig).exec workInputs [] sampleServer).2

theorem goals_and_tasks_consistent_sample :
    (workServer.world.room? "den").map (fun r => (r.goals.get 1).map fun g => (g.status, g.closedAt, g.progressAt)) =
        some (some (.achieved, some 1001, 1002)) ∧
      (∀ name, Consistent (workServer.world.roomOr sampleConfig name)) ∧ StoredAlike sampleConfig workServer.world ∧
      ∀ i, workOnly workServer i → ∀ name, Progress (workServer.world.roomOr sampleConfig name)
        ((workServer.step sampleConfig i).2.world.roomOr sampleConfig name) := by
  refine ⟨by decide +kernel, ?_⟩
  exact goals_and_tasks_consistent rfl (Sys.Run.exec workInputs ⟨rfl, rfl, rfl, rfl, trivial⟩ (.nil ⟨_, _, rfl⟩))

end Loca
