/-
# `Loca.Runner.Journal` — the journal of the wiki runner

`WikiJournal` of `wiki_runtime.py`.  A job is entered before its worker is asked, gets its review when the worker has
answered, and its receipt when the server has taken the review.  Each of these is one transaction: it is carried out,
or the journal stays as it was.  An accepted job is kept for its lease and its receipt only, and deleted once 128 newer
ones are accepted, unless it has a route to offer.

Two things hold a job to its place.  A room has one job at most that is not accepted, and it is the room's latest
(`Journal.Kept`).  And no id is given twice: SQLite takes the one after the largest, and the job with the largest id is
never deleted (`exists_ge_of_prune`).
-/
import Mathlib.Algebra.Order.Ring.Int
import Loca.Base.Table
import Loca.Runner.Coordinator

namespace Loca.Runner

open Check Table

inductive JobStatus
  | dispatchIntent
  | publicationPending
  | blocked
  | accepted
  deriving DecidableEq

structure Job where
  id : Nat
  room : String
  batchId : Int
  epoch : Int
  status : JobStatus
  batch : Dict
  snapshot : Dict
  review : Option DraftReview
  receipt : Option Dict
  reason : Option String

/-- A route that has not been offered. -/
structure RouteRow where
  jobId : Nat
  room : String
  payload : DraftRoute
  deriving DecidableEq

def RouteRow.key (r : RouteRow) : Nat × String := (r.jobId, r.payload.target)

/-- `UNIQUE(room,batch_id,epoch)`. -/
def Job.key (j : Job) : String × Int × Int := (j.room, j.batchId, j.epoch)

/-- Not accepted: the rows that `active_room` knows. -/
def Job.open (j : Job) : Bool := j.status ≠ .accepted

structure Journal where
  jobs : List Job := []
  routes : List RouteRow := []

inductive JournalError
  | oversized
  | needsReconciliation
  | constraint
  | dispatchChanged
  | publicationChanged
  | shape
  deriving DecidableEq

def JournalError.message : JournalError → String
  | oversized => "Wiki journal input exceeds durable budget"
  | needsReconciliation => "Wiki journal needs reconciliation before more work"
  | constraint => "UNIQUE constraint failed"
  | dispatchChanged => "Wiki dispatch state changed before storing result"
  | publicationChanged => "Wiki publication state changed before recording receipt"
  | shape => ""

namespace Journal

def maxPending : Nat := 16
def maxInput : Nat := 2 * 1024 * 1024
def maxAccepted : Nat := 128

/-- `SELECT * FROM jobs WHERE room=? ORDER BY id DESC LIMIT 1`. -/
def latest (room : String) (j : Journal) : Option Job :=
  j.jobs.find? fun x => x.room = room && j.jobs.all fun y => y.room ≠ room || y.id ≤ x.id

/-- The largest id, 0 in an empty table. -/
def lastId (j : Journal) : Nat := (j.jobs.map Job.id).foldr max 0

/-- An integer that SQLite can hold. -/
def fits (n : Int) : Bool := -(2 ^ 63) ≤ n && n < 2 ^ 63

def leaseNumbers (batch : Dict) : Option (Int × Int) := do
  let lease ← (Json.field "lease" batch).bind asDict
  let batchId ← (number "batch_id" lease).filter fits
  let epoch ← (number "epoch" lease).filter fits
  pure (batchId, epoch)

def dumped (d : Dict) : Nat := Json.bytes (Json.dumps .default (.obj d))

def intent (room : String) (batch snapshot : Dict) (j : Journal) : Except JournalError Journal := do
  require (dumped batch + dumped snapshot ≤ maxInput) .oversized
  require (j.jobs.countP Job.open < maxPending) .needsReconciliation
  let (batchId, epoch) ← found (leaseNumbers batch) .shape
  require (∀ x ∈ j.jobs, x.key ≠ (room, batchId, epoch)) .constraint
  require (∀ x ∈ j.jobs, x.open = true → x.room ≠ room) .constraint
  pure { j with
    jobs := j.jobs ++ [⟨j.lastId + 1, room, batchId, epoch, .dispatchIntent, batch, snapshot, none, none, none⟩] }

/-- The routes of a review, each in a row of its own. -/
def insertRoutes (id : Nat) (room : String) : List DraftRoute → List RouteRow → Except JournalError (List RouteRow)
  | [], rows => pure rows
  | r :: routes, rows => do
      let rows ← found (insertNew RouteRow.key ⟨id, room, r⟩ rows) .constraint
      insertRoutes id room routes rows

def result (id : Nat) (room : String) (review : DraftReview) (j : Journal) : Except JournalError Journal := do
  require (∃ x ∈ j.jobs, x.id = id ∧ x.status = .dispatchIntent) .dispatchChanged
  let routes ← insertRoutes id room (review.routes.getD []) j.routes
  pure {
    jobs := updateWhere (fun x => x.id = id && x.status = .dispatchIntent)
      (fun x => { x with status := .publicationPending, review := some review }) j.jobs
    routes }

/-- The routes of a room's accepted jobs. -/
def pendingRoutes (room : String) (j : Journal) : List RouteRow :=
  orderBy RouteRow.jobId (orderBy (fun r => r.payload.target) (j.routes.filter fun r =>
    r.room = room && j.jobs.any fun x => x.id = r.jobId && x.status = .accepted))

def routed (id : Nat) (target : String) (j : Journal) : Journal :=
  { j with routes := deleteWhere (fun r => r.key = (id, target)) j.routes }

/-- `id IN (SELECT id FROM jobs WHERE status='accepted' ORDER BY id DESC LIMIT 128)`, of an accepted job. -/
def newest (jobs : List Job) (x : Job) : Bool := jobs.countP (fun y => y.status = .accepted && x.id < y.id) < maxAccepted

def prune (routes : List RouteRow) (jobs : List Job) : List Job :=
  deleteWhere (fun x => x.status = .accepted && !newest jobs x && !(routes.any fun r => r.jobId = x.id)) jobs

def accepted (id : Nat) (lease : Json) (receipt : Dict) (j : Journal) : Except JournalError Journal := do
  require (∃ x ∈ j.jobs, x.id = id ∧ x.status = .publicationPending) .publicationChanged
  pure { j with
    jobs := prune j.routes (updateWhere (fun x => x.id = id && x.status = .publicationPending)
      (fun x => { x with
        status := .accepted, receipt := some receipt, batch := [("lease", lease)], snapshot := [], review := none })
      j.jobs) }

def block (id : Nat) (reason : String) (j : Journal) : Journal :=
  { j with jobs := updateWhere (fun x => x.id = id) (fun x => { x with status := .blocked, reason := some reason }) j.jobs }

/-! ## What the journal reads -/

variable {j j' : Journal}

theorem le_lastId {x : Job} (h : x ∈ j.jobs) : x.id ≤ j.lastId := by
  unfold lastId
  generalize j.jobs = jobs at h
  induction jobs with
  | nil => cases h
  | cons y jobs ih =>
      rw [List.map_cons, List.foldr_cons]
      rcases List.mem_cons.mp h with rfl | h
      · exact le_max_left _ _
      · exact (ih h).trans (le_max_right _ _)

theorem latest_some {room : String} {x : Job} (h : j.latest room = some x) :
    x ∈ j.jobs ∧ x.room = room ∧ ∀ y ∈ j.jobs, y.room = room → y.id ≤ x.id := by
  have hfound := List.find?_some h
  simp only [Bool.and_eq_true, decide_eq_true_eq, List.all_eq_true, Bool.or_eq_true] at hfound
  refine ⟨List.mem_of_find?_eq_some h, hfound.1, fun y hy hr => ?_⟩
  exact (hfound.2 y hy).resolve_left fun hne => hne hr

/-- Of some jobs one has the largest id. -/
theorem exists_last {jobs : List Job} (h : jobs ≠ []) : ∃ x ∈ jobs, ∀ y ∈ jobs, y.id ≤ x.id := by
  induction jobs with
  | nil => exact absurd rfl h
  | cons x jobs ih =>
      by_cases hnil : jobs = []
      · subst hnil
        exact ⟨x, List.mem_cons_self, by simp⟩
      · obtain ⟨z, hz, hlast⟩ := ih hnil
        rcases Nat.le_total x.id z.id with hle | hle
        · refine ⟨z, List.mem_cons_of_mem x hz, fun y hy => ?_⟩
          rcases List.mem_cons.mp hy with rfl | hy
          · exact hle
          · exact hlast y hy
        · refine ⟨x, List.mem_cons_self, fun y hy => ?_⟩
          rcases List.mem_cons.mp hy with rfl | hy
          · exact Nat.le_refl _
          · exact (hlast y hy).trans hle

theorem latest_none {room : String} (h : j.latest room = none) : ∀ x ∈ j.jobs, x.room ≠ room := by
  by_contra hex
  push Not at hex
  obtain ⟨x, hx, hr⟩ := hex
  have hne : j.jobs.filter (fun y => y.room = room) ≠ [] :=
    List.ne_nil_of_mem (List.mem_filter.mpr ⟨hx, decide_eq_true hr⟩)
  obtain ⟨z, hz, hlast⟩ := exists_last hne
  obtain ⟨hz, hzr⟩ := List.mem_filter.mp hz
  refine List.find?_eq_none.mp h z hz ?_
  simp only [Bool.and_eq_true, List.all_eq_true, Bool.or_eq_true, decide_eq_true_eq]
  refine ⟨of_decide_eq_true hzr, fun y hy => ?_⟩
  by_cases hyr : y.room = room
  · exact .inr (hlast y (List.mem_filter.mpr ⟨hy, decide_eq_true hyr⟩))
  · exact .inl hyr

theorem mem_pendingRoutes {room : String} {r : RouteRow} (h : r ∈ j.pendingRoutes room) :
    r ∈ j.routes ∧ r.room = room ∧ ∃ x ∈ j.jobs, x.id = r.jobId ∧ x.status = .accepted := by
  obtain ⟨hr, hroom⟩ := List.mem_filter.mp (mem_orderBy.mp (mem_orderBy.mp h))
  simp only [Bool.and_eq_true, List.any_eq_true, decide_eq_true_eq] at hroom
  exact ⟨hr, hroom.1, hroom.2⟩

/-! ## What the calls write -/

theorem mem_prune {routes : List RouteRow} {jobs : List Job} {x : Job} (h : x ∈ prune routes jobs) : x ∈ jobs :=
  (mem_deleteWhere.mp h).1

/-- An open job stays, and so does one with a route. -/
theorem mem_prune_of {routes : List RouteRow} {jobs : List Job} {x : Job} (h : x ∈ jobs)
    (hkeep : x.status ≠ .accepted ∨ ∃ r ∈ routes, r.jobId = x.id) : x ∈ prune routes jobs := by
  refine mem_deleteWhere.mpr ⟨h, ?_⟩
  rcases hkeep with hs | ⟨r, hr, hid⟩
  · simp [hs]
  · have hany : (routes.any fun r => decide (r.jobId = x.id)) = true := List.any_eq_true.mpr ⟨r, hr, by simpa using hid⟩
    simp [hany]

/-- The job with the largest id stays. -/
theorem exists_ge_of_prune {routes : List RouteRow} {jobs : List Job} {x : Job} (h : x ∈ jobs) :
    ∃ y ∈ prune routes jobs, x.id ≤ y.id := by
  obtain ⟨z, hz, hlast⟩ := exists_last (List.ne_nil_of_mem h)
  refine ⟨z, mem_deleteWhere.mpr ⟨hz, ?_⟩, hlast x h⟩
  have hnone : jobs.countP (fun y => y.status = .accepted && z.id < y.id) = 0 := by
    refine List.countP_eq_zero.mpr fun y hy hc => ?_
    simp only [Bool.and_eq_true, decide_eq_true_eq] at hc
    exact absurd (hlast y hy) (Nat.not_le.mpr hc.2)
  have hnew : newest jobs z = true := by
    unfold newest
    rw [hnone]
    decide
  simp [hnew]

theorem intent_ok {room : String} {batch snapshot : Dict} (h : j.intent room batch snapshot = .ok j') :
    ∃ batchId epoch, (∀ x ∈ j.jobs, x.key ≠ (room, batchId, epoch)) ∧ (∀ x ∈ j.jobs, x.open = true → x.room ≠ room) ∧
      j.jobs.countP Job.open < maxPending ∧
      j' = { j with
        jobs := j.jobs ++ [⟨j.lastId + 1, room, batchId, epoch, .dispatchIntent, batch, snapshot, none, none, none⟩] } := by
  simp only [intent, bind_ok, require_ok, found_ok, pure_ok, exists_and_left, exists_const] at h
  obtain ⟨-, hfew, ⟨batchId, epoch⟩, -, hkey, hroom, rfl⟩ := h
  exact ⟨batchId, epoch, hkey, hroom, hfew, rfl⟩

theorem insertRoutes_ok {id : Nat} {room : String} {routes : List DraftRoute} {rows rows' : List RouteRow}
    (h : insertRoutes id room routes rows = .ok rows') : rows' = rows ++ routes.map fun r => ⟨id, room, r⟩ := by
  induction routes generalizing rows with
  | nil =>
      simp only [insertRoutes, pure_ok] at h
      simp [h]
  | cons r routes ih =>
      simp only [insertRoutes, bind_ok, found_ok, insertNew_eq_some] at h
      obtain ⟨_, ⟨-, rfl⟩, h⟩ := h
      rw [ih h]
      simp

theorem result_ok {id : Nat} {room : String} {review : DraftReview} (h : j.result id room review = .ok j') :
    (∃ x ∈ j.jobs, x.id = id ∧ x.status = .dispatchIntent) ∧
      j' = {
        jobs := updateWhere (fun x => x.id = id && x.status = .dispatchIntent)
          (fun x => { x with status := .publicationPending, review := some review }) j.jobs
        routes := j.routes ++ (review.routes.getD []).map fun r => ⟨id, room, r⟩ } := by
  simp only [result, bind_ok, require_ok, pure_ok, exists_and_left, exists_const] at h
  obtain ⟨hx, routes, hroutes, rfl⟩ := h
  exact ⟨hx, by rw [insertRoutes_ok hroutes]⟩

theorem accepted_ok {id : Nat} {lease : Json} {receipt : Dict} (h : j.accepted id lease receipt = .ok j') :
    (∃ x ∈ j.jobs, x.id = id ∧ x.status = .publicationPending) ∧
      j' = { j with
        jobs := prune j.routes (updateWhere (fun x => x.id = id && x.status = .publicationPending)
          (fun x => { x with
            status := .accepted, receipt := some receipt, batch := [("lease", lease)], snapshot := [], review := none })
          j.jobs) } := by
  simp only [accepted, bind_ok, require_ok, pure_ok, exists_and_left, exists_const] at h
  obtain ⟨hx, -, rfl⟩ := h
  exact ⟨hx, rfl⟩

end Journal

end Loca.Runner
