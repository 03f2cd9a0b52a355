/-
# `Loca.Store.Work` — tasks, goals, waits, notes and the journal on disk

`store/work.rs` and `store/content.rs`.  A transition that counts as progress retires the
reminders of its condition in the same transaction.
-/
import Loca.Store.Messages

namespace Loca

open Check Table

/-! ## Tasks and goals -/

def writeTask (t : Task) (db : Db) : Db :=
  { db with tasks := upsert (fun r => (r.room, r.id)) t db.tasks }

/-- `INSERT OR REPLACE`: a row in the way goes, also one that only the index
`goals_one_active` puts in the way. -/
def writeGoal (g : Goal) (db : Db) : Db :=
  { db with
    goals := deleteWhere (fun r => r.room = g.room &&
      (r.id = g.id || (r.status = .active && g.status = .active))) db.goals ++ [g] }

def clearGoalCare (g : Goal) (db : Db) : Db :=
  db.withCare (db.care.resetCare g.room (goalKey g.id) g.progressAt)

def clearTaskCare (t : Task) (db : Db) : Db :=
  db.withCare (db.care.resetCare t.room (taskKey t.id) t.progressAt)

def upsertGoalWithCareReset (g : Goal) (clear : Bool) (db : Db) : Db :=
  let db := writeGoal g db
  if clear then clearGoalCare g db else db

def upsertTaskWithGoalProgress (t : Task) (goal : Option Goal) (clear : Bool) (db : Db) : Db :=
  let db := writeTask t db
  let db := match goal with
    | some g => writeGoal g db
    | none => db
  let db := if clear then clearTaskCare t db else db
  match goal with
  | some g => clearGoalCare g db
  | none => db

def loadTasks (room : String) (db : Db) : List Task :=
  orderBy Task.id (db.tasks.filter fun t => t.room = room)

def loadGoals (room : String) (db : Db) : List Goal :=
  orderBy Goal.id (db.goals.filter fun g => g.room = room)

/-! ## Waits -/

def replaceWaitWithCare (wait : WaitState) (now : Nat) (db : Db) : Db :=
  let db := writeWait wait db
  let care := db.care.deleteMark wait.room (waitKey wait.waiter)
  db.withCare (care.resolveWaitAttentions wait.room wait.waiter now)

def deleteWait (room waiter : String) (now : Nat) (db : Db) : Db :=
  let db := { db with waits := deleteWhere (fun r => r.room = room && r.waiter = waiter) db.waits }
  let care := db.care.deleteMark room (waitKey waiter)
  db.withCare (care.resolveWaitAttentions room waiter now)

def enqueueCareWithWaits (waits : List WaitState) (deliveryRoom : String) (s : CareSignal) (db : Db) :
    Db :=
  let db := waits.foldl (fun db wait => writeWait wait db) db
  db.withCare (db.care.writeCare deliveryRoom s)

def loadWaits (room : String) (db : Db) : List WaitState :=
  orderBy WaitState.waiter (db.waits.filter fun w => w.room = room)

/-! ## Notes and the journal -/

def upsertNote (room : String) (n : Note) (db : Db) : Db :=
  { db with notes := upsert (fun r => (r.room, r.note.key)) ⟨room, n⟩ db.notes }

/-- Archive the version that is replaced, then replace it. -/
def replaceNote (room : String) (previous updated : Note) (db : Db) : Except StoreError Db := do
  let revisions ← found (insertNew (fun r => (r.room, r.key, r.rev))
    ⟨room, previous.key, previous.rev, previous.title, previous.body, previous.updatedBy,
      previous.updatedAt⟩ db.noteRevisions) .constraint
  pure (upsertNote room updated { db with noteRevisions := revisions })

def deleteNoteRow (room key : String) (db : Db) : Db :=
  { db with notes := deleteWhere (fun r => r.room = room && r.note.key = key) db.notes }

def appendJournalRow (e : JournalEntry) (db : Db) : Except StoreError Db := do
  let journal ← found (insertNew (fun r => (r.room, r.id)) e db.journal) .constraint
  pure { db with journal := journal }

def loadJournal (room : String) (db : Db) : List JournalEntry :=
  orderBy JournalEntry.id (db.journal.filter fun e => e.room = room)

end Loca
