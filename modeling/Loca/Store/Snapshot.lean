/-
# `Loca.Store.Snapshot` — a memory snapshot among other requests

`loca_memory_snapshot` reads twice: the row of the memory, and then its entries.  The connection
is given back in between, so any other request may write before the second read.  What the
snapshot says of the row it has from the first state, what it says of the entries from the
second, and one of its fields compares the two.

`loca_memory_entries` makes the same comparison under one hold of the connection.  Here it can
fail for a memory that was never inconsistent: exactly when an entry is appended to it between
the two reads (`snapshot_of_one_state`).
-/
import Loca.Store.Memory
import Loca.Store.Rename

namespace Loca

open Check Joined Table Text

/-! ## Requests -/

inductive MemoryRequest
  | call (c : MemoryCall)
  | rename (old new : String)

/-- The database after the request. -/
def MemoryRequest.run (db : Db) : MemoryRequest → Db
  | .call c => (c.run db).2
  | .rename old new =>
      match renameRoom old new db with
      | .ok (_, db) => db
      | .error _ => db

def MemoryRequest.Spoken : MemoryRequest → Prop
  | .call c => c.Spoken
  | .rename _ _ => True

/-- The requests against a database without memories. -/
def requestMachine : Sys.Machine Db MemoryRequest Unit where
  init db := db.memory = [] ∧ db.memoryEntries = []
  step db i := ((), i.run db)

abbrev spokenRequest (_ : Db) (i : MemoryRequest) : Prop := i.Spoken

/-- The snapshot whose first read finds `db` and whose second finds `db'`. -/
def racedSnapshot (room : String) (db db' : Db) : Option LocaMemorySnapshot :=
  (locaMemory room db).map fun m => snapshotOf m (entriesDesc room db')

/-- An entry is appended to the room's long memory on the way. -/
def Grows (room : String) (db : Db) (is : List MemoryRequest) : Prop :=
  ∃ pre c suf, is = pre ++ .call c :: suf ∧ c.room = room ∧
    ∃ e, (c.run (requestMachine.after pre db)).1 = .entry e

/-! ## What a request leaves of the entries -/

section Requests

variable {room : String} {db : Db}

theorem renameRoom_memory {old new : String} {b : Bool} {db' : Db} (h : renameRoom old new db = .ok (b, db')) :
    db'.memory = db.memory ∧ db'.memoryEntries = db.memoryEntries := by
  unfold renameRoom at h
  split at h
  · simp only [bind_ok, require_ok, exists_const, pure_ok, Prod.mk.injEq] at h
    obtain ⟨-, attentions, -, -, rfl⟩ := h
    exact ⟨rfl, rfl⟩
  · cases h
    exact ⟨rfl, rfl⟩

/-- A request appends an entry to the room, or leaves its entries alone. -/
theorem request_entries (i : MemoryRequest) (room : String) (db : Db) :
    ((i.run db).longEntries room = db.longEntries room ∧
      ∀ c, i = .call c → c.room = room → ∀ e, (c.run db).1 ≠ .entry e) ∨
    ∃ c e row, i = .call c ∧ c.room = room ∧ (c.run db).1 = .entry e ∧
      (i.run db).longEntries room = db.longEntries room ++ [row] ∧ (c.Spoken → row.text ≠ "") := by
  cases i with
  | rename old new =>
      refine .inl ⟨?_, fun c hc => (by cases hc)⟩
      unfold MemoryRequest.run Db.longEntries
      dsimp only
      split
      · next h => rw [(renameRoom_memory h).2]
      · rfl
  | call c =>
      cases c with
      | setOwner name owner principalId fails =>
          refine .inl ⟨?_, fun c hc _ e he => ?_⟩
          · cases fails <;> rfl
          · cases hc
            cases fails <;> cases he
      | writeShort name actor text now fails readFails =>
          have hentries : (writeShortMemory name actor text now fails readFails db).2.memoryEntries =
              db.memoryEntries := by
            unfold writeShortMemory
            cases hput : putShort name actor text now fails db with
            | error e => rfl
            | ok db' =>
                obtain ⟨-, -, rfl⟩ := putShort_ok hput
                rfl
          refine .inl ⟨?_, fun c hc _ e he => ?_⟩
          · unfold MemoryRequest.run MemoryCall.run Db.longEntries
            dsimp only
            split
            · next hw => rw [← hentries, hw]
            · next hw => rw [← hentries, hw]
          · cases hc
            unfold MemoryCall.run at he
            dsimp only at he
            split at he <;> cases he
      | appendLong name actor text now fails =>
          cases happ : appendLongMemory name actor text now fails db with
          | error e =>
              have hrun : MemoryCall.run db (.appendLong name actor text now fails) = (.refused e, db) := by
                unfold MemoryCall.run
                dsimp only
                rw [happ]
              refine .inl ⟨?_, fun c hc _ e' he => ?_⟩
              · show (MemoryCall.run db (.appendLong name actor text now fails)).2.longEntries room = _
                rw [hrun]
              · cases hc
                rw [hrun] at he
                cases he
          | ok p =>
              have hrun : MemoryCall.run db (.appendLong name actor text now fails) = (.entry p.1, p.2) := by
                unfold MemoryCall.run
                dsimp only
                rw [happ]
              have hentries := appendLongMemory_entries happ room
              by_cases hname : name = room
              · rw [if_pos hname] at hentries
                refine .inr ⟨_, p.1, ⟨nextEntryId db, name, text, actor.name, now⟩, rfl, hname,
                  congrArg Prod.fst hrun, ?_, fun h => h⟩
                show (MemoryCall.run db (.appendLong name actor text now fails)).2.longEntries room = _
                rw [hrun]
                exact hentries
              · rw [if_neg hname, List.append_nil] at hentries
                refine .inl ⟨?_, fun c hc hroom => ?_⟩
                · show (MemoryCall.run db (.appendLong name actor text now fails)).2.longEntries room = _
                  rw [hrun]
                  exact hentries
                · cases hc
                  exact absurd hroom hname

theorem request_ledger (i : MemoryRequest) (hi : i.Spoken) (h : Ledger db) : Ledger (i.run db) := by
  cases i with
  | call c =>
      show Ledger (c.run db).2
      rcases c.run_cases db with ⟨e, hc⟩ | ⟨a, db', hc, -, htook⟩ | ⟨-, db', hc, htook⟩
      · rw [hc]
        exact h
      · rw [hc]
        exact htook.ledger h hi
      · rw [hc]
        exact htook.ledger h hi
  | rename old new =>
      unfold MemoryRequest.run
      dsimp only
      split
      · next db' hr =>
        obtain ⟨hm, he⟩ := renameRoom_memory hr
        have hrow : ∀ room, db'.memoryOf room = db.memoryOf room := fun room => by
          unfold Db.memoryOf
          rw [hm]
        exact h.keep he (fun room row hr => .inl ⟨row, hrow room ▸ hr, rfl⟩) fun room hr => hrow room ▸ hr
      · exact h

theorem run_requests_ledger {tr : List (MemoryRequest × Unit)} (r : Sys.Run requestMachine spokenRequest tr db) :
    Ledger db := by
  refine Sys.Run.invariant (I := Ledger) (fun db h => ?_) (fun db i h hi => request_ledger i hi h) r
  exact run_ledger (.nil h)

/-! ## What many requests leave of the entries -/

theorem after_ledger {is : List MemoryRequest} (his : ∀ i ∈ is, i.Spoken) (h : Ledger db) :
    Ledger (requestMachine.after is db) := by
  induction is generalizing db with
  | nil => exact h
  | cons i is ih =>
      exact ih (fun j hj => his j (List.mem_cons_of_mem _ hj)) (request_ledger i (his i List.mem_cons_self) h)

theorem grows_cons (i : MemoryRequest) (is : List MemoryRequest) :
    Grows room db (i :: is) ↔
      (∃ c e, i = .call c ∧ c.room = room ∧ (c.run db).1 = .entry e) ∨ Grows room (i.run db) is := by
  constructor
  · rintro ⟨pre, c, suf, heq, hroom, e, he⟩
    cases pre with
    | nil =>
        obtain ⟨rfl, rfl⟩ := List.cons.inj heq
        exact .inl ⟨c, e, rfl, hroom, he⟩
    | cons j pre =>
        obtain ⟨rfl, rfl⟩ := List.cons.inj heq
        exact .inr ⟨pre, c, suf, rfl, hroom, e, he⟩
  · rintro (⟨c, e, rfl, hroom, he⟩ | ⟨pre, c, suf, rfl, hroom, e, he⟩)
    · exact ⟨[], c, is, rfl, hroom, e, he⟩
    · exact ⟨i :: pre, c, suf, rfl, hroom, e, he⟩

/-- The entries of a room only grow, and they grow when one is appended. -/
theorem after_entries {is : List MemoryRequest} (his : ∀ i ∈ is, i.Spoken) (room : String) (db : Db) :
    ∃ added, (requestMachine.after is db).longEntries room = db.longEntries room ++ added ∧
      (added = [] ↔ ¬ Grows room db is) ∧ ∀ e ∈ added, e.text ≠ "" := by
  induction is generalizing db with
  | nil =>
      refine ⟨[], (List.append_nil _).symm, iff_of_true rfl ?_, fun e he => (by cases he)⟩
      rintro ⟨pre, c, suf, heq, -⟩
      exact absurd heq.symm (List.append_ne_nil_of_right_ne_nil pre (List.cons_ne_nil _ _))
  | cons i is ih =>
      obtain ⟨added, heq, hadded, htext⟩ := ih (fun j hj => his j (List.mem_cons_of_mem _ hj)) (i.run db)
      have hafter : requestMachine.after (i :: is) db = requestMachine.after is (i.run db) := rfl
      rw [hafter, heq, grows_cons]
      rcases request_entries i room db with ⟨hsame, hnot⟩ | ⟨c, e, row, rfl, hroom, hentry, hrow, hspoken⟩
      · refine ⟨added, by rw [hsame], ?_, htext⟩
        rw [hadded, not_or]
        refine ⟨fun hg => ⟨?_, hg⟩, fun hg => hg.2⟩
        rintro ⟨c, e, hi, hroom, he⟩
        exact hnot c hi hroom e he
      · refine ⟨row :: added, by rw [hrow, List.append_assoc]; rfl, iff_of_false (List.cons_ne_nil _ _) ?_, ?_⟩
        · exact fun hg => hg (.inl ⟨c, e, rfl, hroom, hentry⟩)
        · intro r hr
          rcases List.mem_cons.mp hr with rfl | hr
          · exact hspoken (his _ List.mem_cons_self)
          · exact htext r hr

end Requests

/-! ## The snapshot -/

section Snapshot

variable {room : String} {db db' : Db}

/-- The comparison of the two reads, when each found a ledger. -/
theorem racedSnapshot_consistent (h : Ledger db) (h' : Ledger db') {added : List MemoryEntryRow}
    (hadded : db'.longEntries room = db.longEntries room ++ added) (htext : ∀ e ∈ added, e.text ≠ "")
    {m : LocaMemory} (hm : locaMemory room db = some m) :
    (snapshotOf m (entriesDesc room db')).provenanceInconsistent = false ↔ added = [] := by
  obtain ⟨row, hrow, rfl⟩ := Option.map_eq_some_iff.mp hm
  have hlong : row.long = flattened (db.longEntries room) := (h.long room row hrow).1
  have hfield : (snapshotOf row.toMemory (entriesDesc room db')).provenanceInconsistent =
      decide (flattened (db.longEntries room ++ added) ≠ flattened (db.longEntries room)) := by
    show decide (flattened (entriesDesc room db').reverse ≠ row.long) = _
    unfold entriesDesc
    rw [List.reverse_reverse, orderBy_longEntries h'.ordered, hadded, hlong]
  rw [hfield, decide_eq_false_iff_not, not_not]
  constructor
  · intro heq
    have hbytes := congrArg byteLen heq
    unfold flattened at hbytes
    rw [byteLen_intercalate, byteLen_intercalate, List.map_append] at hbytes
    cases added with
    | nil => rfl
    | cons e added =>
        have he : 0 < byteLen e.text :=
          Nat.pos_of_ne_zero fun h0 => htext e List.mem_cons_self (byteLen_eq_zero.mp h0)
        unfold joinedBytes at hbytes
        rw [List.map_append, List.sum_append, List.length_append] at hbytes
        have hsep := Nat.mul_le_mul_left (byteLen "\n\n") (Nat.sub_le_sub_right
          (Nat.le_add_right ((db.longEntries room).map MemoryEntryRow.text).length
            ((e :: added).map MemoryEntryRow.text).length) 1)
        simp only [List.map_cons, List.sum_cons] at hbytes hsep
        omega
  · rintro rfl
    rw [List.append_nil]

end Snapshot

/-- A snapshot that others write beside is the snapshot of one state on the way, and is not
marked inconsistent, exactly when no entry is appended to the loca's memory between its two
reads, or the loca had no memory at the first. -/
theorem snapshot_of_one_state {tr : List (MemoryRequest × Unit)} {db : Db}
    (r : Sys.Run requestMachine spokenRequest tr db) (room : String) {is : List MemoryRequest}
    (his : ∀ i ∈ is, i.Spoken) :
    ((∃ pre suf, is = pre ++ suf ∧ racedSnapshot room db (requestMachine.after is db) =
        locaMemorySnapshot room (requestMachine.after pre db)) ↔
      (¬ Grows room db is ∨ locaMemory room db = none)) ∧
    ((∀ s, racedSnapshot room db (requestMachine.after is db) = some s → s.provenanceInconsistent = false) ↔
      (¬ Grows room db is ∨ locaMemory room db = none)) := by
  have hl := run_requests_ledger r
  obtain ⟨added, hadded, hgrows, htext⟩ := after_entries his room db
  cases hm : locaMemory room db with
  | none =>
      unfold racedSnapshot
      rw [hm]
      refine ⟨iff_of_true ⟨[], is, rfl, ?_⟩ (.inr rfl), iff_of_true (fun s hs => (by cases hs)) (.inr rfl)⟩
      show none = locaMemorySnapshot room db
      unfold locaMemorySnapshot
      rw [hm]
      rfl
  | some m =>
      have hraced : racedSnapshot room db (requestMachine.after is db) =
          some (snapshotOf m (entriesDesc room (requestMachine.after is db))) := by
        unfold racedSnapshot
        rw [hm]
        rfl
      have hcons := racedSnapshot_consistent hl (after_ledger his hl) hadded htext hm
      have hcond : (¬ Grows room db is ∨ some m = none) ↔ added = [] :=
        ⟨fun h => hgrows.mpr (h.resolve_right (by simp)), fun h => .inl (hgrows.mp h)⟩
      rw [hcond, hraced]
      refine ⟨⟨?_, ?_⟩, ⟨fun h => hcons.mp (h _ rfl), fun h s hs => ?_⟩⟩
      · rintro ⟨pre, suf, rfl, hone⟩
        have hpre : Ledger (requestMachine.after pre db) :=
          after_ledger (fun i hi => his i (List.mem_append_left _ hi)) hl
        obtain ⟨m', hm', hsnap⟩ := Option.map_eq_some_iff.mp hone.symm
        obtain ⟨s, hs, hview⟩ := (hpre.of room).snapshot m' hm'
        rw [← hone] at hs
        cases hs
        exact hcons.mp hview.consistent
      · intro h
        refine ⟨[], is, rfl, ?_⟩
        show some _ = locaMemorySnapshot room db
        unfold locaMemorySnapshot entriesDesc
        rw [hm, hadded, h, List.append_nil]
        rfl
      · cases hs
        exact hcons.mpr h

/-! ## An entry between two reads -/

def scribeRequests : List MemoryRequest := scribeCalls.map .call

theorem scribe_requests_run : ∃ tr, Sys.Run requestMachine spokenRequest tr scribeDb := by
  have hadmits : requestMachine.Admits spokenRequest scribeRequests {} :=
    ⟨trivial, show "first" ≠ "" by decide, show "not mine" ≠ "" by decide, show "second" ≠ "" by decide, trivial⟩
  exact ⟨_, Sys.Run.exec scribeRequests hadmits (.nil ⟨rfl, rfl⟩)⟩

def thirdEntry : MemoryRequest := .call (.appendLong "den" scribe "third" 30 false)

theorem snapshot_of_one_state_sample :
    racedSnapshot "den" scribeDb (requestMachine.after [.rename "den" "hall"] scribeDb) =
      locaMemorySnapshot "den" scribeDb ∧
    ((∃ pre suf, [thirdEntry] = pre ++ suf ∧ racedSnapshot "den" scribeDb (requestMachine.after [thirdEntry] scribeDb) =
        locaMemorySnapshot "den" (requestMachine.after pre scribeDb)) ↔
      (¬ Grows "den" scribeDb [thirdEntry] ∨ locaMemory "den" scribeDb = none)) := by
  obtain ⟨tr, r⟩ := scribe_requests_run
  refine ⟨by decide +kernel, (snapshot_of_one_state r "den" fun i hi => ?_).1⟩
  rw [List.mem_singleton.mp hi]
  exact show "third" ≠ "" by decide

/-- The third entry comes between the two reads: the snapshot says that the memory is inconsistent,
counts an entry as left out of a text that holds all of it, and is that of neither state. -/
theorem raced_snapshot_is_torn :
    (racedSnapshot "den" scribeDb (requestMachine.after [thirdEntry] scribeDb)).map
        (fun s => (s.provenanceInconsistent, s.memory.long, s.memory.version)) =
      some (true, "first\n\nsecond\n\nthird", 3) ∧
    ∀ pre suf, [thirdEntry] = pre ++ suf → racedSnapshot "den" scribeDb (requestMachine.after [thirdEntry] scribeDb) ≠
      locaMemorySnapshot "den" (requestMachine.after pre scribeDb) := by
  refine ⟨by decide +kernel, fun pre suf h => ?_⟩
  rcases List.append_eq_singleton_iff.mp h.symm with ⟨rfl, -⟩ | ⟨rfl, -⟩
  · decide +kernel
  · decide +kernel

end Loca
