/-
# `Loca.Hub.Operators` — who operates a loca

`create_loca`, `appoint_loca_operator` and `revoke_loca_operator` of `hub.rs`, by requests that
Masters and Smasters send at the same time.  Creating and appointing are one transaction each.
Revoking is two: the request reads the assignment in force, is authorized on what it read, and then
revokes whatever assignment in force is for the same principal.

Between two of those the rest of the server may do anything, but for the tables here: assignments
are written by nobody else, and principals are added, disabled and restored.

Along every run the assignments of a loca are a history that is only written at its end, at most one
is in force, and each was made for an enabled human.  A Smaster's request leaves alone what others
have made, unless the same principal is appointed anew between its read and its write (`Overtaken`).
-/
import Mathlib.Data.List.Induction
import Loca.Base.Run
import Loca.Hub.Reboot

namespace Loca

open Check Table

/-! ## The requests -/

/-- `is_building_admin`, then the principal that acts. -/
def RequestAuthority.admin (actor : RequestAuthority) : Except OperatorAssignmentError String := do
  require (actor.isBuildingAdmin = true) .authorityRequired
  found actor.principalId .authorityRequired

/-- `Store::loca_operator`: a failed read finds nobody. -/
def World.locaOperator (cfg : Config) (env : Env) (room : String) (w : World) : Option OperatorRow :=
  if cfg.persistent = true ∧ env.fails (.locaOperator room) = false then Loca.locaOperator room w.db else none

/-- A transaction on the assignments. -/
def operatorTransaction (cfg : Config) (env : Env) (tx : Db → Except LocaOperatorError (OperatorRow × Db))
    (w : World) : Except OperatorAssignmentError OperatorRow × World :=
  if cfg.persistent = true ∧ env.fails .write = false then
    match tx w.db with
    | .error e => (.error (mapLocaOperatorError e), w)
    | .ok (a, db) => (.ok a, w.setDb db)
  else (.error .storage, w)

/-- `Store::appoint_loca_operator`, with the assignment it answers. -/
def appointed (room target appointer : String) (now : Nat) (db : Db) :
    Except LocaOperatorError (OperatorRow × Db) := do
  let db ← Loca.appointLocaOperator room target appointer now db
  let a ← found (locaOperator room db) .storage
  pure (a, db)

/-- `Hub::appoint_loca_operator`. -/
def World.appointLocaOperator (cfg : Config) (env : Env) (room target : String) (actor : RequestAuthority)
    (w : World) : Except OperatorAssignmentError OperatorRow × World :=
  match actor.admin with
  | .error e => (.error e, w)
  | .ok appointer => operatorTransaction cfg env (appointed room target appointer env.now) w

/-- The first half of `Hub::revoke_loca_operator`: read, and authorize on what was read. -/
def World.authorizeRevoke (cfg : Config) (env : Env) (room : String) (actor : RequestAuthority) (w : World) :
    Except OperatorAssignmentError OperatorRow := do
  let actorId ← actor.admin
  let current ← found (w.locaOperator cfg env room) .notFound
  require (¬(actor.buildingRole = some .smaster ∧
    (current.appointedByRole ≠ .smaster ∨ current.appointedByPrincipalId ≠ actorId))) .masterProtected
  pure current

/-- The second half: revoke what is in force for the principal that was read. -/
def World.writeRevoke (cfg : Config) (env : Env) (room : String) (current : OperatorRow) (w : World) :
    Except OperatorAssignmentError OperatorRow × World :=
  operatorTransaction cfg env (revokeLocaOperator room current.principalId env.now) w

/-! ## The office -/

inductive OperatorRequest
  | create (room : String)
  | appoint (room target : String)
  | revoke (room : String)
  deriving DecidableEq, Repr

/-- A request on its way, under the authority it arrived with; a revoke that is authorized holds the
assignment it read. -/
structure Errand where
  actor : RequestAuthority
  request : OperatorRequest
  read : Option OperatorRow
  deriving DecidableEq, Repr

/-- Who sends a request: a principal, or a credential without one. -/
inductive Bearer
  | principal (id : String)
  | unbound (role : Option BuildingRole)
  deriving DecidableEq, Repr

/-- `resolve_authority`: the role is the principal's own. -/
def Bearer.authority (db : Db) : Bearer → RequestAuthority
  | .unbound role => ⟨none, role⟩
  | .principal id => match activePrincipal id db with
    | some p => ⟨some p.id, some p.buildingRole⟩
    | none => ⟨none, none⟩

/-- What happens to principals: `INSERT OR IGNORE` under two unique keys, disabling, and the
restoring of members. -/
inductive PeopleChange
  | enroll (p : PrincipalRow)
  | disable (id : String) (now : Nat)
  | restore (id : String)
  deriving DecidableEq, Repr

def PeopleChange.apply (db : Db) : PeopleChange → List PrincipalRow
  | .enroll p =>
      if p.buildingRole = .master ∧ p.disabledAt = none ∧ (activeMasterPrincipal db).isSome then db.principals
      else insertIgnore PrincipalRow.id p db.principals
  | .disable id now =>
      updateWhere (fun p => p.id = id && p.disabledAt.isNone) (fun p => { p with disabledAt := some now }) db.principals
  | .restore id =>
      updateWhere (fun p => p.id = id && p.buildingRole = .member) (fun p => { p with disabledAt := none }) db.principals

structure Office where
  world : World
  errands : List Errand

inductive OfficeInput
  | arrive (bearer : Bearer) (request : OperatorRequest)
  | advance (env : Env) (clock : Nat) (k : Nat)
  | people (change : PeopleChange)
  /-- The rest of the server. -/
  | elsewhere (w : World)

inductive OfficeAnswer
  | pending
  | refused (e : OperatorAssignmentError)
  | created
  | assigned (a : OperatorRow)
  | done
  deriving DecidableEq, Repr

def operatorAnswer (x : Except OperatorAssignmentError OperatorRow × World) : OfficeAnswer × Option Errand × World :=
  (match x.1 with
    | .ok a => .assigned a
    | .error e => .refused e, none, x.2)

/-- A request takes its next step. -/
def Errand.advance (cfg : Config) (env : Env) (clock : Nat) (e : Errand) (w : World) :
    OfficeAnswer × Option Errand × World :=
  match e.request, e.read with
  | .create room, _ =>
      let x := createLoca cfg env room e.actor clock w
      (match x.1 with
        | .ok _ => .created
        | .error reject => .refused reject, none, x.2)
  | .appoint room target, _ => operatorAnswer (w.appointLocaOperator cfg env room target e.actor)
  | .revoke room, none =>
      match w.authorizeRevoke cfg env room e.actor with
      | .error reject => (.refused reject, none, w)
      | .ok current => (.pending, some { e with read := some current }, w)
  | .revoke room, some current => operatorAnswer (w.writeRevoke cfg env room current)

/-- Everything but the assignments and the principals is taken over from `other`. -/
def World.elsewhere (w other : World) : World :=
  { other with
    db := { other.db with
      operators := w.db.operators
      operatorSeq := w.db.operatorSeq
      principals := w.db.principals } }

def Office.step (cfg : Config) (s : Office) : OfficeInput → OfficeAnswer × Office
  | .arrive bearer request =>
      (.pending, { s with errands := s.errands ++ [⟨bearer.authority s.world.db, request, none⟩] })
  | .advance env clock k =>
      match s.errands[k]? with
      | none => (.done, s)
      | some e =>
        let x := e.advance cfg env clock s.world
        (x.1, ⟨x.2.2, match x.2.1 with
          | some e' => s.errands.set k e'
          | none => s.errands.eraseIdx k⟩)
  | .people change => (.done, { s with world := s.world.setDb { s.world.db with principals := change.apply s.world.db } })
  | .elsewhere other => (.done, { s with world := s.world.elsewhere other })

/-- Nothing is assigned and no request is on its way; principals have their primary key. -/
def officeInit (s : Office) : Prop :=
  s.world.db.operators = [] ∧ s.errands = [] ∧ (s.world.db.principals.map PrincipalRow.id).Nodup

def officeMachine (cfg : Config) : Sys.Machine Office OfficeInput OfficeAnswer where
  init := officeInit
  step := Office.step cfg

/-! ## What a transaction does to the assignments -/

/-- An assignment as it was made. -/
def OperatorRow.made (a : OperatorRow) : OperatorRow := { a with revokedAt := none }

/-- The same row, or the row with the end it did not have. -/
def OperatorRow.Later (a b : OperatorRow) : Prop := b = a ∨ (a.revokedAt = none ∧ ∃ t, b = { a with revokedAt := some t })

/-- The rows are still there in their order, each as it was or ended; others come after them. -/
inductive OnlyEnded : List OperatorRow → List OperatorRow → Prop
  | nil (added : List OperatorRow) : OnlyEnded [] added
  | cons {a b : OperatorRow} {rows rows' : List OperatorRow} : a.Later b → OnlyEnded rows rows' → OnlyEnded (a :: rows) (b :: rows')

/-- The keys of the table: ids, and one assignment in force for a loca. -/
structure Seats (db : Db) : Prop where
  unique : (db.operators.map OperatorRow.id).Nodup
  numbered : ∀ a ∈ db.operators, a.id ≤ db.operatorSeq
  single : ∀ a ∈ db.operators, ∀ b ∈ db.operators, a.room = b.room → a.revokedAt = none → b.revokedAt = none → a = b

/-- An enabled human. -/
def EnabledHuman (id : String) (db : Db) : Prop := ∃ p, activePrincipal id db = some p ∧ p.kind = "human"

/-- Assignments of one kind end at `now`, and at most one is made, with nobody else in its seat. -/
structure Moves (closes : OperatorRow → Bool) (now : Nat) (new : Option OperatorRow) (db db' : Db) : Prop where
  rows : db'.operators = updateWhere (fun a => closes a && a.revokedAt.isNone)
    (fun a => { a with revokedAt := some now }) db.operators ++ new.toList
  seq : db.operatorSeq ≤ db'.operatorSeq
  fresh : ∀ a ∈ new, db.operatorSeq < a.id ∧ a.id ≤ db'.operatorSeq ∧ a.revokedAt = none
  alone : ∀ a ∈ new, ∀ b ∈ db.operators, b.room = a.room → b.revokedAt = none → closes b = true
  human : ∀ a ∈ new, EnabledHuman a.principalId db

/-- The assignment was in force and is no longer. -/
def Ends (a : OperatorRow) (db db' : Db) : Prop :=
  a ∈ db.operators ∧ a.revokedAt = none ∧ a ∉ db'.operators

theorem OperatorRow.Later.trans {a b c : OperatorRow} (h : a.Later b) (h' : b.Later c) : a.Later c := by
  rcases h with rfl | ⟨ha, t, rfl⟩
  · exact h'
  · rcases h' with rfl | ⟨hb, -⟩
    · exact .inr ⟨ha, t, rfl⟩
    · cases hb

theorem OperatorRow.Later.made {a b : OperatorRow} (h : a.Later b) : b.made = a.made := by
  rcases h with rfl | ⟨-, t, rfl⟩
  · rfl
  · rfl

namespace OnlyEnded

variable {rows rows' rows'' : List OperatorRow}

theorem refl (rows : List OperatorRow) : OnlyEnded rows rows := by
  induction rows with
  | nil => exact .nil []
  | cons a rows ih => exact .cons (.inl rfl) ih

theorem trans (h : OnlyEnded rows rows') (h' : OnlyEnded rows' rows'') : OnlyEnded rows rows'' := by
  induction h generalizing rows'' with
  | nil added => exact .nil rows''
  | cons hab _ ih =>
      cases h' with
      | cons hbc hrest => exact .cons (hab.trans hbc) (ih hrest)

/-- What was made stays made. -/
theorem mem_later (h : OnlyEnded rows rows') {a : OperatorRow} (ha : a ∈ rows) : ∃ b ∈ rows', a.Later b := by
  induction h with
  | nil added => cases ha
  | cons hab _ ih =>
      rcases List.mem_cons.mp ha with rfl | ha
      · exact ⟨_, List.mem_cons_self, hab⟩
      · obtain ⟨b, hb, hl⟩ := ih ha
        exact ⟨b, List.mem_cons_of_mem _ hb, hl⟩

end OnlyEnded

namespace Moves

variable {closes : OperatorRow → Bool} {now : Nat} {new : Option OperatorRow} {db db' : Db}

/-- Nothing moves. -/
theorem still (now : Nat) (h : db'.operators = db.operators) (hseq : db'.operatorSeq = db.operatorSeq) :
    Moves (fun _ => false) now none db db' := by
  refine ⟨?_, hseq.ge, fun a ha => (by cases ha), fun a ha => (by cases ha), fun a ha => (by cases ha)⟩
  rw [h]
  simp [updateWhere]

theorem kept (h : Moves closes now new db db') : OnlyEnded db.operators db'.operators := by
  rw [h.rows]
  generalize db.operators = rows
  induction rows with
  | nil => exact .nil _
  | cons a rows ih =>
      refine .cons ?_ ih
      dsimp only
      split
      · next hc =>
        rw [Bool.and_eq_true, Option.isNone_iff_eq_none] at hc
        exact .inr ⟨hc.2, now, rfl⟩
      · exact .inl rfl

/-- A row afterwards is the new one, or was there before. -/
theorem mem_cases (h : Moves closes now new db db') {b : OperatorRow} (hb : b ∈ db'.operators) :
    b ∈ new ∨ ∃ a ∈ db.operators, a.Later b ∧ (b.revokedAt = none → closes a = false ∧ b = a) := by
  rw [h.rows, List.mem_append, mem_updateWhere] at hb
  rcases hb with ⟨a, ha, rfl⟩ | hb
  · refine .inr ⟨a, ha, ?_, fun hnone => ?_⟩
    · split
      · next hc =>
        rw [Bool.and_eq_true, Option.isNone_iff_eq_none] at hc
        exact .inr ⟨hc.2, now, rfl⟩
      · exact .inl rfl
    · split at hnone
      · cases hnone
      · next hc =>
        rw [if_neg hc]
        refine ⟨?_, rfl⟩
        rw [Bool.and_eq_true, Option.isNone_iff_eq_none] at hc
        exact Bool.eq_false_iff.mpr fun hcl => hc ⟨hcl, hnone⟩
  · exact .inl (by simpa using hb)

/-- Only assignments of that kind end. -/
theorem ends (h : Moves closes now new db db') {a : OperatorRow} (he : Ends a db db') : closes a = true := by
  obtain ⟨ha, hnone, hgone⟩ := he
  by_contra hc
  refine hgone ?_
  rw [h.rows, List.mem_append, mem_updateWhere]
  exact .inl ⟨a, ha, if_neg fun hb => hc (Bool.and_eq_true_iff.mp hb).1⟩

/-- Every assignment of that kind that is in force ends. -/
theorem ends_of (h : Moves closes now new db db') (hs : Seats db) {a : OperatorRow} (ha : a ∈ db.operators)
    (hnone : a.revokedAt = none) (hc : closes a = true) : Ends a db db' := by
  refine ⟨ha, hnone, fun hmem => ?_⟩
  rcases h.mem_cases hmem with hnew | ⟨b, hb, hl, hfalse⟩
  · exact absurd (hs.numbered a ha) (Nat.not_le.mpr (h.fresh a hnew).1)
  · obtain ⟨hcb, rfl⟩ := hfalse hnone
    exact absurd (hc.symm.trans hcb) (by decide)

theorem seats (h : Moves closes now new db db') (hs : Seats db) : Seats db' := by
  have hids : ∀ rows : List OperatorRow, (updateWhere (fun a => closes a && a.revokedAt.isNone)
      (fun a => { a with revokedAt := some now }) rows).map OperatorRow.id = rows.map OperatorRow.id := by
    intro rows
    unfold updateWhere
    rw [List.map_map]
    refine List.map_congr_left fun a _ => ?_
    dsimp only [Function.comp]
    split <;> rfl
  refine ⟨?_, fun b hb => ?_, fun a ha b hb hroom hna hnb => ?_⟩
  · rw [h.rows, List.map_append, hids, List.nodup_append]
    refine ⟨hs.unique, ?_, fun i hi j hj hij => ?_⟩
    · cases new with
      | none => exact List.nodup_nil
      | some a => exact List.nodup_singleton _
    · obtain ⟨a, ha, rfl⟩ := List.mem_map.mp hi
      obtain ⟨b, hb, rfl⟩ := List.mem_map.mp hj
      have hlt := (h.fresh b (by simpa using hb)).1
      exact absurd (hs.numbered a ha) (Nat.not_le.mpr (hij ▸ hlt))
  · rcases h.mem_cases hb with hnew | ⟨a, ha, hl, -⟩
    · exact (h.fresh b hnew).2.1
    · have hid : b.id = a.id := (congrArg OperatorRow.id hl.made :)
      exact hid.trans_le ((hs.numbered a ha).trans h.seq)
  · rcases h.mem_cases ha with hnewa | ⟨a', ha', -, ha''⟩
    · rcases h.mem_cases hb with hnewb | ⟨b', hb', -, hb''⟩
      · exact Option.mem_unique hnewa hnewb
      · obtain ⟨hcb, rfl⟩ := hb'' hnb
        exact absurd ((h.alone a hnewa b hb' hroom.symm hnb).symm.trans hcb) (by decide)
    · obtain ⟨hca, rfl⟩ := ha'' hna
      rcases h.mem_cases hb with hnewb | ⟨b', hb', -, hb''⟩
      · exact absurd ((h.alone b hnewb a ha' hroom hna).symm.trans hca) (by decide)
      · obtain ⟨-, rfl⟩ := hb'' hnb
        exact hs.single a ha' b hb' hroom hna hnb

end Moves

/-! ## The transactions -/

section Transactions

variable {cfg : Config} {env : Env} {room target appointer : String} {role : BuildingRole} {now : Nat} {db db' : Db}

theorem validateTarget_human {u : Unit} (h : validateTarget target db = .ok u) : EnabledHuman target db := by
  simp only [validateTarget, bind_ok, found_ok, require_ok] at h
  obtain ⟨p, hp, hk⟩ := h
  exact ⟨p, hp, hk⟩

theorem validateAppointer_role (h : validateAppointer appointer db = .ok role) :
    ∃ p, activePrincipal appointer db = some p ∧ p.buildingRole = role := by
  simp only [validateAppointer, bind_ok, found_ok, pure_ok] at h
  obtain ⟨p, hp, -, -, hrole⟩ := h
  exact ⟨p, hp, hrole⟩

theorem locaOperator_mem {a : OperatorRow} (h : locaOperator room db = some a) :
    a ∈ db.operators ∧ a.room = room ∧ a.revokedAt = none := by
  have hp := List.find?_some h
  simp only [Bool.and_eq_true, decide_eq_true_eq, Option.isNone_iff_eq_none] at hp
  exact ⟨List.mem_of_find?_eq_some h, hp.1.1, hp.1.2⟩

/-- The assignment that is put into an empty seat. -/
def newAssignment (room principal appointer : String) (role : BuildingRole) (now : Nat) (db : Db) : OperatorRow :=
  ⟨db.operatorSeq + 1, room, principal, appointer, role, now, none⟩

theorem insertAssignment_principals (h : insertAssignment room target appointer role now db = .ok db') :
    db'.principals = db.principals := by
  simp only [insertAssignment, bind_ok, require_ok, pure_ok, exists_const] at h
  obtain ⟨-, rfl⟩ := h
  rfl

/-- Those in force in the room end first, if the caller ends them. -/
theorem insertAssignment_moves {closes : OperatorRow → Bool} {mid : Db}
    (hmid : mid.operators = updateWhere (fun a => closes a && a.revokedAt.isNone)
      (fun a => { a with revokedAt := some now }) db.operators)
    (hseq : mid.operatorSeq = db.operatorSeq)
    (halone : ∀ b ∈ db.operators, b.room = room → b.revokedAt = none → closes b = true)
    (hhuman : EnabledHuman target db) (h : insertAssignment room target appointer role now mid = .ok db') :
    Moves closes now (some (newAssignment room target appointer role now db)) db db' := by
  simp only [insertAssignment, bind_ok, require_ok, pure_ok, exists_const] at h
  obtain ⟨-, rfl⟩ := h
  constructor
  · show mid.operators ++ [_] = _
    rw [hmid, hseq]
    rfl
  · exact hseq ▸ Nat.le_succ _
  · rintro a ⟨⟩
    exact ⟨Nat.lt_succ_self _, hseq ▸ le_refl _, rfl⟩
  · rintro a ⟨⟩
    exact halone
  · rintro a ⟨⟩
    exact hhuman

/-- With nobody in the seat the table is as it was. -/
theorem updateWhere_none {closes : OperatorRow → Bool} {rows : List OperatorRow}
    (h : ∀ a ∈ rows, closes a = true → a.revokedAt.isSome) :
    updateWhere (fun a => closes a && a.revokedAt.isNone) (fun a => { a with revokedAt := some now }) rows = rows := by
  unfold updateWhere
  refine (List.map_congr_left fun a ha => ?_).trans (List.map_id rows)
  refine if_neg fun hc => ?_
  rw [Bool.and_eq_true, Option.isNone_iff_eq_none] at hc
  have hsome := h a ha hc.1
  rw [hc.2] at hsome
  cases hsome

/-- An appointment: the seat is the target's already, or it is made the target's; a Smaster makes it
only when it is empty. -/
theorem appointLocaOperator_moves (h : appointLocaOperator room target appointer now db = .ok db') :
    (db' = db ∧ ∃ current, locaOperator room db = some current ∧ current.principalId = target) ∨
    ∃ p, activePrincipal appointer db = some p ∧
      (∀ current, locaOperator room db = some current → current.principalId ≠ target) ∧ db'.principals = db.principals ∧
      Moves (fun b => decide (p.buildingRole ≠ .smaster) && decide (b.room = room)) now
        (some (newAssignment room target appointer p.buildingRole now db)) db db' := by
  simp only [appointLocaOperator, bind_ok] at h
  obtain ⟨_, htarget, role, hrole, h⟩ := h
  have hhuman := validateTarget_human htarget
  obtain ⟨p, hp, rfl⟩ := validateAppointer_role hrole
  split at h
  · next hcur =>
    have hended : ∀ b ∈ db.operators, b.room = room → b.revokedAt.isSome := by
      simp only [insertAssignment, bind_ok, require_ok, exists_const] at h
      exact h.1
    refine .inr ⟨p, hp, fun current h => (by rw [hcur] at h; cases h), (insertAssignment_principals h :), ?_⟩
    refine insertAssignment_moves ?_ (by rfl) (fun b hb hroom hnone => ?_) hhuman h
    · refine (updateWhere_none fun b hb hc => hended b hb ?_).symm
      simpa using (Bool.and_eq_true_iff.mp hc).2
    · have hsome := hended b hb hroom
      rw [hnone] at hsome
      cases hsome
  · next current hcur =>
    split at h
    · next hsame =>
      cases h
      exact .inl ⟨rfl, current, hcur, hsame⟩
    · next hother =>
      simp only [bind_ok, require_ok, exists_const] at h
      obtain ⟨hsm, h⟩ := h
      refine .inr ⟨p, hp, fun c hc => (Option.some.inj (hcur.symm.trans hc)) ▸ hother,
        (insertAssignment_principals h :), ?_⟩
      refine insertAssignment_moves ?_ (by rfl) (fun b hb hroom hnone => ?_) hhuman h
      · simp [hsm]
      · simp [hsm, hroom]

theorem createRoomWithOperator_moves {settings : RoomSettings} {founder : String}
    (h : createRoomWithOperator room settings founder now db = .ok db') :
    db'.principals = db.principals ∧ ∃ new, Moves (fun _ => false) now (some new) db db' := by
  simp only [createRoomWithOperator, bind_ok, require_ok, exists_const] at h
  obtain ⟨_, htarget, role, -, -, db₁, h₁, h⟩ := h
  rw [mapError_ok] at h₁
  obtain ⟨-, rfl⟩ := writeRoomState_ok.mp h₁
  have hended : ∀ b ∈ db.operators, b.room = room → b.revokedAt.isSome := by
    simp only [insertAssignment, bind_ok, require_ok, exists_const] at h
    exact h.1
  refine ⟨(insertAssignment_principals h :), _, insertAssignment_moves ?_ (by rfl) (fun b hb hroom hnone => ?_) (validateTarget_human htarget) h⟩
  · exact (updateWhere_none fun b _ hc => by cases hc).symm
  · have hsome := hended b hb hroom
    rw [hnone] at hsome
    cases hsome

/-- Revoking ends the assignments in force for the principal that is expected. -/
theorem revokeLocaOperator_moves {expected : String} {a : OperatorRow}
    (h : revokeLocaOperator room expected now db = .ok (a, db')) :
    db'.principals = db.principals ∧
      Moves (fun b => decide (b.room = room) && decide (b.principalId = expected)) now none db db' := by
  simp only [revokeLocaOperator, bind_ok, found_ok, require_ok, pure_ok, exists_const, Prod.mk.injEq] at h
  obtain ⟨-, -, -, -, -, rfl⟩ := h
  refine ⟨rfl, (List.append_nil _).symm, le_refl _, fun a ha => (by cases ha), fun a ha => (by cases ha),
    fun a ha => (by cases ha)⟩

/-- Whoever is found in the seat is the only one, so a revoke for that principal goes through. -/
theorem revokeLocaOperator_ok {a : OperatorRow} (hs : Seats db) (h : locaOperator room db = some a) :
    ∃ db', revokeLocaOperator room a.principalId now db = .ok ({ a with revokedAt := some now }, db') := by
  obtain ⟨ha, hroom, hnone⟩ := locaOperator_mem h
  have hone : (db.operators.filter fun b => b.room = room && b.principalId = a.principalId && b.revokedAt.isNone) = [a] := by
    have hnd : (db.operators.filter fun b =>
        b.room = room && b.principalId = a.principalId && b.revokedAt.isNone).Nodup :=
      (List.Nodup.of_map _ hs.unique).filter _
    have hmem : ∀ b, b ∈ (db.operators.filter fun b =>
        b.room = room && b.principalId = a.principalId && b.revokedAt.isNone) ↔ b ∈ [a] := by
      intro b
      rw [List.mem_filter, List.mem_singleton]
      simp only [Bool.and_eq_true, decide_eq_true_eq, Option.isNone_iff_eq_none]
      constructor
      · rintro ⟨hb, ⟨hbr, -⟩, hbn⟩
        exact hs.single b hb a ha (hbr.trans hroom.symm) hbn hnone
      · rintro rfl
        exact ⟨ha, ⟨hroom, rfl⟩, hnone⟩
    exact List.perm_singleton.mp ((List.perm_ext_iff_of_nodup hnd (List.nodup_singleton a)).mpr hmem)
  refine ⟨{ db with
      operators := updateWhere (fun b => b.room = room && b.principalId = a.principalId && b.revokedAt.isNone)
        (fun b => { b with revokedAt := some now }) db.operators }, ?_⟩
  unfold revokeLocaOperator
  refine bind_ok.mpr ⟨a, found_ok.mpr h, bind_ok.mpr ⟨(), require_ok.mpr rfl, bind_ok.mpr ⟨(), require_ok.mpr ?_, rfl⟩⟩⟩
  rw [hone]
  rfl

theorem operatorTransaction_db (tx : Db → Except LocaOperatorError (OperatorRow × Db)) (w : World) :
    (operatorTransaction cfg env tx w).2.db = w.db ∨
      ∃ a db', tx w.db = .ok (a, db') ∧ env.fails .write = false ∧
        operatorTransaction cfg env tx w = (.ok a, w.setDb db') := by
  unfold operatorTransaction
  split
  · next hw =>
    split
    · exact .inl rfl
    · next a db' h => exact .inr ⟨a, db', h, hw.2, rfl⟩
  · exact .inl rfl

theorem createLoca_moves (actor : RequestAuthority) (clock : Nat) (w : World) :
    (createLoca cfg env room actor clock w).2.db.principals = w.db.principals ∧
      ∃ new, Moves (fun _ => false) env.now new w.db (createLoca cfg env room actor clock w).2.db := by
  have hstill : w.db.principals = w.db.principals ∧ ∃ new, Moves (fun _ => false) env.now new w.db w.db :=
    ⟨rfl, none, .still env.now rfl rfl⟩
  unfold createLoca
  split
  · exact hstill
  · split
    · exact hstill
    · split
      · exact hstill
      · split
        · exact hstill
        · next db hdb =>
          show db.principals = _ ∧ ∃ new, Moves _ _ new w.db db
          unfold foundRoom at hdb
          split at hdb
          · simp only [bind_ok, found_ok, require_ok, exists_const] at hdb
            obtain ⟨founder, -, -, hdb⟩ := hdb
            rw [mapError_ok] at hdb
            obtain ⟨hp, new, hmoves⟩ := createRoomWithOperator_moves hdb
            exact ⟨hp, some new, hmoves⟩
          · rw [mapError_ok] at hdb
            rcases commit_ok.mp hdb with ⟨-, -, hs⟩ | ⟨-, rfl⟩
            · obtain ⟨-, rfl⟩ := saveRoom_ok hs
              exact ⟨rfl, none, .still env.now rfl rfl⟩
            · exact hstill

end Transactions

/-! ## The office at work -/

/-- The assignment was made by this Smaster. -/
def MadeBy (actor : RequestAuthority) (a : OperatorRow) : Prop :=
  a.appointedByRole = .smaster ∧ actor.principalId = some a.appointedByPrincipalId

/-- Whose request takes a step. -/
def Office.actor (s : Office) : OfficeInput → Option RequestAuthority
  | .advance _ _ k => s.errands[k]?.map Errand.actor
  | _ => none

/-- A Smaster's revoke is about to be written, and the principal it read about is in the seat by
another assignment than the one it read, which somebody else has made. -/
def Overtaken (s : Office) : OfficeInput → Prop
  | .advance env _ k => ∃ actor room current a, s.errands[k]? = some ⟨actor, .revoke room, some current⟩ ∧
      actor.buildingRole = some .smaster ∧ env.fails .write = false ∧ locaOperator room s.world.db = some a ∧
      a.id ≠ current.id ∧ a.principalId = current.principalId ∧ ¬ MadeBy actor a
  | _ => False

/-- A Smaster's step ends none but its own assignments. -/
def Respects (cfg : Config) (s : Office) (i : OfficeInput) : Prop :=
  ∀ actor, s.actor i = some actor → actor.buildingRole = some .smaster →
    ∀ a, Ends a s.world.db (s.step cfg i).2.world.db → MadeBy actor a

/-- Principals keep their rows and roles. -/
def SamePeople (db db' : Db) : Prop :=
  ∀ p ∈ db.principals, ∃ p' ∈ db'.principals, p'.id = p.id ∧ p'.buildingRole = p.buildingRole

/-- The tables have their keys, and what a request holds is true of them: its actor is a principal with
this role, and a Smaster's revoke has read an assignment of the Smaster's own. -/
structure Tidy (s : Office) : Prop where
  seats : Seats s.world.db
  people : (s.world.db.principals.map PrincipalRow.id).Nodup
  actors : ∀ e ∈ s.errands, ∀ id, e.actor.principalId = some id →
    ∃ p ∈ s.world.db.principals, p.id = id ∧ e.actor.buildingRole = some p.buildingRole
  readings : ∀ e ∈ s.errands, ∀ current, e.read = some current → e.actor.buildingRole = some .smaster →
    MadeBy e.actor current ∧ ∃ b ∈ s.world.db.operators, b.made = current.made

theorem admin_ok {actor : RequestAuthority} {id : String} (h : actor.admin = .ok id) :
    actor.isBuildingAdmin = true ∧ actor.principalId = some id := by
  simp only [RequestAuthority.admin, bind_ok, require_ok, found_ok, exists_const] at h
  exact h

theorem activePrincipal_mem {id : String} {p : PrincipalRow} {db : Db} (h : activePrincipal id db = some p) :
    p ∈ db.principals ∧ p.id = id := by
  have hp := List.find?_some h
  exact ⟨List.mem_of_find?_eq_some h, by simpa using (Bool.and_eq_true_iff.mp hp).1⟩

namespace SamePeople

variable {db db' : Db}

theorem of_eq (h : db'.principals = db.principals) : SamePeople db db' := fun p hp => ⟨p, h ▸ hp, rfl, rfl⟩

theorem apply (change : PeopleChange) (hnd : (db.principals.map PrincipalRow.id).Nodup) :
    (∀ p ∈ db.principals, ∃ p' ∈ change.apply db, p'.id = p.id ∧ p'.buildingRole = p.buildingRole) ∧
      ((change.apply db).map PrincipalRow.id).Nodup := by
  have hupdate : ∀ (q : PrincipalRow → Bool) (t : Option Nat),
      (∀ p ∈ db.principals, ∃ p' ∈ updateWhere q (fun p => { p with disabledAt := t }) db.principals,
        p'.id = p.id ∧ p'.buildingRole = p.buildingRole) ∧
      ((updateWhere q (fun p => { p with disabledAt := t }) db.principals).map PrincipalRow.id).Nodup := by
    intro q t
    constructor
    · intro p hp
      refine ⟨_, mem_updateWhere.mpr ⟨p, hp, rfl⟩, ?_⟩
      split
      · exact ⟨rfl, rfl⟩
      · exact ⟨rfl, rfl⟩
    · have hids : (updateWhere q (fun p => { p with disabledAt := t }) db.principals).map PrincipalRow.id =
          db.principals.map PrincipalRow.id := by
        unfold updateWhere
        rw [List.map_map]
        refine List.map_congr_left fun p _ => ?_
        dsimp only [Function.comp]
        split <;> rfl
      rwa [hids]
  cases change with
  | enroll p =>
      unfold PeopleChange.apply insertIgnore
      dsimp only
      split
      · exact ⟨fun q hq => ⟨q, hq, rfl, rfl⟩, hnd⟩
      · split
        · exact ⟨fun q hq => ⟨q, hq, rfl, rfl⟩, hnd⟩
        · next hkey =>
          refine ⟨fun q hq => ⟨q, List.mem_append_left _ hq, rfl, rfl⟩, ?_⟩
          rw [List.map_append, List.map_singleton, List.nodup_append]
          refine ⟨hnd, List.nodup_singleton _, fun i hi j hj hij => ?_⟩
          obtain ⟨q, hq, rfl⟩ := List.mem_map.mp hi
          exact hasKey_false.mp (Bool.eq_false_iff.mpr hkey) q hq (hij.trans (List.mem_singleton.mp hj))
  | disable id now => exact hupdate _ _
  | restore id => exact hupdate _ _

end SamePeople

section Steps

variable {cfg : Config} {s : Office}

/-- An active principal with this id has the role the actor was resolved with. -/
theorem Tidy.role_eq (h : Tidy s) {e : Errand} (he : e ∈ s.errands) {id : String} {p : PrincipalRow}
    (hid : e.actor.principalId = some id) (hp : activePrincipal id s.world.db = some p) :
    e.actor.buildingRole = some p.buildingRole := by
  obtain ⟨q, hq, hqid, hrole⟩ := h.actors e he id hid
  obtain ⟨hmem, hpid⟩ := activePrincipal_mem hp
  rw [hrole, eq_of_key h.people hq hmem (hqid.trans hpid.symm)]

/-- What the next step of a request does to the assignments: a Smaster's ends only its own, unless it
is overtaken. -/
theorem Errand.advance_moves (h : Tidy s) {env : Env} {clock k : Nat} {e : Errand} (he : s.errands[k]? = some e) :
    (e.advance cfg env clock s.world).2.2.db.principals = s.world.db.principals ∧
    ∃ closes now new, Moves closes now new s.world.db (e.advance cfg env clock s.world).2.2.db ∧
      (e.actor.buildingRole = some .smaster → ¬ Overtaken s (.advance env clock k) →
        ∀ a ∈ s.world.db.operators, a.revokedAt = none → closes a = true → MadeBy e.actor a) := by
  have hmem : e ∈ s.errands := List.mem_of_getElem? he
  have hstill : ∀ {w : World}, w.db = s.world.db → w.db.principals = s.world.db.principals ∧
      ∃ closes now new, Moves closes now new s.world.db w.db ∧
        (e.actor.buildingRole = some .smaster → ¬ Overtaken s (.advance env clock k) →
          ∀ a ∈ s.world.db.operators, a.revokedAt = none → closes a = true → MadeBy e.actor a) := by
    intro w hw
    rw [hw]
    exact ⟨rfl, _, 0, none, .still 0 rfl rfl, fun _ _ _ _ _ hc => by cases hc⟩
  obtain ⟨actor, request, read⟩ := e
  cases request with
  | create room =>
      obtain ⟨hp, new, hmoves⟩ := @createLoca_moves cfg env room actor clock s.world
      exact ⟨hp, _, env.now, new, hmoves, fun _ _ _ _ _ hc => by cases hc⟩
  | appoint room target =>
      unfold Errand.advance operatorAnswer World.appointLocaOperator
      dsimp only
      split
      · exact hstill rfl
      · next appointer hadmin =>
        rcases @operatorTransaction_db cfg env (appointed room target appointer env.now) s.world with
          hdb | ⟨a, db', htx, -, heq⟩
        · exact hstill hdb
        · rw [heq]
          simp only [appointed, bind_ok, found_ok, pure_ok, Prod.mk.injEq] at htx
          obtain ⟨db₁, happ, _, -, rfl, rfl⟩ := htx
          rcases appointLocaOperator_moves happ with ⟨rfl, -⟩ | ⟨p, hp, -, hprincipals, hmoves⟩
          · exact hstill rfl
          · refine ⟨hprincipals, _, env.now, _, hmoves, fun hsm _ a _ _ hc => ?_⟩
            have hrole := h.role_eq hmem (admin_ok hadmin).2 hp
            rw [hsm] at hrole
            have hne := (Bool.and_eq_true_iff.mp hc).1
            rw [decide_eq_true_eq] at hne
            exact absurd (Option.some.inj hrole).symm hne
  | revoke room =>
      cases read with
      | none =>
          unfold Errand.advance
          dsimp only
          split
          · exact hstill rfl
          · exact hstill rfl
      | some current =>
          unfold Errand.advance operatorAnswer World.writeRevoke
          dsimp only
          rcases @operatorTransaction_db cfg env (revokeLocaOperator room current.principalId env.now) s.world with
            hdb | ⟨b, db', htx, hwrite, heq⟩
          · exact hstill hdb
          · rw [heq]
            obtain ⟨hprincipals, hmoves⟩ := revokeLocaOperator_moves htx
            refine ⟨hprincipals, _, env.now, none, hmoves, fun hsm hnot a ha hnone hc => ?_⟩
            simp only [Bool.and_eq_true, decide_eq_true_eq] at hc
            -- the one in the seat is the one that ends
            have hseat : ∃ x, locaOperator room s.world.db = some x := by
              simp only [revokeLocaOperator, bind_ok, found_ok] at htx
              obtain ⟨x, hx, -⟩ := htx
              exact ⟨x, hx⟩
            obtain ⟨x, hx⟩ := hseat
            obtain ⟨hxm, hxr, hxn⟩ := locaOperator_mem hx
            obtain rfl := h.seats.single x hxm a ha (hxr.trans hc.1.symm) hxn hnone
            obtain ⟨hmade, b, hb, hbmade⟩ := h.readings _ hmem current rfl hsm
            by_cases hid : x.id = current.id
            · have hbid : b.id = x.id := (congrArg OperatorRow.id hbmade :).trans hid.symm
              obtain rfl := eq_of_key h.seats.unique hb ha hbid
              have hrole : b.appointedByRole = current.appointedByRole := (congrArg OperatorRow.appointedByRole hbmade :)
              have hby : b.appointedByPrincipalId = current.appointedByPrincipalId :=
                (congrArg OperatorRow.appointedByPrincipalId hbmade :)
              exact ⟨hrole.trans hmade.1, hmade.2.trans (congrArg some hby.symm)⟩
            · by_contra hother
              exact hnot ⟨actor, room, current, x, he, hsm, hwrite, hx, hid, hc.2, hother⟩

end Steps

section Steps

variable {cfg : Config} {s : Office}

/-- The world changes and what the requests hold stays true; the requests after the step are those
from before, or true of the new world too. -/
theorem Tidy.next (h : Tidy s) {closes : OperatorRow → Bool} {now : Nat} {new : Option OperatorRow} {s' : Office}
    (hmoves : Moves closes now new s.world.db s'.world.db) (hpeople : SamePeople s.world.db s'.world.db)
    (hnd : (s'.world.db.principals.map PrincipalRow.id).Nodup)
    (herrands : ∀ e ∈ s'.errands, e ∈ s.errands ∨
      ((∀ id, e.actor.principalId = some id → ∃ p ∈ s.world.db.principals, p.id = id ∧
        e.actor.buildingRole = some p.buildingRole) ∧
      ∀ current, e.read = some current → e.actor.buildingRole = some .smaster →
        MadeBy e.actor current ∧ current ∈ s.world.db.operators)) : Tidy s' := by
  refine ⟨hmoves.seats h.seats, hnd, fun e he id hid => ?_, fun e he current hread hsm => ?_⟩
  · obtain ⟨p, hp, hpid, hrole⟩ : ∃ p ∈ s.world.db.principals, p.id = id ∧
        e.actor.buildingRole = some p.buildingRole := by
      rcases herrands e he with hold | hnew
      · exact h.actors e hold id hid
      · exact hnew.1 id hid
    obtain ⟨p', hp', hid', hrole'⟩ := hpeople p hp
    exact ⟨p', hp', hid'.trans hpid, hrole.trans (congrArg some hrole'.symm)⟩
  · obtain ⟨hmade, b, hb, hbmade⟩ : MadeBy e.actor current ∧ ∃ b ∈ s.world.db.operators, b.made = current.made := by
      rcases herrands e he with hold | hnew
      · exact h.readings e hold current hread hsm
      · obtain ⟨hmade, hcur⟩ := hnew.2 current hread hsm
        exact ⟨hmade, current, hcur, rfl⟩
    obtain ⟨b', hb', hlater⟩ := hmoves.kept.mem_later hb
    exact ⟨hmade, b', hb', hlater.made.trans hbmade⟩

/-- A Smaster is authorized on an assignment of its own. -/
theorem authorizeRevoke_ok {env : Env} {room : String} {actor : RequestAuthority} {w : World} {current : OperatorRow}
    (h : w.authorizeRevoke cfg env room actor = .ok current) :
    current ∈ w.db.operators ∧ (actor.buildingRole = some .smaster → MadeBy actor current) := by
  simp only [World.authorizeRevoke, bind_ok, found_ok, require_ok, pure_ok, exists_const] at h
  obtain ⟨id, hadmin, cur, hread, hown, rfl⟩ := h
  unfold World.locaOperator at hread
  split at hread
  · refine ⟨(locaOperator_mem hread).1, fun hsm => ?_⟩
    have hboth := not_or.mp fun hor => hown ⟨hsm, hor⟩
    exact ⟨not_not.mp hboth.1, (admin_ok hadmin).2.trans (congrArg some (not_not.mp hboth.2).symm)⟩
  · cases hread

/-- The request that a step leaves behind. -/
theorem Errand.advance_left {env : Env} {clock : Nat} {e e' : Errand} {w : World}
    (h : (e.advance cfg env clock w).2.1 = some e') :
    e'.actor = e.actor ∧ ∃ current, e'.read = some current ∧ current ∈ w.db.operators ∧
      (e.actor.buildingRole = some .smaster → MadeBy e.actor current) := by
  obtain ⟨actor, request, read⟩ := e
  cases request with
  | create room => cases h
  | appoint room target => cases h
  | revoke room =>
      cases read with
      | some current => cases h
      | none =>
          unfold Errand.advance at h
          dsimp only at h
          split at h
          · cases h
          · next current hauth =>
            cases h
            obtain ⟨hcur, hmade⟩ := authorizeRevoke_ok hauth
            exact ⟨rfl, current, rfl, hcur, hmade⟩

/-- One step of the office. -/
theorem Office.step_moves (h : Tidy s) (i : OfficeInput) :
    Tidy (s.step cfg i).2 ∧ ∃ closes now new, Moves closes now new s.world.db (s.step cfg i).2.world.db ∧
      ∀ actor, s.actor i = some actor → actor.buildingRole = some .smaster → ¬ Overtaken s i →
        ∀ a ∈ s.world.db.operators, a.revokedAt = none → closes a = true → MadeBy actor a := by
  have hstill : ∀ {w : World}, w.db.operators = s.world.db.operators → w.db.operatorSeq = s.world.db.operatorSeq →
      Moves (fun _ => false) 0 none s.world.db w.db := fun ho hq => .still 0 ho hq
  cases i with
  | arrive bearer request =>
      refine ⟨h.next (hstill rfl rfl) (.of_eq rfl) h.people fun e he => ?_, _, 0, none, hstill rfl rfl, fun _ ha => by cases ha⟩
      rcases List.mem_append.mp he with he | he
      · exact .inl he
      · rw [List.mem_singleton] at he
        subst he
        refine .inr ⟨fun id hid => ?_, fun _ hread => by cases hread⟩
        cases bearer with
        | unbound role => cases hid
        | principal who =>
            unfold Bearer.authority at hid ⊢
            dsimp only at hid ⊢
            split at hid
            · next p hp =>
              cases hid
              exact ⟨p, (activePrincipal_mem hp).1, rfl, rfl⟩
            · cases hid
  | people change =>
      obtain ⟨hsame, hnd⟩ := SamePeople.apply change h.people
      exact ⟨h.next (hstill rfl rfl) hsame hnd fun e he => .inl he, _, 0, none, hstill rfl rfl, fun _ ha => by cases ha⟩
  | elsewhere w =>
      exact ⟨h.next (hstill rfl rfl) (.of_eq rfl) h.people fun e he => .inl he, _, 0, none, hstill rfl rfl,
        fun _ ha => by cases ha⟩
  | advance env clock k =>
      unfold Office.step Office.actor
      dsimp only
      cases he : s.errands[k]? with
      | none => exact ⟨h, _, 0, none, hstill rfl rfl, fun _ ha => by cases ha⟩
      | some e =>
          have hmem : e ∈ s.errands := List.mem_of_getElem? he
          obtain ⟨hprincipals, closes, now, new, hmoves, howns⟩ := @Errand.advance_moves cfg s h env clock k e he
          refine ⟨?_, closes, now, new, hmoves, fun actor ha => ?_⟩
          · refine h.next hmoves (.of_eq hprincipals) (by rw [hprincipals]; exact h.people) fun e₁ he₁ => ?_
            dsimp only at he₁
            split at he₁
            · next e' hleft =>
              rcases List.mem_or_eq_of_mem_set he₁ with hold | rfl
              · exact .inl hold
              · obtain ⟨hactor, current, hread, hcur, hmade⟩ := Errand.advance_left hleft
                refine .inr ⟨fun id hid => h.actors e hmem id (hactor ▸ hid) |>.imp fun p hp => ?_, fun c hc hsm => ?_⟩
                · exact hactor ▸ hp
                · cases hread.symm.trans hc
                  rw [hactor] at hsm ⊢
                  exact ⟨hmade hsm, hcur⟩
            · exact .inl (List.mem_of_mem_eraseIdx he₁)
          · cases ha
            exact howns

/-- Overtaken, a Smaster's revoke ends what somebody else has made. -/
theorem Overtaken.ends (h : Tidy s) (hp : cfg.persistent = true) {i : OfficeInput} (ho : Overtaken s i) :
    ∃ actor a, s.actor i = some actor ∧ actor.buildingRole = some .smaster ∧
      Ends a s.world.db (s.step cfg i).2.world.db ∧ ¬ MadeBy actor a := by
  cases i with
  | advance env clock k =>
      obtain ⟨actor, room, current, a, he, hsm, hwrite, hseat, -, hsame, hother⟩ := ho
      refine ⟨actor, a, congrArg (Option.map Errand.actor) he, hsm, ?_, hother⟩
      obtain ⟨db', hdb⟩ := @revokeLocaOperator_ok room env.now s.world.db a h.seats hseat
      rw [hsame] at hdb
      obtain ⟨-, hmoves⟩ := revokeLocaOperator_moves hdb
      obtain ⟨ham, har, han⟩ := locaOperator_mem hseat
      have hends := hmoves.ends_of h.seats ham han (by simp [har, hsame])
      have hstep : (s.step cfg (.advance env clock k)).2.world = s.world.setDb db' := by
        unfold Office.step
        dsimp only
        rw [he]
        unfold Errand.advance operatorAnswer World.writeRevoke operatorTransaction
        dsimp only
        rw [if_pos ⟨hp, hwrite⟩, hdb]
      rw [hstep]
      exact hends
  | arrive bearer request => exact ho.elim
  | people change => exact ho.elim
  | elsewhere w => exact ho.elim

/-- A Smaster's step leaves alone what others have made exactly when it is not overtaken. -/
theorem respects_iff (h : Tidy s) (hp : cfg.persistent = true) (i : OfficeInput) :
    Respects cfg s i ↔ ¬ Overtaken s i := by
  constructor
  · intro hr ho
    obtain ⟨actor, a, hactor, hsm, hends, hother⟩ := ho.ends h hp
    exact hother (hr actor hactor hsm a hends)
  · intro hnot actor hactor hsm a hends
    obtain ⟨-, closes, now, new, hmoves, howns⟩ := @Office.step_moves cfg s h i
    exact howns actor hactor hsm hnot a hends.1 hends.2.1 (hmoves.ends hends)

end Steps

/-! ## Runs -/

/-- The office after these inputs. -/
abbrev Office.after (cfg : Config) (s : Office) (is : List OfficeInput) : Office := (officeMachine cfg).after is s

/-- What is to hold of a run: of the state it leads to, of what came before, and of its steps. -/
structure OperatorLaw (cfg : Config) (s : Office) (is : List OfficeInput) : Prop where
  /-- At most one assignment of a loca is in force. -/
  single : ∀ a ∈ (s.after cfg is).world.db.operators, ∀ b ∈ (s.after cfg is).world.db.operators,
    a.room = b.room → a.revokedAt = none → b.revokedAt = none → a = b
  /-- Each was made by a step of the run, for a principal that was an enabled human then. -/
  human : ∀ a ∈ (s.after cfg is).world.db.operators, ∃ pre i, pre ++ [i] <+: is ∧
    EnabledHuman a.principalId (s.after cfg pre).world.db ∧
    (∀ b ∈ (s.after cfg pre).world.db.operators, b.id ≠ a.id) ∧
    a.made ∈ (s.after cfg (pre ++ [i])).world.db.operators
  /-- Rows are not deleted, and only their end is written, once. -/
  kept : ∀ pre, pre <+: is → OnlyEnded (s.after cfg pre).world.db.operators (s.after cfg is).world.db.operators
  /-- Whoever is appointed is in the seat. -/
  seated : ∀ env room target actor a,
    ((s.after cfg is).world.appointLocaOperator cfg env room target actor).1 = .ok a →
    locaOperator room ((s.after cfg is).world.appointLocaOperator cfg env room target actor).2.db = some a ∧
      a.principalId = target
  /-- Appointing who is in the seat adds no row. -/
  repeated : ∀ env room actor current, locaOperator room (s.after cfg is).world.db = some current →
    ((s.after cfg is).world.appointLocaOperator cfg env room current.principalId actor).2.db.operators =
      (s.after cfg is).world.db.operators
  /-- No Smaster ends or replaces what the Master or another Smaster has made. -/
  smasters : ∀ pre i, pre ++ [i] <+: is → Respects cfg (s.after cfg pre) i

section Runs

variable {cfg : Config} {s : Office}

theorem after_concat (is : List OfficeInput) (i : OfficeInput) :
    s.after cfg (is ++ [i]) = ((s.after cfg is).step cfg i).2 :=
  (officeMachine cfg).after_concat is i s

theorem officeInit.tidy (h : officeInit s) : Tidy s := by
  obtain ⟨hnone, hidle, hnd⟩ := h
  constructor
  · constructor
    · rw [hnone]
      exact List.nodup_nil
    · rw [hnone]
      exact fun _ ha => by cases ha
    · rw [hnone]
      exact fun _ ha => by cases ha
  · exact hnd
  · rw [hidle]
    exact fun _ he => by cases he
  · rw [hidle]
    exact fun _ he => by cases he

theorem after_tidy (h : Tidy s) (is : List OfficeInput) : Tidy (s.after cfg is) := by
  induction is using List.reverseRecOn with
  | nil => exact h
  | append_singleton is i ih =>
      rw [after_concat]
      exact (Office.step_moves ih i).1

theorem after_kept (h : Tidy s) (is : List OfficeInput) {pre : List OfficeInput} (hpre : pre <+: is) :
    OnlyEnded (s.after cfg pre).world.db.operators (s.after cfg is).world.db.operators := by
  induction is using List.reverseRecOn with
  | nil =>
      rw [List.prefix_nil.mp hpre]
      exact .refl _
  | append_singleton is i ih =>
      rcases List.prefix_concat_iff.mp hpre with rfl | hpre
      · exact .refl _
      · obtain ⟨-, closes, now, new, hmoves, -⟩ := @Office.step_moves cfg _ (after_tidy h is) i
        rw [after_concat]
        exact (ih hpre).trans hmoves.kept

/-- Every assignment goes back to the step that made it. -/
theorem after_human (h : officeInit s) (is : List OfficeInput) {a : OperatorRow}
    (ha : a ∈ (s.after cfg is).world.db.operators) :
    ∃ pre i, pre ++ [i] <+: is ∧ EnabledHuman a.principalId (s.after cfg pre).world.db ∧
      (∀ b ∈ (s.after cfg pre).world.db.operators, b.id ≠ a.id) ∧
      a.made ∈ (s.after cfg (pre ++ [i])).world.db.operators := by
  induction is using List.reverseRecOn generalizing a with
  | nil =>
      have hnone : a ∈ s.world.db.operators := ha
      rw [h.1] at hnone
      cases hnone
  | append_singleton is i ih =>
      have htidy := @after_tidy cfg s h.tidy is
      obtain ⟨-, closes, now, new, hmoves, -⟩ := @Office.step_moves cfg _ htidy i
      rw [after_concat] at ha
      rcases hmoves.mem_cases ha with hnew | ⟨a', ha', hlater, -⟩
      · obtain ⟨hlt, -, hnone⟩ := hmoves.fresh a hnew
        refine ⟨is, i, List.prefix_refl _, hmoves.human a hnew, fun b hb he => ?_, ?_⟩
        · exact absurd (htidy.seats.numbered b hb) (Nat.not_le.mpr (he ▸ hlt))
        · rw [after_concat, show a.made = a by unfold OperatorRow.made; rw [← hnone]]
          exact ha
      · obtain ⟨pre, j, hpre, hhuman, hfresh, hmade⟩ := ih ha'
        have hid : a.id = a'.id := (congrArg OperatorRow.id hlater.made :)
        have hprincipal : a.principalId = a'.principalId := (congrArg OperatorRow.principalId hlater.made :)
        refine ⟨pre, j, hpre.trans (List.prefix_append _ _), hprincipal ▸ hhuman, ?_, ?_⟩
        · rw [hid]
          exact hfresh
        · rw [hlater.made]
          exact hmade

theorem appoint_seated {env : Env} {room target : String} {actor : RequestAuthority} {a : OperatorRow} {w : World}
    (hs : Seats w.db) (h : (w.appointLocaOperator cfg env room target actor).1 = .ok a) :
    locaOperator room (w.appointLocaOperator cfg env room target actor).2.db = some a ∧ a.principalId = target := by
  unfold World.appointLocaOperator at h ⊢
  split at h
  · cases h
  · next appointer hadmin =>
    unfold operatorTransaction at h ⊢
    split at h
    · next hw =>
      rw [if_pos hw]
      split at h
      · cases h
      · next b db' htx =>
        cases h
        simp only [appointed, bind_ok, found_ok, pure_ok, Prod.mk.injEq] at htx
        obtain ⟨db₁, happ, c, hc, rfl, rfl⟩ := htx
        refine ⟨hc, ?_⟩
        rcases appointLocaOperator_moves happ with ⟨rfl, current, hcur, hsame⟩ | ⟨p, -, -, -, hmoves⟩
        · rw [hc] at hcur
          cases hcur
          exact hsame
        · obtain ⟨hcm, hcr, hcn⟩ := locaOperator_mem hc
          have hnew : newAssignment room target appointer p.buildingRole env.now w.db ∈ db₁.operators := by
            rw [hmoves.rows]
            exact List.mem_append_right _ (List.mem_singleton.mpr rfl)
          rw [(hmoves.seats hs).single c hcm _ hnew hcr hcn rfl]
          rfl
    · cases h

theorem appoint_repeated {env : Env} {room : String} {actor : RequestAuthority} {current : OperatorRow} {w : World}
    (h : locaOperator room w.db = some current) :
    (w.appointLocaOperator cfg env room current.principalId actor).2.db.operators = w.db.operators := by
  unfold World.appointLocaOperator
  split
  · rfl
  · next appointer _ =>
    rcases @operatorTransaction_db cfg env (appointed room current.principalId appointer env.now) w with
      hdb | ⟨a, db', htx, -, heq⟩
    · rw [hdb]
    · rw [heq]
      simp only [appointed, bind_ok, found_ok, pure_ok, Prod.mk.injEq] at htx
      obtain ⟨db₁, happ, _, -, rfl, rfl⟩ := htx
      rcases appointLocaOperator_moves happ with ⟨rfl, -⟩ | ⟨-, -, hother, -⟩
      · rfl
      · exact absurd rfl (hother current h)

/-- From a server without assignments, whatever requests arrive and however their steps fall: a run
obeys the law exactly when no Smaster's revoke in it is overtaken. -/
theorem operator_authority (hp : cfg.persistent = true) (h : officeInit s) (is : List OfficeInput) :
    OperatorLaw cfg s is ↔ ∀ pre i, pre ++ [i] <+: is → ¬ Overtaken (s.after cfg pre) i := by
  have htidy : ∀ pre, Tidy (s.after cfg pre) := after_tidy h.tidy
  constructor
  · exact fun hlaw pre i hpre => (respects_iff (htidy pre) hp i).mp (hlaw.smasters pre i hpre)
  · intro hnot
    constructor
    · exact (htidy is).seats.single
    · exact fun a ha => after_human h is ha
    · exact fun pre hpre => after_kept h.tidy is hpre
    · exact fun env room target actor a hok => appoint_seated (htidy is).seats hok
    · exact fun env room actor current hcur => appoint_repeated hcur
    · exact fun pre i hpre => (respects_iff (htidy pre) hp i).mpr (hnot pre i hpre)

end Runs

/-! ## A revoke that is overtaken -/

/-- The Master, two Smasters and two humans in a Building with one loca. -/
def sampleOffice : Office where
  world := ⟨⟨(∅ : Assoc String Room).put "den" (Room.fresh .free RoomSettings.default 1), [], 1, 0, ∅, ∅, ∅⟩,
    { principals := [⟨"master", "Master", "human", .master, 0, none⟩, ⟨"sera", "Sera", "human", .smaster, 0, none⟩,
        ⟨"sami", "Sami", "human", .smaster, 0, none⟩, ⟨"ann", "Ann", "human", .member, 0, none⟩,
        ⟨"bob", "Bob", "human", .member, 0, none⟩] }, []⟩
  errands := []

/-- One request arrives and takes its only step. -/
def served (bearer : String) (request : OperatorRequest) (now : Nat) : List OfficeInput :=
  [.arrive (.principal bearer) request, .advance (sampleEnv now fun _ => false) now 0]

/-- Sera appoints Ann, the Master puts Bob in her place, Sami's revoke is refused, and the Master
revokes. -/
def orderlyInputs : List OfficeInput :=
  served "sera" (.appoint "den" "ann") 10 ++ served "master" (.appoint "den" "bob") 20 ++
    served "sami" (.revoke "den") 30 ++ served "master" (.revoke "den") 40 ++
    [.advance (sampleEnv 50 fun _ => false) 50 0]

theorem operator_authority_sample :
    ((sampleOffice.after sampleConfig orderlyInputs).world.db.operators.map fun a =>
      (a.principalId, a.appointedByPrincipalId, a.revokedAt)) =
        [("ann", "sera", some 20), ("bob", "master", some 50)] ∧
      (OperatorLaw sampleConfig sampleOffice orderlyInputs ↔ ∀ pre i, pre ++ [i] <+: orderlyInputs →
        ¬ Overtaken (sampleOffice.after sampleConfig pre) i) :=
  ⟨by decide +kernel, operator_authority rfl ⟨rfl, rfl, by decide⟩ orderlyInputs⟩

/-- Sera appoints Ann and is authorized to revoke that; before she does, the Master puts Bob in Ann's
place and then Ann in Bob's. -/
def overtakenInputs : List OfficeInput :=
  served "sera" (.appoint "den" "ann") 10 ++
    [.arrive (.principal "sera") (.revoke "den"), .advance (sampleEnv 20 fun _ => false) 20 0,
      .arrive (.principal "master") (.appoint "den" "bob"), .advance (sampleEnv 30 fun _ => false) 30 1,
      .arrive (.principal "master") (.appoint "den" "ann"), .advance (sampleEnv 40 fun _ => false) 40 1]

/-- Sera's revoke then ends the Master's assignment. -/
theorem smaster_ends_masters_assignment :
    ¬ OperatorLaw sampleConfig sampleOffice (overtakenInputs ++ [.advance (sampleEnv 50 fun _ => false) 50 0]) := by
  intro h
  have hmade := h.smasters overtakenInputs _ (List.prefix_refl _) ⟨some "sera", some .smaster⟩ (by decide +kernel) rfl
    ⟨3, "den", "ann", "master", .master, 40, none⟩
  unfold Ends at hmade
  exact absurd (hmade (by decide +kernel)).1 (by decide)

end Loca
