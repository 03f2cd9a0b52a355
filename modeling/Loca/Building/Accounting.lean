/-
# `Loca.Building.Accounting` — the books of the admission desk balance

Minting, filing, approving, denying, fetching and acknowledging, in any order, by any callers,
at any clock values, with any statement failing, while the rest of the server changes members,
principals and credentials as it likes (`elsewhere`).

`Accounted` is the invariant of the two tables of the desk: as many rights consumed as requests
approved, none at or after its expiry, no request left half approved.  `approveTx_ok` says once
what an approval does, and every law of the desk is read off it.

Two reads decide more than they should.  The name check of an approval asks whether the query
*found* a live member, and a query that failed found none either, so the approval goes on as if
the name were free (`failed_check_duplicates`); a delivery whose read failed answers like a closed
window.  `Answered` is the condition that these two reads are answered.
-/
import Loca.Base.Run
import Loca.Building.Admission

namespace Loca.Building

open Check Table

/-! ## What an approval does -/

section Approval

variable {h : Digests} {env : StoreEnv} {id mb by_ name : String} {db db' : Registry} {m : Membership}

theorem claimRequest_ok (hok : claimRequest env id db = .ok db') :
    (∃ r ∈ db.joinRequests, r.id = id ∧ r.status = .pending) ∧
      db' = { db with
        joinRequests := updateWhere (·.isPending id) (fun r => { r with status := .approving })
          db.joinRequests } := by
  simp only [claimRequest, bind_ok, require_ok, pure_ok, exists_const] at hok
  obtain ⟨-, hany, rfl⟩ := hok
  refine ⟨?_, rfl⟩
  simpa [JoinRequestRow.isPending] using hany

theorem readRequest_ok {r : JoinRequestRow} :
    readRequest env id db = .ok r ↔ env.fails .readRequest = false ∧
      db.joinRequests.find? (fun r => r.id = id) = some r := by
  simp only [readRequest, bind_ok, require_ok, found_ok, exists_const]

theorem checkName_ok {u : Unit} (hs : env.fails .checkName = false) :
    checkName env name db = .ok u ↔ ∀ r ∈ db.members, r.revokedAt = none → r.membership.name ≠ name := by
  simp only [checkName, require_ok, hs, true_and, liveMember, List.any_eq_true, Bool.and_eq_true,
    decide_eq_true_eq, Option.isNone_iff_eq_none, not_exists, not_and]
  exact ⟨fun h r hr hl hn => h r hr hn hl, fun h r hr hn hl => h r hr hl hn⟩

theorem mem_oldestRight {now : Nat} {t : List AdmissionRow} {r : AdmissionRow}
    (h : oldestRight now t = some r) : r ∈ t ∧ r.consumedAt = none ∧ now < r.expiresAt := by
  have hr := List.mem_of_mem_head? h
  rw [mem_orderBy, List.mem_filter] at hr
  simpa [AdmissionRow.available] using hr

theorem consumeRight_ok (hok : consumeRight env name db = .ok db') :
    ∃ right ∈ db.admissionStock, right.consumedAt = none ∧ env.now < right.expiresAt ∧
      db' = { db with
        admissionStock := updateWhere (·.isUnused right.id) (·.consume env.now name)
          db.admissionStock } := by
  simp only [consumeRight, bind_ok, require_ok, found_ok, pure_ok, exists_const] at hok
  obtain ⟨-, right, hr, -, rfl⟩ := hok
  obtain ⟨hmem, hnone, hlt⟩ := mem_oldestRight hr
  exact ⟨right, hmem, hnone, hlt, rfl⟩

theorem enrolMember_ok (hok : enrolMember h env m db = .ok db') :
    (∀ r ∈ db.members, r.membership.token ≠ m.token) ∧
      db' = insertPrincipalCredential h .member m.token m.name m.kind env.now "Member access"
        { db with members := db.members ++ [⟨m, none⟩] } := by
  simp only [enrolMember, bind_ok, require_ok, found_ok, pure_ok, exists_const] at hok
  obtain ⟨-, members, hm, -, rfl⟩ := hok
  obtain ⟨hnew, rfl⟩ := insertNew_eq_some.mp hm
  exact ⟨hnew, rfl⟩

theorem finishRequest_ok (hok : finishRequest env id mb by_ db = .ok db') :
    db' = { db with
      joinRequests := updateWhere (·.isApproving id) (·.approve mb by_ env.now) db.joinRequests } := by
  simp only [finishRequest, bind_ok, require_ok, pure_ok, exists_const] at hok
  exact hok.2.2.symm

/-- With no request half approved before, flipping and finishing is one update. -/
theorem claim_then_finish {t : List JoinRequestRow} (ht : ∀ r ∈ t, r.status ≠ .approving) :
    updateWhere (·.isApproving id) (·.approve mb by_ env.now)
      (updateWhere (·.isPending id) (fun r => { r with status := .approving }) t) =
    updateWhere (·.isPending id) (·.approve mb by_ env.now) t := by
  unfold updateWhere
  rw [List.map_map]
  refine List.map_congr_left fun r hr => ?_
  simp only [Function.comp]
  by_cases hp : r.isPending id = true
  · have hid : r.id = id := by
      simp only [JoinRequestRow.isPending, Bool.and_eq_true, decide_eq_true_eq] at hp
      exact hp.1
    simp [hp, JoinRequestRow.isApproving, JoinRequestRow.approve, hid]
  · have hn : r.isApproving id = false := by simp [JoinRequestRow.isApproving, ht r hr]
    simp [hp, hn]

/-- What an approval found and what it wrote. -/
structure Approval (h : Digests) (env : StoreEnv) (id mb by_ : String) (db db' : Registry)
    (m : Membership) (request : JoinRequestRow) (right : AdmissionRow) : Prop where
  request_mem : request ∈ db.joinRequests
  request_id : request.id = id
  pending : request.status = .pending
  member : m = ⟨mb, request.name, request.kind, env.now, by_⟩
  name_free : env.fails .checkName = false →
    ∀ r ∈ db.members, r.revokedAt = none → r.membership.name ≠ request.name
  right_mem : right ∈ db.admissionStock
  unused : right.consumedAt = none
  in_time : env.now < right.expiresAt
  result : db' = insertPrincipalCredential h .member mb request.name request.kind env.now "Member access"
    { db with
      members := db.members ++ [⟨m, none⟩]
      admissionStock := updateWhere (·.isUnused right.id) (·.consume env.now request.name)
        db.admissionStock
      joinRequests := updateWhere (·.isPending id) (·.approve mb by_ env.now) db.joinRequests }

/-- The one row with the id is the pending one, so the request read back is the one claimed. -/
theorem readRequest_claimed {t : List JoinRequestRow} {r r' : JoinRequestRow}
    (hkey : (t.map JoinRequestRow.id).Nodup) (hr : r ∈ t) (hid : r.id = id) (hp : r.status = .pending)
    (hfind : (updateWhere (·.isPending id) (fun r => { r with status := .approving }) t).find?
      (fun r => r.id = id) = some r') : r' = { r with status := .approving } := by
  have hmem := List.mem_of_find?_eq_some hfind
  have hid' : r'.id = id := by simpa using List.find?_some hfind
  obtain ⟨x, hx, rfl⟩ := mem_updateWhere.mp hmem
  have hxid : x.id = id := by
    split at hid'
    · exact hid'
    · exact hid'
  obtain rfl : x = r := eq_of_key hkey hx hr (hxid.trans hid.symm)
  simp [JoinRequestRow.isPending, hid, hp]

theorem approveTx_ok (hkey : (db.joinRequests.map JoinRequestRow.id).Nodup)
    (hsettled : ∀ r ∈ db.joinRequests, r.status ≠ .approving)
    (hok : approveTx h env id mb by_ db = .ok (m, db')) :
    ∃ request right, Approval h env id mb by_ db db' m request right := by
  simp only [approveTx, bind_ok, require_ok, pure_ok, exists_const, Prod.mk.injEq] at hok
  obtain ⟨-, db₁, h₁, r', h₂, _, h₃, db₂, h₄, db₃, h₅, db₄, h₆, -, rfl, rfl⟩ := hok
  obtain ⟨⟨request, hmem, hid, hp⟩, rfl⟩ := claimRequest_ok h₁
  obtain rfl := readRequest_claimed hkey hmem hid hp (readRequest_ok.mp h₂).2
  obtain ⟨right, hright, hunused, htime, rfl⟩ := consumeRight_ok h₄
  obtain ⟨-, rfl⟩ := enrolMember_ok h₅
  obtain rfl := finishRequest_ok h₆
  refine ⟨request, right, hmem, hid, hp, rfl, fun hs => (checkName_ok hs).mp h₃, hright, hunused, htime, ?_⟩
  simp only [insertPrincipalCredential, claim_then_finish hsettled]

end Approval

/-! ## The desk -/

/-- `issued` is the history of the `mb_` tokens drawn; the server does not look at it. -/
structure Desk where
  db : Registry
  issued : List String

inductive DeskInput
  | mint (env : StoreEnv) (ids : List String) (ttl : Nat)
  | create (env : StoreEnv) (id secret name kind : String)
  | approve (env : StoreEnv) (id mb by_ : String)
  | deny (env : StoreEnv) (id by_ : String)
  | bootstrap (env : StoreEnv) (id secret : String)
  | ack (env : StoreEnv) (id secret : String)
  /-- The rest of the server. -/
  | elsewhere (members : List MemberRow) (principals : List PrincipalRow)
      (credentials : List CredentialRow)

inductive Approve | approved | alreadyDecided | nameTaken | noStock | failed
  deriving DecidableEq, Repr

def ApproveTxn.toApprove : ApproveTxn → Approve
  | .committed _ => .approved
  | .alreadyDecided => .alreadyDecided
  | .nameTaken => .nameTaken
  | .noStock => .noStock
  | .failed => .failed

inductive DeskAnswer
  | minted (counts : Nat × Nat × Nat)
  | created (stored : Bool)
  | decided (result : Approve)
  | denied (done : Bool)
  | davet (mb : Option String)
  | acked (result : Option Bool)
  | nothing
  deriving DecidableEq, Repr

theorem ApproveExit.toApprove_ne (e : ApproveExit) : e.txn.toApprove ≠ .approved := by
  cases e <;> simp [ApproveExit.txn, ApproveTxn.toApprove]

def approveJoinRequest (h : Digests) (env : StoreEnv) (id mb by_ : String) (db : Registry) :
    Approve × Registry :=
  ((approveJoinRequestAtomic h env id mb by_ db).1.toApprove,
    (approveJoinRequestAtomic h env id mb by_ db).2)

namespace Desk

def step (h : Digests) (s : Desk) : DeskInput → DeskAnswer × Desk
  | .mint env ids ttl =>
      let r := mintAdmissionStock env ids ttl s.db
      (.minted r.1, { s with db := r.2 })
  | .create env id secret name kind =>
      match createJoinRequest h env id secret name kind s.db with
      | none => (.created false, s)
      | some db => (.created true, { s with db := db })
  | .approve env id mb by_ =>
      let r := approveJoinRequest h env id mb by_ s.db
      (.decided r.1, ⟨r.2, mb :: s.issued⟩)
  | .deny env id by_ =>
      let r := denyJoinRequest env id by_ s.db
      (.denied r.1, { s with db := r.2 })
  | .bootstrap env id secret =>
      let r := claimJoinRequestBootstrap h env id secret s.db
      (.davet r.1, { s with db := r.2 })
  | .ack env id secret =>
      let r := ackJoinRequestBootstrap h env id secret s.db
      (.acked r.1, { s with db := r.2 })
  | .elsewhere members principals credentials =>
      (.nothing, { s with
        db := { s.db with members := members, principals := principals, credentials := credentials } })

end Desk

/-- A new store; whoever belongs to the building already is there. -/
def desk (h : Digests) : Sys.Machine Desk DeskInput DeskAnswer where
  init s := s.db.admissionStock = [] ∧ s.db.joinRequests = [] ∧ s.issued = []
  step := Desk.step h

/-- The operating system never draws a token twice, nor one whose digests are in use. -/
def Fresh (h : Digests) (s : Desk) : DeskInput → Prop
  | .approve env _ mb _ => mb ∉ s.issued ∧
      (∀ p ∈ s.db.principals, p.id ≠ h.hashedId "pr_" (identityText .member mb)) ∧
      ∀ c ∈ s.db.credentials, (credentialRow h .member mb env.now "Member access").clashes c = false
  | _ => True

/-- The name check of an approval and the read of a delivery do not fail. -/
def Answered : DeskInput → Prop
  | .approve env _ _ _ => env.fails .checkName = false
  | .bootstrap env _ _ => env.fails .readToken = false
  | _ => True

def Heeded (h : Digests) (s : Desk) (i : DeskInput) : Prop := Fresh h s i ∧ Answered i

/-! ## The invariant -/

structure Accounted (db : Registry) : Prop where
  rights : (db.admissionStock.map AdmissionRow.id).Nodup
  requests : (db.joinRequests.map JoinRequestRow.id).Nodup
  balanced : db.admissionStock.countP (fun r => r.consumedAt.isSome) =
    db.joinRequests.countP (fun r => r.status = .approved)
  unexpired : ∀ r ∈ db.admissionStock, ∀ t, r.consumedAt = some t → t < r.expiresAt
  settled : ∀ r ∈ db.joinRequests, r.status ≠ .approving

/-- The requests may be updated as long as no request changes its number or whether it is
approved or half approved. -/
theorem Accounted.relabel {db : Registry} (hd : Accounted db) {p : JoinRequestRow → Bool}
    {f : JoinRequestRow → JoinRequestRow} (hid : ∀ r, (f r).id = r.id)
    (hst : ∀ r, p r = true → ((f r).status = .approved ↔ r.status = .approved) ∧
      ((f r).status = .approving → r.status = .approving)) :
    Accounted { db with joinRequests := updateWhere p f db.joinRequests } where
  rights := hd.rights
  requests := nodup_updateWhere hid hd.requests
  balanced := by
    rw [hd.balanced]
    simp only [updateWhere, List.countP_map]
    refine List.countP_congr fun r _ => ?_
    by_cases hp : p r = true
    · simp [hp, (hst r hp).1]
    · simp [hp]
  unexpired := hd.unexpired
  settled := by
    intro r hr
    obtain ⟨x, hx, rfl⟩ := mem_updateWhere.mp hr
    split
    · next hp => exact fun h => hd.settled x hx ((hst x hp).2 h)
    · exact hd.settled x hx

theorem Accounted.elsewhere {db : Registry} (hd : Accounted db) (db' : Registry)
    (hs : db'.admissionStock = db.admissionStock) (hj : db'.joinRequests = db.joinRequests) :
    Accounted db' := by
  obtain ⟨h₁, h₂, h₃, h₄, h₅⟩ := hd
  constructor
  · rwa [hs]
  · rwa [hj]
  · rwa [hs, hj]
  · rwa [hs]
  · rwa [hj]

section Steps

variable {h : Digests} {env : StoreEnv} {id secret mb by_ name kind : String} {db db' : Registry}

/-- A batch adds unused rights with new numbers. -/
theorem mintAdmissionRights_some {ids : List String} {mintedBy : String} {expiresAt n : Nat}
    (hm : mintAdmissionRights env ids mintedBy expiresAt db = some (n, db')) :
    ∃ new : List AdmissionRow, (∀ r ∈ new, r.consumedAt = none) ∧
      db' = { db with admissionStock := db.admissionStock ++ new } ∧
      ((db.admissionStock.map AdmissionRow.id).Nodup →
        ((db.admissionStock ++ new).map AdmissionRow.id).Nodup) := by
  simp only [mintAdmissionRights, Option.bind_eq_bind, Option.bind_eq_some_iff, Option.pure_def,
    Option.some.injEq, Prod.mk.injEq] at hm
  obtain ⟨-, -, stock, hstock, -, rfl⟩ := hm
  suffices hgen : ∃ new : List AdmissionRow, (∀ r ∈ new, r.consumedAt = none) ∧
      stock = db.admissionStock ++ new ∧ ((db.admissionStock.map AdmissionRow.id).Nodup →
        ((db.admissionStock ++ new).map AdmissionRow.id).Nodup) by
    obtain ⟨new, hnew, rfl, hnd⟩ := hgen
    exact ⟨new, hnew, rfl, hnd⟩
  -- each turn of the loop adds one right
  generalize db.admissionStock = t at hstock ⊢
  induction ids generalizing t with
  | nil =>
      obtain rfl : t = stock := by simpa using hstock
      exact ⟨[], by simp, by simp, by simp⟩
  | cons i ids ih =>
      simp only [List.foldlM_cons, Option.bind_eq_bind, Option.bind_eq_some_iff] at hstock
      obtain ⟨t₁, ⟨-, -, hins⟩, hrest⟩ := hstock
      obtain ⟨hnew, rfl⟩ := insertNew_eq_some.mp hins
      obtain ⟨new, hnone, rfl, hnd⟩ := ih _ hrest
      refine ⟨_ :: new, ?_, by rw [List.append_assoc]; rfl, ?_⟩
      · intro r hr
        rcases List.mem_cons.mp hr with rfl | hr
        · rfl
        · exact hnone r hr
      · intro ht
        have := hnd (nodup_append_new ht hnew)
        rwa [List.append_assoc] at this

theorem mintAdmissionStock_requests {ids : List String} {ttl : Nat} :
    (mintAdmissionStock env ids ttl db).2.joinRequests = db.joinRequests := by
  unfold mintAdmissionStock
  split
  · rfl
  · next hm =>
      obtain ⟨new, -, rfl, -⟩ := mintAdmissionRights_some hm
      rfl

theorem mintAdmissionStock_accounted {ids : List String} {ttl : Nat} (hd : Accounted db) :
    Accounted (mintAdmissionStock env ids ttl db).2 := by
  unfold mintAdmissionStock
  split
  · exact hd
  · next hm =>
      obtain ⟨new, hnone, rfl, hnd⟩ := mintAdmissionRights_some hm
      refine ⟨hnd hd.rights, hd.requests, ?_, ?_, hd.settled⟩
      · rw [← hd.balanced, List.countP_append]
        have hz : new.countP (fun r => r.consumedAt.isSome) = 0 :=
          List.countP_eq_zero.mpr fun r hr => by simp [hnone r hr]
        omega
      · intro r hr t ht
        rcases List.mem_append.mp hr with hr | hr
        · exact hd.unexpired r hr t ht
        · rw [hnone r hr] at ht; cases ht

theorem createJoinRequest_some (hc : createJoinRequest h env id secret name kind db = some db') :
    (∀ x ∈ db.joinRequests, x.id ≠ id) ∧ db' = { db with
      joinRequests := db.joinRequests ++ [filedRow h id secret name kind env.now] } := by
  simp only [createJoinRequest, Option.bind_eq_bind, Option.bind_eq_some_iff, Option.pure_def,
    Option.some.injEq] at hc
  obtain ⟨-, -, requests, hins, rfl⟩ := hc
  obtain ⟨hnew, rfl⟩ := insertNew_eq_some.mp hins
  exact ⟨hnew, rfl⟩

theorem createJoinRequest_accounted (hd : Accounted db)
    (hc : createJoinRequest h env id secret name kind db = some db') : Accounted db' := by
  obtain ⟨hnew, rfl⟩ := createJoinRequest_some hc
  refine ⟨hd.rights, nodup_append_new hd.requests hnew, ?_, hd.unexpired, ?_⟩
  · rw [hd.balanced, List.countP_append]
    simp [filedRow]
  · intro x hx
    rcases List.mem_append.mp hx with hx | hx
    · exact hd.settled x hx
    · obtain rfl := List.mem_singleton.mp hx
      simp [filedRow]

/-- The right and the request an approval writes, each in its place. -/
theorem Approval.places {m : Membership} {request : JoinRequestRow} {right : AdmissionRow}
    (hd : Accounted db) (ha : Approval h env id mb by_ db db' m request right) :
    (∃ l₁ l₂, db.admissionStock = l₁ ++ right :: l₂ ∧
      db'.admissionStock = l₁ ++ right.consume env.now request.name :: l₂) ∧
    ∃ l₁ l₂, db.joinRequests = l₁ ++ request :: l₂ ∧
      db'.joinRequests = l₁ ++ request.approve mb by_ env.now :: l₂ := by
  constructor
  · have hs : db'.admissionStock = updateWhere (·.isUnused right.id) (·.consume env.now request.name)
        db.admissionStock := by rw [ha.result]; rfl
    rw [hs]
    refine updateWhere_one hd.rights ha.right_mem (by simp [AdmissionRow.isUnused, ha.unused]) ?_
    intro x hx
    simp only [AdmissionRow.isUnused, Bool.and_eq_true, decide_eq_true_eq] at hx
    exact hx.1
  · have hj : db'.joinRequests = updateWhere (·.isPending id) (·.approve mb by_ env.now)
        db.joinRequests := by rw [ha.result]; rfl
    rw [hj]
    refine updateWhere_one hd.requests ha.request_mem
      (by simp [JoinRequestRow.isPending, ha.request_id, ha.pending]) ?_
    intro x hx
    simp only [JoinRequestRow.isPending, Bool.and_eq_true, decide_eq_true_eq] at hx
    exact hx.1.trans ha.request_id.symm

theorem Approval.accounted {m : Membership} {request : JoinRequestRow} {right : AdmissionRow}
    (hd : Accounted db) (ha : Approval h env id mb by_ db db' m request right) : Accounted db' := by
  obtain ⟨⟨l₁, l₂, hs, hs'⟩, ⟨k₁, k₂, hj, hj'⟩⟩ := ha.places hd
  obtain ⟨h₁, h₂, h₃, h₄, h₅⟩ := hd
  rw [hs] at h₁ h₃ h₄
  rw [hj] at h₂ h₃ h₅
  constructor
  · rw [hs']
    simpa [AdmissionRow.consume] using h₁
  · rw [hj']
    simpa [JoinRequestRow.approve] using h₂
  · -- one more right consumed, one more request approved
    rw [hs', hj']
    simp only [List.countP_append, List.countP_cons, ha.unused, ha.pending, AdmissionRow.consume,
      JoinRequestRow.approve] at h₃ ⊢
    simp at h₃ ⊢
    omega
  · rw [hs']
    intro r hr t ht
    simp only [List.mem_append, List.mem_cons] at hr
    rcases hr with hr | rfl | hr
    · exact h₄ r (by simp [hr]) t ht
    · obtain rfl : env.now = t := by simpa [AdmissionRow.consume] using ht
      exact ha.in_time
    · exact h₄ r (by simp [hr]) t ht
  · rw [hj']
    intro r hr
    simp only [List.mem_append, List.mem_cons] at hr
    rcases hr with hr | rfl | hr
    · exact h₅ r (by simp [hr])
    · simp [JoinRequestRow.approve]
    · exact h₅ r (by simp [hr])

/-- An approval went through, or nothing was written. -/
theorem approveJoinRequest_cases (h : Digests) (env : StoreEnv) (id mb by_ : String)
    (hd : Accounted db) :
    (∃ m request right, Approval h env id mb by_ db (approveJoinRequest h env id mb by_ db).2 m request
        right ∧ (approveJoinRequest h env id mb by_ db).1 = .approved) ∨
      ((approveJoinRequest h env id mb by_ db).1 ≠ .approved ∧
        (approveJoinRequest h env id mb by_ db).2 = db) := by
  unfold approveJoinRequest approveJoinRequestAtomic
  cases htx : approveTx h env id mb by_ db with
  | ok r =>
      obtain ⟨request, right, ha⟩ := approveTx_ok hd.requests hd.settled htx
      exact .inl ⟨_, request, right, ha, rfl⟩
  | error e => exact .inr ⟨e.toApprove_ne, rfl⟩

theorem approveJoinRequest_accounted (hd : Accounted db) :
    Accounted (approveJoinRequest h env id mb by_ db).2 := by
  rcases approveJoinRequest_cases h env id mb by_ hd with
    ⟨m, request, right, ha, -⟩ | ⟨-, hsame⟩
  · exact ha.accounted hd
  · rwa [hsame]

theorem denyJoinRequest_accounted (hd : Accounted db) : Accounted (denyJoinRequest env id by_ db).2 := by
  unfold denyJoinRequest
  split
  · exact hd
  · refine hd.relabel (fun _ => rfl) fun r hp => ?_
    simp only [JoinRequestRow.isPending, Bool.and_eq_true, decide_eq_true_eq] at hp
    simp [hp.2]

theorem stampDelivery_accounted (hd : Accounted db) : Accounted (stampDelivery env id db) := by
  unfold stampDelivery
  split
  · exact hd
  · exact hd.relabel (fun _ => rfl) fun r _ => ⟨Iff.rfl, fun h => h⟩

theorem claimJoinRequestBootstrap_accounted (hd : Accounted db) :
    Accounted (claimJoinRequestBootstrap h env id secret db).2 := by
  unfold claimJoinRequestBootstrap
  split
  · exact hd
  · split
    · exact hd
    · exact stampDelivery_accounted hd

/-- An acknowledgement either changes nothing and was not the one that closes the window, or it
closes the window of the request its caller holds. -/
theorem ackJoinRequestBootstrap_cases (h : Digests) (env : StoreEnv) (id secret : String)
    (db : Registry) :
    ((ackJoinRequestBootstrap h env id secret db).1 ≠ some true ∧
      (ackJoinRequestBootstrap h env id secret db).2 = db) ∨
    ((ackJoinRequestBootstrap h env id secret db).1 = some true ∧
      (∃ r ∈ db.joinRequests, r.heldBy h id secret ∧ r.status = .approved ∧ r.bootstrapAckedAt = none) ∧
      (ackJoinRequestBootstrap h env id secret db).2 = { db with
        joinRequests := updateWhere (·.isUnacked id) (·.acknowledge env.now) db.joinRequests }) := by
  unfold ackJoinRequestBootstrap
  split
  · exact .inl ⟨by simp, rfl⟩
  · split
    · exact .inl ⟨by simp, rfl⟩
    · next r hr =>
        have hmem := List.mem_of_find?_eq_some hr
        have hheld : r.heldBy h id secret = true ∧ r.status = .approved := by
          simpa using List.find?_some hr
        split
        · exact .inl ⟨by simp, rfl⟩
        · next hnot =>
            have hnone : r.bootstrapAckedAt = none := by simpa using hnot
            split
            · exact .inl ⟨by simp, rfl⟩
            · refine .inr ⟨?_, ⟨r, hmem, hheld.1, hheld.2, hnone⟩, rfl⟩
              have hid : r.id = id := by
                have := hheld.1
                simp only [JoinRequestRow.heldBy, Bool.and_eq_true, decide_eq_true_eq] at this
                exact this.1
              have : db.joinRequests.any (·.isUnacked id) = true :=
                List.any_eq_true.mpr ⟨r, hmem, by simp [JoinRequestRow.isUnacked, hid, hnone]⟩
              rw [this]

theorem ackJoinRequestBootstrap_accounted (hd : Accounted db) :
    Accounted (ackJoinRequestBootstrap h env id secret db).2 := by
  rcases ackJoinRequestBootstrap_cases h env id secret db with ⟨-, hsame⟩ | ⟨-, -, hack⟩
  · rwa [hsame]
  · rw [hack]
    exact hd.relabel (fun _ => rfl) fun r _ => ⟨Iff.rfl, fun h => h⟩

end Steps

theorem step_accounted {h : Digests} {s : Desk} (hd : Accounted s.db) (i : DeskInput) :
    Accounted (s.step h i).2.db := by
  cases i with
  | mint env ids ttl => exact mintAdmissionStock_accounted hd
  | create env id secret name kind =>
      simp only [Desk.step]
      split
      · exact hd
      · next hc => exact createJoinRequest_accounted hd hc
  | approve env id mb by_ => exact approveJoinRequest_accounted hd
  | deny env id by_ => exact denyJoinRequest_accounted hd
  | bootstrap env id secret => exact claimJoinRequestBootstrap_accounted hd
  | ack env id secret => exact ackJoinRequestBootstrap_accounted hd
  | elsewhere members principals credentials => exact hd.elsewhere _ rfl rfl

theorem run_accounted {h : Digests} {ok : Desk → DeskInput → Prop} {tr : List (DeskInput × DeskAnswer)}
    {s : Desk} (r : Sys.Run (desk h) ok tr s) : Accounted s.db := by
  refine Sys.Run.invariant (I := fun s => Accounted s.db) ?_ (fun s i hd _ => step_accounted hd i) r
  rintro s ⟨hs, hj, -⟩
  constructor
  · simp [hs]
  · simp [hj]
  · simp [hs, hj]
  · simp [hs]
  · simp [hj]

/-! ## What a step does to a request -/

/-- How the row of a request may change in one step. -/
inductive RowStep (h : Digests) (i : DeskInput) (r : JoinRequestRow) : JoinRequestRow → Prop
  | same : RowStep h i r r
  | approve (env : StoreEnv) (id mb by_ : String) : i = .approve env id mb by_ → r.status = .pending →
      RowStep h i r (r.approve mb by_ env.now)
  | deny (by_ : String) (now : Nat) : r.status = .pending →
      RowStep h i r { r with status := .denied, decidedBy := some by_, decidedAt := some now }
  | stamp (now : Nat) : RowStep h i r { r with bootstrapDeliveredAt := some now }
  | ack (env : StoreEnv) (id secret : String) : i = .ack env id secret → r.heldBy h id secret →
      r.status = .approved → r.bootstrapAckedAt = none → RowStep h i r (r.acknowledge env.now)

theorem updateWhere_rows {ρ : Type} {R : ρ → ρ → Prop} {p : ρ → Bool} {f : ρ → ρ} {t : List ρ}
    (hsame : ∀ r, R r r) (hf : ∀ r ∈ t, p r = true → R r (f r)) :
    (∀ r ∈ t, ∃ r' ∈ updateWhere p f t, R r r') ∧ ∀ r' ∈ updateWhere p f t, ∃ r ∈ t, R r r' := by
  have hstep : ∀ r ∈ t, R r (if p r then f r else r) := by
    intro r hr
    split
    · next hp => exact hf r hr hp
    · exact hsame r
  constructor
  · intro r hr
    exact ⟨_, mem_updateWhere.mpr ⟨r, hr, rfl⟩, hstep r hr⟩
  · intro r' hr'
    obtain ⟨r, hr, rfl⟩ := mem_updateWhere.mp hr'
    exact ⟨r, hr, hstep r hr⟩

/-- Each request goes on as one request, and what is new was filed in this step. -/
def RowsFollow (h : Digests) (i : DeskInput) (t t' : List JoinRequestRow) : Prop :=
  (∀ r ∈ t, ∃ r' ∈ t', RowStep h i r r') ∧
  ∀ r' ∈ t', (∃ r ∈ t, RowStep h i r r') ∨
    ∃ env id secret name kind, i = .create env id secret name kind ∧
      r' = filedRow h id secret name kind env.now

theorem RowsFollow.refl {h : Digests} {i : DeskInput} (t : List JoinRequestRow) : RowsFollow h i t t :=
  ⟨fun r hr => ⟨r, hr, .same⟩, fun r hr => .inl ⟨r, hr, .same⟩⟩

theorem RowsFollow.update {h : Digests} {i : DeskInput} {p : JoinRequestRow → Bool}
    {f : JoinRequestRow → JoinRequestRow} {t : List JoinRequestRow}
    (hf : ∀ r ∈ t, p r = true → RowStep h i r (f r)) : RowsFollow h i t (updateWhere p f t) := by
  obtain ⟨h₁, h₂⟩ := updateWhere_rows (R := RowStep h i) (fun _ => .same) hf
  exact ⟨h₁, fun r' hr' => .inl (h₂ r' hr')⟩

theorem step_rows {h : Digests} {s : Desk} (hd : Accounted s.db) (i : DeskInput) :
    RowsFollow h i s.db.joinRequests (s.step h i).2.db.joinRequests := by
  cases i with
  | mint env ids ttl =>
      simp only [Desk.step, mintAdmissionStock_requests]
      exact .refl _
  | create env id secret name kind =>
      simp only [Desk.step]
      split
      · exact .refl _
      · next hcr =>
          obtain ⟨-, rfl⟩ := createJoinRequest_some hcr
          refine ⟨fun r hr => ⟨r, List.mem_append_left _ hr, .same⟩, fun r hr => ?_⟩
          rcases List.mem_append.mp hr with hr | hr
          · exact .inl ⟨r, hr, .same⟩
          · exact .inr ⟨env, id, secret, name, kind, rfl, List.mem_singleton.mp hr⟩
  | approve env id mb by_ =>
      simp only [Desk.step]
      rcases approveJoinRequest_cases h env id mb by_ hd with ⟨m, request, right, ha, -⟩ | ⟨-, hsame⟩
      · rw [ha.result]
        refine .update fun r _ hp => .approve env id mb by_ rfl ?_
        simp only [JoinRequestRow.isPending, Bool.and_eq_true, decide_eq_true_eq] at hp
        exact hp.2
      · rw [hsame]
        exact .refl _
  | deny env id by_ =>
      simp only [Desk.step, denyJoinRequest]
      split
      · exact .refl _
      · refine .update fun r _ hp => .deny by_ env.now ?_
        simp only [JoinRequestRow.isPending, Bool.and_eq_true, decide_eq_true_eq] at hp
        exact hp.2
  | bootstrap env id secret =>
      simp only [Desk.step, claimJoinRequestBootstrap]
      split
      · exact .refl _
      · split
        · exact .refl _
        · simp only [stampDelivery]
          split
          · exact .refl _
          · exact .update fun r _ _ => .stamp env.now
  | ack env id secret =>
      simp only [Desk.step]
      rcases ackJoinRequestBootstrap_cases h env id secret s.db with ⟨-, hsame⟩ | ⟨-, hheld, hack⟩
      · rw [hsame]
        exact .refl _
      · rw [hack]
        obtain ⟨y, hy, hyheld, hys, hynone⟩ := hheld
        refine .update fun r hr hp => ?_
        -- the row acknowledged is the one the caller holds
        have hyid : y.id = id := by
          simp only [JoinRequestRow.heldBy, Bool.and_eq_true, decide_eq_true_eq] at hyheld
          exact hyheld.1
        simp only [JoinRequestRow.isUnacked, Bool.and_eq_true, decide_eq_true_eq] at hp
        obtain rfl : r = y := eq_of_key hd.requests hr hy (hp.1.trans hyid.symm)
        exact .ack env id secret rfl hyheld hys hynone
  | elsewhere members principals credentials => exact .refl _

theorem step_issued {h : Digests} {s : Desk} {t : String} (i : DeskInput) (ht : t ∈ s.issued) :
    t ∈ (s.step h i).2.issued := by
  cases i with
  | create env id secret name kind =>
      simp only [Desk.step]
      split
      · exact ht
      · exact ht
  | approve env id mb by_ => exact List.mem_cons_of_mem _ ht
  | _ => exact ht

/-! ## The delivery window -/

/-- Every `mb_` a request carries was drawn for it. -/
def Carried (s : Desk) : Prop :=
  ∀ r ∈ s.db.joinRequests, ∀ t, r.mbToken = some t → t ∈ s.issued

/-- Only an approved request is ever acknowledged. -/
def Unacked (db : Registry) : Prop :=
  ∀ r ∈ db.joinRequests, r.status = .pending → r.bootstrapAckedAt = none

/-- The window of request `id`, whose secret has digest `hash`: one approved row carries `mb` until
the window is closed, and no other row ever does. -/
structure Window (id hash mb : String) (closed : Bool) (s : Desk) : Prop where
  drawn : mb ∈ s.issued
  sole : ∀ r ∈ s.db.joinRequests, r.mbToken = some mb → r.id = id
  row : ∃ r ∈ s.db.joinRequests, r.id = id ∧ r.secretHash = hash ∧ r.status = .approved ∧
    r.mbToken = (if closed then none else some mb) ∧ r.bootstrapAckedAt.isSome = closed

/-- The holder's acknowledgement, answered as the one that closed the window. -/
def closes (h : Digests) (id hash : String) : DeskInput × DeskAnswer → Bool
  | (.ack _ id' secret, .acked (some true)) => id' = id && h.secretHash secret = hash
  | _ => false

section Window

variable {h : Digests} {id hash mb : String} {closed : Bool} {s : Desk}

/-- An update that leaves `mb_` columns alone and does not take an approval back. -/
theorem Window.relabel {p : JoinRequestRow → Bool} {f : JoinRequestRow → JoinRequestRow}
    (hw : Window id hash mb closed s) (hf : ∀ r, (f r).id = r.id ∧ (f r).secretHash = r.secretHash ∧
      (f r).mbToken = r.mbToken ∧ (f r).bootstrapAckedAt = r.bootstrapAckedAt)
    (hst : ∀ r, p r = true → r.status = .approved → (f r).status = .approved) :
    Window id hash mb closed
      { s with db := { s.db with joinRequests := updateWhere p f s.db.joinRequests } } where
  drawn := hw.drawn
  sole := by
    intro r hr ht
    obtain ⟨x, hx, rfl⟩ := mem_updateWhere.mp hr
    split at ht
    · next hp =>
        rw [(hf x).2.2.1] at ht
        simpa [hp, (hf x).1] using hw.sole x hx ht
    · next hp => simpa [hp] using hw.sole x hx ht
  row := by
    obtain ⟨r, hr, hid, hh, hs, ht, ha⟩ := hw.row
    refine ⟨if p r then f r else r, mem_updateWhere.mpr ⟨r, hr, rfl⟩, ?_⟩
    obtain ⟨f₁, f₂, f₃, f₄⟩ := hf r
    split
    · next hp => exact ⟨f₁.trans hid, f₂.trans hh, hst r hp hs, f₃.trans ht, by rw [f₄]; exact ha⟩
    · exact ⟨hid, hh, hs, ht, ha⟩

/-- A deliverable request is found by its id. -/
theorem claim_delivers {env : StoreEnv} {id secret : String} {db : Registry} {r : JoinRequestRow}
    (hd : Accounted db) (hr : r ∈ db.joinRequests) (hdel : r.deliverable h id secret = true)
    (ht : r.mbToken = some mb) (hread : env.fails .readToken = false) :
    (claimJoinRequestBootstrap h env id secret db).1 = some mb := by
  have hid : ∀ x : JoinRequestRow, x.deliverable h id secret = true → x.id = id := by
    intro x hx
    simp only [JoinRequestRow.deliverable, JoinRequestRow.heldBy, Bool.and_eq_true,
      decide_eq_true_eq] at hx
    exact hx.1.1.1.1
  obtain ⟨y, hy⟩ := Option.isSome_iff_exists.mp (List.find?_isSome.mpr ⟨r, hr, hdel⟩)
  have hyr : y = r := eq_of_key hd.requests (List.mem_of_find?_eq_some hy) hr
    ((hid y (List.find?_some hy)).trans (hid r hdel).symm)
  unfold claimJoinRequestBootstrap
  rw [hread, if_neg (by simp), hy, hyr]
  simp [ht]

/-- A delivery hands out `mb` to the holder while the window is open, and to nobody else. -/
theorem Window.delivers {env : StoreEnv} {id' secret : String} (hd : Accounted s.db)
    (hw : Window id hash mb closed s) (hread : env.fails .readToken = false) :
    (claimJoinRequestBootstrap h env id' secret s.db).1 = some mb ↔
      id' = id ∧ h.secretHash secret = hash ∧ closed = false := by
  obtain ⟨r, hr, hid, hh, hs, ht, ha⟩ := hw.row
  unfold claimJoinRequestBootstrap
  rw [hread, if_neg (by simp)]
  constructor
  · intro hmb
    have hfound : (s.db.joinRequests.find? (·.deliverable h id' secret)).bind
        JoinRequestRow.mbToken = some mb := by
      split at hmb
      · cases hmb
      · next heq =>
          rw [heq]
          exact hmb
    obtain ⟨x, hx, hxt⟩ := Option.bind_eq_some_iff.mp hfound
    have hxmem := List.mem_of_find?_eq_some hx
    have hxd := List.find?_some hx
    simp only [JoinRequestRow.deliverable, JoinRequestRow.heldBy, Bool.and_eq_true,
      decide_eq_true_eq] at hxd
    have hxid : x.id = id := hw.sole x hxmem hxt
    obtain rfl : x = r := eq_of_key hd.requests hxmem hr (hxid.trans hid.symm)
    refine ⟨hxd.1.1.1.1.symm.trans hid, hxd.1.1.1.2.symm.trans hh, ?_⟩
    cases closed with
    | false => rfl
    | true => rw [hxt] at ht; cases ht
  · rintro ⟨rfl, hhash, rfl⟩
    have hnone : r.bootstrapAckedAt = none := by simpa using ha
    have hdel : r.deliverable h id' secret = true := by
      simp [JoinRequestRow.deliverable, JoinRequestRow.heldBy, hid, hh, hhash, hs, ht, hnone]
    have := claim_delivers hd hr hdel ht hread
    unfold claimJoinRequestBootstrap at this
    rwa [hread, if_neg (by simp)] at this

/-- Only a request that is being decided changes. -/
theorem Window.approve {env : StoreEnv} {id' mb' by_ : String} {db' : Registry} {m : Membership}
    {request : JoinRequestRow} {right : AdmissionRow} (hd : Accounted s.db) (hw : Window id hash mb closed s)
    (hne : mb' ≠ mb) (ha : Approval h env id' mb' by_ s.db db' m request right) :
    Window id hash mb closed ⟨db', mb' :: s.issued⟩ := by
  obtain ⟨-, l₁, l₂, hj, hj'⟩ := ha.places hd
  have hback : ∀ r ∈ db'.joinRequests, r = request.approve mb' by_ env.now ∨ r ∈ s.db.joinRequests := by
    intro r hr
    rw [hj'] at hr
    rw [hj]
    simp only [List.mem_append, List.mem_cons] at hr ⊢
    tauto
  refine ⟨List.mem_cons_of_mem _ hw.drawn, ?_, ?_⟩
  · intro r hr ht
    rcases hback r hr with rfl | hr
    · exact absurd (Option.some.inj ht) hne
    · exact hw.sole r hr ht
  · obtain ⟨r, hr, hid, hh, hs, ht⟩ := hw.row
    refine ⟨r, ?_, hid, hh, hs, ht⟩
    have hnot : r ≠ request := by
      rintro rfl
      rw [ha.pending] at hs
      cases hs
    rw [hj] at hr
    show r ∈ db'.joinRequests
    rw [hj']
    simp only [List.mem_append, List.mem_cons] at hr ⊢
    tauto

theorem Window.ack {env : StoreEnv} {id' secret : String} (hd : Accounted s.db)
    (hw : Window id hash mb closed s)
    (hheld : ∃ r ∈ s.db.joinRequests, r.heldBy h id' secret ∧ r.status = .approved ∧
      r.bootstrapAckedAt = none) :
    Window id hash mb (closed || (decide (id' = id) && decide (h.secretHash secret = hash)))
      { s with db := { s.db with
        joinRequests := updateWhere (·.isUnacked id') (·.acknowledge env.now) s.db.joinRequests } } := by
  obtain ⟨r, hr, hid, hh, hs, ht, ha⟩ := hw.row
  obtain ⟨x, hx, hxheld, -, hxnone⟩ := hheld
  simp only [JoinRequestRow.heldBy, Bool.and_eq_true, decide_eq_true_eq] at hxheld
  refine ⟨hw.drawn, ?_, ?_⟩
  · intro y hy hyt
    obtain ⟨z, hz, rfl⟩ := mem_updateWhere.mp hy
    split at hyt
    · cases hyt
    · next hp => simpa [hp] using hw.sole z hz hyt
  · by_cases he : id' = id
    · -- the caller holds this very request, and its window was open
      obtain rfl : x = r := eq_of_key hd.requests hx hr (by rw [hxheld.1, he, hid])
      have hun : x.isUnacked id' = true := by simp [JoinRequestRow.isUnacked, hxheld.1, hxnone]
      refine ⟨x.acknowledge env.now, mem_updateWhere.mpr ⟨x, hx, by rw [if_pos hun]⟩, hid, hh, hs, ?_⟩
      have hhash : h.secretHash secret = hash := hxheld.2.symm.trans hh
      simp [he, hhash, JoinRequestRow.acknowledge]
    · have hun : r.isUnacked id' = false := by
        simp only [JoinRequestRow.isUnacked, hid, Bool.and_eq_false_iff, decide_eq_false_iff_not]
        exact .inl fun e => he e.symm
      refine ⟨r, mem_updateWhere.mpr ⟨r, hr, by simp [hun]⟩, hid, hh, hs, ?_⟩
      simpa [he] using ⟨ht, ha⟩

end Window

theorem step_carried {h : Digests} {s : Desk} (hd : Accounted s.db) (hc : Carried s) (i : DeskInput) :
    Carried (s.step h i).2 := by
  intro r' hr' t ht
  rcases (step_rows hd i).2 r' hr' with ⟨r, hr, hstep⟩ | ⟨env, id, secret, name, kind, -, rfl⟩
  · cases hstep with
    | same => exact step_issued _ (hc _ hr t ht)
    | approve env id mb by_ hi hp =>
        subst hi
        obtain rfl : mb = t := by simpa [JoinRequestRow.approve] using ht
        exact List.mem_cons_self
    | deny => exact step_issued _ (hc r hr t ht)
    | stamp => exact step_issued _ (hc r hr t ht)
    | ack => cases ht
  · cases ht

theorem step_unacked {h : Digests} {s : Desk} (hd : Accounted s.db) (hu : Unacked s.db) (i : DeskInput) :
    Unacked (s.step h i).2.db := by
  intro r' hr' hp
  rcases (step_rows hd i).2 r' hr' with ⟨r, hr, hstep⟩ | ⟨env, id, secret, name, kind, -, rfl⟩
  · cases hstep with
    | same => exact hu _ hr hp
    | approve => cases hp
    | deny => cases hp
    | stamp => exact hu r hr hp
    | ack env id secret _ _ hs =>
        rw [show (r.acknowledge env.now).status = r.status from rfl, hs] at hp
        cases hp
  · rfl

theorem step_window {h : Digests} {id hash mb : String} {closed : Bool} {s : Desk} (hd : Accounted s.db)
    (hw : Window id hash mb closed s) (i : DeskInput) (hi : Fresh h s i) :
    Window id hash mb (closed || closes h id hash (i, (s.step h i).1)) (s.step h i).2 := by
  cases i with
  | mint env ids ttl =>
      simp only [Desk.step, closes, Bool.or_false]
      refine ⟨hw.drawn, ?_, ?_⟩
      · simpa only [mintAdmissionStock_requests] using hw.sole
      · simpa only [mintAdmissionStock_requests] using hw.row
  | create env id' secret name kind =>
      simp only [Desk.step]
      split
      · simpa [closes] using hw
      · next hcr =>
          obtain ⟨-, rfl⟩ := createJoinRequest_some hcr
          simp only [closes, Bool.or_false]
          refine ⟨hw.drawn, ?_, ?_⟩
          · intro x hx ht
            rcases List.mem_append.mp hx with hx | hx
            · exact hw.sole x hx ht
            · rw [List.mem_singleton.mp hx] at ht; cases ht
          · obtain ⟨x, hx, hrow⟩ := hw.row
            exact ⟨x, List.mem_append_left _ hx, hrow⟩
  | approve env id' mb' by_ =>
      simp only [Desk.step, closes, Bool.or_false]
      rcases approveJoinRequest_cases h env id' mb' by_ hd with
        ⟨m, request, right, ha, -⟩ | ⟨-, hsame⟩
      · exact hw.approve hd (fun e => hi.1 (e ▸ hw.drawn)) ha
      · rw [hsame]
        exact ⟨List.mem_cons_of_mem _ hw.drawn, hw.sole, hw.row⟩
  | deny env id' by_ =>
      simp only [Desk.step, closes, Bool.or_false, denyJoinRequest]
      split
      · exact hw
      · refine hw.relabel (fun _ => ⟨rfl, rfl, rfl, rfl⟩) fun r hp hs => ?_
        simp only [JoinRequestRow.isPending, Bool.and_eq_true, decide_eq_true_eq] at hp
        rw [hp.2] at hs
        cases hs
  | bootstrap env id' secret =>
      simp only [Desk.step, closes, Bool.or_false, claimJoinRequestBootstrap]
      split
      · exact hw
      · split
        · exact hw
        · simp only [stampDelivery]
          split
          · exact hw
          · exact hw.relabel (fun _ => ⟨rfl, rfl, rfl, rfl⟩) fun _ _ hs => hs
  | ack env id' secret =>
      simp only [Desk.step]
      rcases ackJoinRequestBootstrap_cases h env id' secret s.db with ⟨hans, hsame⟩ | ⟨hans, hheld, hack⟩
      · rw [hsame]
        have hno : closes h id hash
            (.ack env id' secret, .acked (ackJoinRequestBootstrap h env id' secret s.db).1) = false := by
          unfold closes
          split
          · next heq => simp_all
          · rfl
        simpa [hno] using hw
      · rw [hans, hack]
        exact hw.ack hd hheld
  | elsewhere members principals credentials =>
      simp only [Desk.step, closes, Bool.or_false]
      exact ⟨hw.drawn, hw.sole, hw.row⟩

/-- Along whatever follows, the window is closed exactly when the holder has acknowledged. -/
theorem exec_window {h : Digests} {id hash mb : String} {ok : Desk → DeskInput → Prop}
    (hok : ∀ s i, ok s i → Fresh h s i) (is : List DeskInput) {tr : List (DeskInput × DeskAnswer)} {s : Desk}
    (hd : Accounted s.db) (hw : Window id hash mb (tr.any (closes h id hash)) s)
    (ha : (desk h).Admits ok is s) :
    Window id hash mb (((desk h).exec is tr s).1.any (closes h id hash)) ((desk h).exec is tr s).2 ∧
      Accounted ((desk h).exec is tr s).2.db := by
  induction is generalizing tr s with
  | nil => exact ⟨hw, hd⟩
  | cons i is ih =>
      refine ih (step_accounted hd i) ?_ ha.2
      have := step_window hd hw i (hok s i ha.1)
      simpa [desk, Bool.or_comm] using this

theorem run_carried {h : Digests} {ok : Desk → DeskInput → Prop} {tr : List (DeskInput × DeskAnswer)}
    {s : Desk} (r : Sys.Run (desk h) ok tr s) : Carried s ∧ Unacked s.db := by
  refine Sys.Run.induction (P := fun _ s => Carried s ∧ Unacked s.db) ?_ (fun _ s i r hc _ => ?_) r
  · rintro s ⟨-, hj, -⟩
    constructor
    · intro r hr
      rw [hj] at hr
      cases hr
    · intro r hr
      rw [hj] at hr
      cases hr
  · exact ⟨step_carried (run_accounted r) hc.1 i, step_unacked (run_accounted r) hc.2 i⟩

/-! ## The law of the desk -/

/-- A consumed right stays as it is. -/
theorem step_keeps_consumed {h : Digests} {s : Desk} (hd : Accounted s.db) (i : DeskInput) :
    ∀ right ∈ s.db.admissionStock, right.consumedAt.isSome → right ∈ (s.step h i).2.db.admissionStock := by
  intro right hr hused
  cases i with
  | mint env ids ttl =>
      simp only [Desk.step, mintAdmissionStock]
      split
      · exact hr
      · next hm =>
          obtain ⟨new, -, rfl, -⟩ := mintAdmissionRights_some hm
          exact List.mem_append_left _ hr
  | create env id secret name kind =>
      simp only [Desk.step]
      split
      · exact hr
      · next hcr =>
          obtain ⟨-, rfl⟩ := createJoinRequest_some hcr
          exact hr
  | approve env id mb by_ =>
      simp only [Desk.step]
      rcases approveJoinRequest_cases h env id mb by_ hd with
        ⟨m, request, right', ha, -⟩ | ⟨-, hsame⟩
      · obtain ⟨⟨l₁, l₂, hs, hs'⟩, -⟩ := ha.places hd
        have hne : right ≠ right' := by
          rintro rfl
          rw [ha.unused] at hused
          cases hused
        rw [hs] at hr
        rw [hs']
        simp only [List.mem_append, List.mem_cons] at hr ⊢
        tauto
      · rwa [hsame]
  | deny env id by_ =>
      simp only [Desk.step, denyJoinRequest]
      split
      · exact hr
      · exact hr
  | bootstrap env id secret =>
      simp only [Desk.step, claimJoinRequestBootstrap]
      split
      · exact hr
      · split
        · exact hr
        · simp only [stampDelivery]
          split
          · exact hr
          · exact hr
  | ack env id secret =>
      simp only [Desk.step]
      rcases ackJoinRequestBootstrap_cases h env id secret s.db with ⟨-, hsame⟩ | ⟨-, -, hack⟩
      · rwa [hsame]
      · rw [hack]
        exact hr
  | elsewhere members principals credentials => exact hr

/-- What an approval of `request` creates: one member and one active credential of an active
principal, under a name no live member had, for one right that was unused and in time. -/
structure Enrolled (h : Digests) (env : StoreEnv) (mb by_ : String) (request : JoinRequestRow)
    (db db' : Registry) : Prop where
  name_free : ∀ r ∈ db.members, r.revokedAt = none → r.membership.name ≠ request.name
  member : db'.members =
    db.members ++ [⟨⟨mb, request.name, request.kind, env.now, by_⟩, none⟩]
  principal : db'.principals =
    db.principals ++ [principalRow h .member mb request.name request.kind env.now]
  credential : db'.credentials =
    db.credentials ++ [credentialRow h .member mb env.now "Member access"]
  right : ∃ l₁ right l₂, db.admissionStock = l₁ ++ right :: l₂ ∧ right.consumedAt = none ∧
    env.now < right.expiresAt ∧ db'.admissionStock = l₁ ++ right.consume env.now request.name :: l₂

theorem Approval.enrolled {h : Digests} {env : StoreEnv} {id mb by_ : String} {s : Desk} {db' : Registry}
    {m : Membership} {request : JoinRequestRow} {right : AdmissionRow} (hd : Accounted s.db)
    (hi : Heeded h s (.approve env id mb by_)) (ha : Approval h env id mb by_ s.db db' m request right) :
    Enrolled h env mb by_ request s.db db' := by
  obtain ⟨⟨-, hp, hc⟩, hread⟩ := hi
  refine ⟨ha.name_free hread, ?_, ?_, ?_, ?_⟩
  · rw [ha.result, ← ha.member]
    rfl
  · rw [ha.result]
    exact insertUnless_new fun x hx => decide_eq_false (hp x hx)
  · rw [ha.result]
    exact insertUnless_new hc
  · obtain ⟨⟨l₁, l₂, hs, hs'⟩, -⟩ := ha.places hd
    exact ⟨l₁, right, l₂, hs, ha.unused, ha.in_time, hs'⟩

theorem Approval.window {h : Digests} {env : StoreEnv} {id mb by_ : String} {s : Desk} {db' : Registry}
    {m : Membership} {request : JoinRequestRow} {right : AdmissionRow} (hd : Accounted s.db)
    (hc : Carried s) (hu : Unacked s.db) (hnew : mb ∉ s.issued)
    (ha : Approval h env id mb by_ s.db db' m request right) :
    Window id request.secretHash mb false ⟨db', mb :: s.issued⟩ := by
  obtain ⟨-, l₁, l₂, hj, hj'⟩ := ha.places hd
  refine ⟨List.mem_cons_self, ?_, ?_⟩
  · intro r hr ht
    rw [hj'] at hr
    simp only [List.mem_append, List.mem_cons] at hr
    rcases hr with hr | rfl | hr
    · exact absurd (hc r (by simp [hj, hr]) mb ht) hnew
    · exact ha.request_id
    · exact absurd (hc r (by simp [hj, hr]) mb ht) hnew
  · refine ⟨request.approve mb by_ env.now, ?_, ha.request_id, rfl, rfl, rfl, ?_⟩
    · rw [hj']
      simp
    · simp [JoinRequestRow.approve, hu request ha.request_mem ha.pending]

/-- What one call of `approve_join_request` did and what follows from it: nothing at all, or one
enrolment, after which `mb` is delivered to the holder of the request's secret until the holder
acknowledges, and to nobody ever after. -/
def ApproveLaw (h : Digests) (env : StoreEnv) (id mb by_ : String) (s : Desk) : Prop :=
  ((approveJoinRequest h env id mb by_ s.db).1 ≠ .approved ∧
    (approveJoinRequest h env id mb by_ s.db).2 = s.db) ∨
  ((approveJoinRequest h env id mb by_ s.db).1 = .approved ∧
    ∃ request ∈ s.db.joinRequests, request.id = id ∧ request.status = .pending ∧
      Enrolled h env mb by_ request s.db (approveJoinRequest h env id mb by_ s.db).2 ∧
      ∀ is, (desk h).Admits (Heeded h) is (s.step h (.approve env id mb by_)).2 →
        ∀ env' id' secret, env'.fails .readToken = false →
          ((claimJoinRequestBootstrap h env' id' secret
              ((desk h).exec is [] (s.step h (.approve env id mb by_)).2).2.db).1 = some mb ↔
            id' = id ∧ h.secretHash secret = request.secretHash ∧
              ((desk h).exec is [] (s.step h (.approve env id mb by_)).2).1.any
                (closes h id request.secretHash) = false))

theorem approve_law {h : Digests} {env : StoreEnv} {id mb by_ : String} {s : Desk} (hd : Accounted s.db)
    (hc : Carried s) (hu : Unacked s.db) (hi : Heeded h s (.approve env id mb by_)) :
    ApproveLaw h env id mb by_ s := by
  rcases approveJoinRequest_cases h env id mb by_ hd with
    ⟨m, request, right, ha, hans⟩ | hsame
  · refine .inr ⟨hans, request, ha.request_mem, ha.request_id, ha.pending, ha.enrolled hd hi, ?_⟩
    intro is hadm env' id' secret hread
    have hw : Window id request.secretHash mb (([] : List (DeskInput × DeskAnswer)).any
        (closes h id request.secretHash)) (s.step h (.approve env id mb by_)).2 :=
      ha.window hd hc hu hi.1.1
    obtain ⟨hw', hd'⟩ := exec_window (fun _ _ hok => hok.1) is (step_accounted hd _) hw hadm
    exact hw'.delivers hd' hread
  · exact .inl hsame

theorem admission_accounting (h : Digests) {tr : List (DeskInput × DeskAnswer)} {s : Desk}
    (r : Sys.Run (desk h) (Heeded h) tr s) :
    Accounted s.db ∧
    (∀ i, Heeded h s i → ∀ right ∈ s.db.admissionStock, right.consumedAt.isSome →
      right ∈ (s.step h i).2.db.admissionStock) ∧
    ∀ env id mb by_, Heeded h s (.approve env id mb by_) → ApproveLaw h env id mb by_ s := by
  have hd := run_accounted r
  obtain ⟨hc, hu⟩ := run_carried r
  exact ⟨hd, fun i _ => step_keeps_consumed hd i, fun _ _ _ _ hi => approve_law hd hc hu hi⟩

/-! ## One request, and a name check that fails -/

/-- Digests one can read. -/
def plainDigests : Digests := ⟨fun s => "h:" ++ s, fun p s => p ++ s⟩

def calmStore (now : Nat) : StoreEnv := ⟨now, fun _ => false⟩

/-- Two rights, two requests for one name. -/
def sampleFiled : List DeskInput :=
  [.mint (calmStore 1) ["adm_1", "adm_2"] 100, .create (calmStore 2) "jr_1" "s1" "ada" "agent",
    .create (calmStore 3) "jr_2" "s2" "ada" "agent"]

def sampleDesk : Desk := ((desk plainDigests).exec sampleFiled [] ⟨{}, []⟩).2

theorem sampleDesk_run (ok : Desk → DeskInput → Prop) (hok : ∀ s i, i ∈ sampleFiled → ok s i) :
    Sys.Run (desk plainDigests) ok ((desk plainDigests).exec sampleFiled [] ⟨{}, []⟩).1 sampleDesk := by
  refine Sys.Run.exec sampleFiled ?_ (.nil ⟨rfl, rfl, rfl⟩)
  exact ⟨hok _ _ (by simp [sampleFiled]), hok _ _ (by simp [sampleFiled]),
    hok _ _ (by simp [sampleFiled]), trivial⟩

theorem sampleFiled_heeded (s : Desk) (i : DeskInput) (hi : i ∈ sampleFiled) : Heeded plainDigests s i := by
  simp only [sampleFiled, List.mem_cons, List.not_mem_nil, or_false] at hi
  rcases hi with rfl | rfl | rfl
  · exact ⟨trivial, trivial⟩
  · exact ⟨trivial, trivial⟩
  · exact ⟨trivial, trivial⟩

theorem admission_accounting_sample :
    (approveJoinRequest plainDigests (calmStore 4) "jr_1" "mb_1" "master" sampleDesk.db).1 = .approved ∧
    Accounted sampleDesk.db ∧
    ApproveLaw plainDigests (calmStore 4) "jr_1" "mb_1" "master" sampleDesk := by
  have hi : Heeded plainDigests sampleDesk (.approve (calmStore 4) "jr_1" "mb_1" "master") :=
    ⟨⟨by decide +kernel, by decide +kernel, by decide +kernel⟩, rfl⟩
  obtain ⟨hd, -, hlaw⟩ :=
    admission_accounting plainDigests (sampleDesk_run (Heeded plainDigests) sampleFiled_heeded)
  exact ⟨by decide +kernel, hd, hlaw _ _ _ _ hi⟩

/-- The first request is approved, and "ada" is a live member. -/
def sampleAdmitted : Desk :=
  (sampleDesk.step plainDigests (.approve (calmStore 4) "jr_1" "mb_1" "master")).2

/-- The name check of the second approval fails: it is approved all the same, into the name of a
live member. -/
theorem failed_check_duplicates :
    ¬∀ (h : Digests) (tr : List (DeskInput × DeskAnswer)) (s : Desk),
      Sys.Run (desk h) (Fresh h) tr s →
      ∀ env id mb by_, Fresh h s (.approve env id mb by_) →
        (approveJoinRequest h env id mb by_ s.db).1 = .approved →
        ∀ request ∈ s.db.joinRequests, request.id = id →
          ∀ r ∈ s.db.members, r.revokedAt = none → r.membership.name ≠ request.name := by
  intro hall
  have hi : Fresh plainDigests sampleDesk (.approve (calmStore 4) "jr_1" "mb_1" "master") :=
    ⟨by decide +kernel, by decide +kernel, by decide +kernel⟩
  have hrun := (sampleDesk_run (Fresh plainDigests) fun s i hi => (sampleFiled_heeded s i hi).1).snoc _ hi
  have hdup := hall plainDigests _ sampleAdmitted hrun
    ⟨5, fun c => c = .checkName⟩ "jr_2" "mb_2" "master"
    ⟨by decide +kernel, by decide +kernel, by decide +kernel⟩ (by decide +kernel)
  exact absurd hdup (by decide +kernel)

end Loca.Building
