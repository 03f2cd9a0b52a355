/-
# `Loca.Building.Rank` — what rank decides: the ban at the door, the last word on davets

A ban is judged against one name, and the door says whose: the session's, or else the davet's, or else
that of the credential's principal, or else the hint.  Below rank, a ban on that name is final.

The routes that issue and end a davet resolve who is asking from the admin header and the session; who
signed the davet is read off the admin header alone, and the guard that keeps a smaster from ending a
davet of the master looks the davet up by its raw token alone.  `signatures` is the history of the
ranks on which the davets were issued; the server does not look at it.
-/
import Loca.Building.Eviction

namespace Loca.Building

open Table

/-! ## A ban -/

section

variable (k : Locks) (h : Digests) (t : Occasion) (s : Residence)

end

def RequestAuthority.isMaster (a : RequestAuthority) : Bool := a.buildingRole = some .master

/-- The admin token and the session token of a request. -/
structure Headers where
  admin : Option String
  session : Option String

/-- A route's own refusal, or what the hub said. -/
inductive DavetAnswer
  | refused (status : Nat) (text : String)
  | hub (a : Residence.ResidenceAnswer)
  deriving DecidableEq, Repr

namespace Residence

variable (k : Locks) (h : Digests) (t : Occasion) (s : Residence)

def memberByName (name : String) : Option Membership := s.members.find? fun m => m.name = name

def inviteManagementId (token : String) : String := h.hashedId "ivid_" ("invite:" ++ token)

def inviteByRef (reference : String) : Option Invite :=
  s.invites.find? fun inv => inv.token = reference || inviteManagementId h inv.token = reference

def revokeInviteRef (reference : String) : ResidenceAnswer × Residence :=
  match inviteByRef h s reference with
  | some inv => s.revokeInvite t inv.token
  | none => (.said false, s)

/-- Who signed: the smaster whose key is in the admin header, or else the master. -/
def issuedBy (admin : Option String) : String :=
  ((s.smasterName admin).map fun n => "smaster:" ++ n).getD "master"

/-- The rank of a request. -/
def authorityOf (hd : Headers) : RequestAuthority := s.resolveAuthority k h t hd.admin hd.session

/-- `POST /rooms/room/invites`. -/
def createInvite (room name : String) (hd : Headers) : DavetAnswer × Residence :=
  if !(authorityOf k h t s hd).isBuildingAdmin then (.refused 401 "master only", s)
  else if (Text.trim name).isEmpty then (.refused 400 "name required — a davet is given to someone", s)
  else match memberByName s (Text.trim name) with
    | none => (.refused 409 "this agent does not belong to the building yet", s)
    | some m =>
      let r := s.inviteMemberToRoom t m.token room (issuedBy s hd.admin)
      (.hub r.1, r.2)

/-- `DELETE /rooms/room/invites/reference`. -/
def revokeInviteRoute (room reference : String) (hd : Headers) : DavetAnswer × Residence :=
  if !(authorityOf k h t s hd).isBuildingAdmin then (.refused 401 "master only", s)
  else if ((inviteByRef h s reference).map fun inv => decide (inv.room ≠ room)).getD false then
    (.refused 404 "no such davet in this loca", s)
  else if !(authorityOf k h t s hd).isMaster &&
      ((s.inviteByToken t reference).map fun inv => decide (inv.issuedBy = "master")).getD false then
    (.refused 403 "the master issued this davet — only the master ends it", s)
  else
    let r := revokeInviteRef h t s reference
    (.hub r.1, r.2)

end Residence

/-- The hub, with the ranks on which the davets were issued. -/
structure Signed where
  house : Residence
  signatures : List (String × BuildingRole)

inductive DavetInput
  | createInvite (room name : String) (hd : Headers)
  | revokeInvite (room reference : String) (hd : Headers)
  | other (i : ResidenceInput)

/-- The rank that issued a davet is written down. -/
def sign (a : RequestAuthority) : DavetAnswer → List (String × BuildingRole)
  | .hub (.davet inv) => (a.buildingRole.map fun role => (inv.token, role)).toList
  | _ => []

def Signed.step (k : Locks) (h : Digests) (t : Occasion) (s : Signed) : DavetInput → DavetAnswer × Signed
  | .createInvite room name hd =>
      let r := s.house.createInvite k h t room name hd
      (r.1, ⟨r.2, s.signatures ++ sign (s.house.authorityOf k h t hd) r.1⟩)
  | .revokeInvite room reference hd =>
      let r := s.house.revokeInviteRoute k h t room reference hd
      (r.1, ⟨r.2, s.signatures⟩)
  | .other i =>
      let r := s.house.step k h t i
      (.hub r.1, ⟨r.2, s.signatures⟩)

/-- From any store, with nothing signed yet. -/
def davetDesk (k : Locks) (h : Digests) : Sys.Machine Signed (Occasion × DavetInput) DavetAnswer where
  init s := s = ⟨Residence.load s.house.db, []⟩
  step s i := s.step k h i.1 i.2

/-! ## Where davets come from -/

/-- A davet in force, or the record of one. -/
def Residence.Davet (s : Residence) (inv : Invite) : Prop := inv ∈ s.invites ∨ ∃ r ∈ s.db.invites, r.invite = inv

section

variable {k : Locks} {h : Digests} {s s' : Residence} {inv : Invite}

/-- The rows of a store speak of no davet that the other store does not know. -/
def Traced (db db' : Registry) : Prop := ∀ r ∈ db'.invites, ∃ r₀ ∈ db.invites, r₀.invite = r.invite

theorem Traced.of_eq {db db' : Registry} (he : db'.invites = db.invites) : Traced db db' :=
  fun r hr => ⟨r, he ▸ hr, rfl⟩

theorem revokeDavets_traced {db db' : Registry} (he : db'.invites = db.invites) (p : Invite → Bool) (now : Nat) :
    Traced db (revokeDavets p now db') := by
  intro r hr
  rw [revokeDavets, mem_updateWhere, he] at hr
  obtain ⟨r₀, hr₀, rfl⟩ := hr
  refine ⟨r₀, hr₀, ?_⟩
  split <;> rfl

theorem Residence.Davet.back (hd : s'.Davet inv) (hrows : Traced s.db s'.db) (hmap : ∀ i ∈ s'.invites, s.Davet i) :
    s.Davet inv := by
  rcases hd with hin | ⟨r, hr, rfl⟩
  · exact hmap inv hin
  · exact .inr (hrows r hr)

/-- Nothing about davets has changed. -/
theorem Residence.Davet.same (hd : s'.Davet inv) (hrows : s'.db.invites = s.db.invites) (hmap : s'.invites = s.invites) :
    s.Davet inv :=
  hd.back (.of_eq hrows) fun _ hi => .inl (hmap ▸ hi)

/-- Some davets are taken out of the map. -/
theorem Residence.Davet.fewer {davets : List Invite} (hd : s'.Davet inv) (hrows : Traced s.db s'.db)
    (hmap : s'.invites = House.removeDavets davets s.invites) : s.Davet inv :=
  hd.back hrows fun _ hi => .inl (mem_removeDavets.mp (hmap ▸ hi)).1

theorem migrateLegacyPrincipals_invites (db : Registry) :
    (Residence.migrateLegacyPrincipals h db).invites = db.invites := by
  have hfold : ∀ {ρ : Type} (f : Registry → ρ → Registry) (rows : List ρ) (db : Registry),
      (∀ db r, (f db r).invites = db.invites) → (rows.foldl f db).invites = db.invites := by
    intro ρ f rows db hf
    induction rows generalizing db with
    | nil => rfl
    | cons r rows ih => exact (ih (f db r)).trans (hf db r)
  dsimp only [Residence.migrateLegacyPrincipals]
  refine Eq.trans (hfold _ _ _ ?_) (hfold _ _ _ ?_)
  · exact fun _ _ => rfl
  · exact fun _ _ => rfl

theorem ensureMasterPrincipal_invites {now : Nat} {db db' : Registry}
    (he : Residence.ensureMasterPrincipal k h now db = some db') : db'.invites = db.invites := by
  unfold Residence.ensureMasterPrincipal at he
  dsimp only at he
  split at he
  · exact Option.some.inj he ▸ rfl
  · split at he
    · exact Option.some.inj he ▸ rfl
    · split at he
      · cases he
      · exact Option.some.inj he ▸ rfl

theorem inviteMemberToRoom_davets {t : Occasion} {member room by_ : String}
    (hd : (s.inviteMemberToRoom t member room by_).2.Davet inv) :
    s.Davet inv ∨ (inv.token = t.token ∧ inv.issuedBy = by_ ∧ (s.inviteMemberToRoom t member room by_).1 = .davet inv) := by
  unfold Residence.inviteMemberToRoom at hd ⊢
  split
  · next hb => rw [if_pos hb] at hd; exact .inl hd
  next hb =>
  rw [if_neg hb] at hd
  cases hm : s.members.find? fun x => x.token = member with
  | none => rw [hm] at hd; exact .inl hd
  | some x =>
      rw [hm] at hd
      dsimp only at hd ⊢
      split
      · next hc => rw [if_pos hc] at hd; exact .inl hd
      next hc =>
      rw [if_neg hc] at hd
      split
      · next hc => rw [if_pos hc] at hd; exact .inl hd
      next hc =>
      rw [if_neg hc] at hd
      split
      · next hc => rw [if_pos hc] at hd; exact .inl hd
      next hc =>
      rw [if_neg hc] at hd
      cases hins : insertInvite ⟨t.token, room, x.token, x.name, x.kind, t.now, by_⟩ s.db with
      | none => rw [hins] at hd; exact .inl hd
      | some db =>
          rw [hins] at hd
          obtain rfl := insertInvite_some hins
          rcases hd with hin | ⟨r, hr, rfl⟩
          · rcases mem_upsert.mp hin with ⟨hold, -⟩ | rfl
            · exact .inl (.inl hold)
            · exact .inr ⟨rfl, rfl, rfl⟩
          · rcases mem_upsert.mp hr with ⟨hold, -⟩ | rfl
            · exact .inl (.inr ⟨r, hold, rfl⟩)
            · exact .inr ⟨rfl, rfl, rfl⟩

theorem inviteMemberToRoom_answer {t : Occasion} {member room by_ : String}
    (ho : (s.inviteMemberToRoom t member room by_).1 = .davet inv) : inv.token = t.token ∧ inv.issuedBy = by_ := by
  simp only [Residence.inviteMemberToRoom] at ho
  repeat' split at ho
  all_goals cases ho
  exact ⟨rfl, rfl⟩

theorem revokeInvite_davets {t : Occasion} {token : String} (hd : (s.revokeInvite t token).2.Davet inv) : s.Davet inv := by
  unfold Residence.revokeInvite at hd
  split at hd
  · exact hd
  · split at hd
    · exact hd
    · exact hd.fewer (revokeDavets_traced rfl _ _) rfl

theorem createSession_davets (t : Occasion) (paired : Option Nat) (admin davet : Option String) (name : String)
    (kind : Option SenderType) :
    (s.createSession k h t paired admin davet name kind).2.db.invites = s.db.invites ∧
      (s.createSession k h t paired admin davet name kind).2.invites = s.invites := by
  have hscoped : ∀ (s : Residence) seat grant,
      (s.createSessionScoped h t name kind seat grant).2.db.invites = s.db.invites ∧
        (s.createSessionScoped h t name kind seat grant).2.invites = s.invites := by
    intro s seat grant
    unfold Residence.createSessionScoped
    dsimp only
    repeat' split
    all_goals exact ⟨rfl, rfl⟩
  unfold Residence.createSession
  dsimp only
  repeat' split
  all_goals first
    | exact ⟨rfl, rfl⟩
    | exact hscoped _ _ _

theorem revokeMember_davets {t : Occasion} {token : String} (hd : (s.revokeMember h t token).2.Davet inv) : s.Davet inv := by
  unfold Residence.revokeMember at hd
  split at hd
  · exact hd
  · split at hd
    · exact hd
    · refine hd.fewer ?_ rfl
      -- the principal and the credential are other tables
      exact @revokeDavets_traced s.db { s.db with
        members := updateWhere (fun r => r.membership.token = token && r.revokedAt.isNone)
          (fun r => { r with revokedAt := some t.now }) s.db.members } rfl (fun i => i.member = token) t.now

theorem suspendMember_traced {token reason : String} {now : Nat} {db db' : Registry}
    (hs : suspendMember h token reason now db = some db') : Traced db db' := by
  obtain ⟨p, -, rfl⟩ := Option.map_eq_some_iff.mp hs
  exact revokeDavets_traced rfl _ _

theorem setMemberSuspended_davets {t : Occasion} {reference reason : String} {suspended : Bool}
    (hd : (s.setMemberSuspended h t reference suspended reason).2.Davet inv) : s.Davet inv := by
  unfold Residence.setMemberSuspended at hd
  split at hd
  · exact hd
  · split at hd
    · unfold Residence.suspend at hd
      split at hd
      · exact hd
      · split at hd
        · exact hd
        · next hs => exact hd.fewer (suspendMember_traced hs) rfl
    · unfold Residence.resume at hd
      split at hd
      · exact hd
      · split at hd
        · exact hd
        · next hs =>
            obtain ⟨-, -, rfl⟩ := resumeMember_some hs
            exact hd

theorem restart_davets {t : Occasion} {stale : Invite → Bool} (hd : (s.restart k h t stale).Davet inv) : s.Davet inv := by
  unfold Residence.restart at hd
  split at hd
  · exact hd
  · next db hboot =>
      have hdb : db.invites = s.db.invites := by
        split at hboot
        · cases hboot
        · exact (ensureMasterPrincipal_invites hboot).trans (migrateLegacyPrincipals_invites s.db)
      dsimp only at hd
      refine hd.back (revokeDavets_traced ?_ _ _) fun i hi => ?_
      · exact hdb
      have hload := (mem_removeDavets.mp hi).1
      split at hload
      · cases hload
      · obtain ⟨r, hr, rfl⟩ := List.mem_map.mp hload
        exact .inr ⟨r, hdb ▸ (List.mem_filter.mp hr).1, rfl⟩

/-- A davet that was not there is one that the call has just drawn. -/
theorem step_davets {t : Occasion} {i : ResidenceInput} (hd : (s.step k h t i).2.Davet inv) :
    s.Davet inv ∨ inv.token = t.token := by
  cases i with
  | admitMember name kind by_ =>
      refine .inl (hd.same ?_ ?_) <;>
        (simp only [Residence.step, Residence.admitMember]; repeat' split) <;> rfl
  | approveJoinRequest id by_ =>
      have hkeep := @approveJoinRequestAtomic_invites h t.env id t.token by_ s.db
      refine .inl ?_
      simp only [Residence.step, Residence.approveJoinRequest] at hd
      split at hd
      · next ha => rw [ha] at hkeep; exact hd.same hkeep rfl
      · next ha => rw [ha] at hkeep; exact hd.same hkeep rfl
  | revokeMember token => exact .inl (revokeMember_davets hd)
  | setMemberSuspended reference suspended reason => exact .inl (setMemberSuspended_davets hd)
  | inviteMemberToRoom member room by_ => exact (inviteMemberToRoom_davets hd).imp id fun hn => hn.1
  | revokeInvite token => exact .inl (revokeInvite_davets hd)
  | revokeInvitesFor room name =>
      refine .inl ?_
      simp only [Residence.step, Residence.revokeInvitesFor] at hd
      split at hd
      · exact hd
      · split at hd
        · exact hd
        · exact hd.fewer (revokeDavets_traced rfl _ _) rfl
  | createSession paired admin davet name kind =>
      have hsame := createSession_davets (k := k) (h := h) (s := s) t paired admin davet name kind
      exact .inl (hd.same hsame.1 hsame.2)
  | lookUp st =>
      refine .inl (hd.same ?_ ?_) <;> (simp only [Residence.step, Residence.lookUp]; repeat' split) <;> rfl
  | revokeSession st =>
      refine .inl (hd.same ?_ ?_) <;> (simp only [Residence.step, Residence.revokeSession]; repeat' split) <;> rfl
  | createCredential principal label =>
      refine .inl (hd.same ?_ ?_) <;>
        (simp only [Residence.step, Residence.createCredential]; repeat' split) <;> rfl
  | revokeCredential principal id =>
      refine .inl (hd.same ?_ ?_) <;>
        (simp only [Residence.step, Residence.revokeCredential]; repeat' split) <;> rfl
  | addSmaster name =>
      refine .inl (hd.same ?_ ?_) <;> (simp only [Residence.step, Residence.addSmaster]; repeat' split) <;> rfl
  | revokeSmaster token =>
      refine .inl (hd.same ?_ ?_) <;> (simp only [Residence.step, Residence.revokeSmaster]; repeat' split) <;> rfl
  | desk i =>
      refine .inl ?_
      simp only [Residence.step] at hd
      split at hd
      · next hr =>
          obtain ⟨stock, requests, hdb⟩ := desk_routine h s.db hr
          rw [hdb] at hd
          exact hd
      · exact hd
  | restart stale => exact .inl (restart_davets hd)

end

/-! ## The last word -/

section

variable {k : Locks} {h : Digests}

/-- The name on a davet says which rank signed it. -/
def Signed.Attested (s : Signed) : Prop :=
  ∀ inv, s.house.Davet inv →
    ((inv.token, .master) ∈ s.signatures → inv.issuedBy = "master") ∧
      ((inv.token, .smaster) ∈ s.signatures → inv.issuedBy ≠ "master")

/-- The token that the operating system draws has never been a davet's. -/
structure Signed.Draws (s : Signed) (t : Occasion) : Prop where
  davets : ∀ inv, s.house.Davet inv → inv.token ≠ t.token
  signatures : ∀ e ∈ s.signatures, e.1 ≠ t.token

/-- A davet is issued with a smaster's key in the admin header exactly when it is issued on a smaster's
rank; and a smaster names a davet that bears the master's name by its token, while the store can say that
its member is not suspended. -/
def Signed.Plainly (k : Locks) (h : Digests) (s : Signed) (t : Occasion) : DavetInput → Prop
  | .createInvite _ _ hd => (s.house.authorityOf k h t hd).isBuildingAdmin = true →
      ((s.house.smasterName hd.admin).isSome = true ↔ (s.house.authorityOf k h t hd).buildingRole = some .smaster)
  | .revokeInvite _ reference hd => (s.house.authorityOf k h t hd).buildingRole = some .smaster →
      ∀ inv, s.house.inviteByRef h reference = some inv → inv.issuedBy = "master" →
        inv.token = reference ∧ (inv.member = "" ∨ s.house.suspended t inv.member = false)
  | .other _ => True

/-- A smaster's davet does not bear the master's name, and the master's davet ends by the master. -/
def Signed.LastWord (k : Locks) (h : Digests) (s : Signed) (t : Occasion) : DavetInput → Prop
  | .createInvite room name hd => (s.house.authorityOf k h t hd).buildingRole = some .smaster →
      ∀ inv, (s.step k h t (.createInvite room name hd)).1 = .hub (.davet inv) → inv.issuedBy ≠ "master"
  | .revokeInvite room reference hd => ∀ inv ∈ s.house.invites, (inv.token, .master) ∈ s.signatures →
      inv ∉ (s.step k h t (.revokeInvite room reference hd)).2.house.invites →
        (s.house.authorityOf k h t hd).isMaster = true
  | .other _ => True

theorem smaster_ne_master (n : String) : "smaster:" ++ n ≠ "master" := by
  intro he
  have hl := congrArg String.toList he
  rw [String.toList_append] at hl
  cases hl

theorem issuedBy_some {s : Residence} {admin : Option String} (hs : (s.smasterName admin).isSome = true) :
    s.issuedBy admin ≠ "master" := by
  obtain ⟨n, hn⟩ := Option.isSome_iff_exists.mp hs
  rw [Residence.issuedBy, hn]
  exact smaster_ne_master n

theorem issuedBy_none {s : Residence} {admin : Option String} (hs : ¬(s.smasterName admin).isSome = true) :
    s.issuedBy admin = "master" := by
  rw [Option.not_isSome_iff_eq_none] at hs
  rw [Residence.issuedBy, hs]
  rfl

theorem isBuildingAdmin_iff {a : RequestAuthority} :
    a.isBuildingAdmin = true ↔ a.buildingRole = some .master ∨ a.buildingRole = some .smaster := by
  simp [RequestAuthority.isBuildingAdmin]

/-- What the route that issues a davet can do. -/
theorem createInvite_cases (s : Residence) (t : Occasion) (room name : String) (hd : Headers) :
    ((s.createInvite k h t room name hd).2 = s ∧ ∀ a, (s.createInvite k h t room name hd).1 ≠ .hub a) ∨
      ((s.authorityOf k h t hd).isBuildingAdmin = true ∧ ∃ m, s.createInvite k h t room name hd =
        (.hub (s.inviteMemberToRoom t m room (s.issuedBy hd.admin)).1,
          (s.inviteMemberToRoom t m room (s.issuedBy hd.admin)).2)) := by
  unfold Residence.createInvite
  split
  · exact .inl ⟨rfl, by intro a ha; cases ha⟩
  next hadmin =>
  split
  · exact .inl ⟨rfl, by intro a ha; cases ha⟩
  · split
    · exact .inl ⟨rfl, by intro a ha; cases ha⟩
    · next m _ => exact .inr ⟨by simpa using hadmin, m.token, rfl⟩

/-- What the route that ends a davet can do. -/
theorem revokeInviteRoute_cases (s : Residence) (t : Occasion) (room reference : String) (hd : Headers) :
    (s.revokeInviteRoute k h t room reference hd).2 = s ∨
      ∃ inv, s.inviteByRef h reference = some inv ∧ (s.authorityOf k h t hd).isBuildingAdmin = true ∧
        ((s.authorityOf k h t hd).isMaster = true ∨
          ∀ d, s.inviteByToken t reference = some d → d.issuedBy ≠ "master") ∧
        (s.revokeInviteRoute k h t room reference hd).2 = (s.revokeInvite t inv.token).2 := by
  unfold Residence.revokeInviteRoute Residence.revokeInviteRef
  split
  · exact .inl rfl
  next hadmin =>
  split
  · exact .inl rfl
  split
  · exact .inl rfl
  next hguard =>
  cases href : s.inviteByRef h reference with
  | none => exact .inl rfl
  | some inv =>
      refine .inr ⟨inv, rfl, by simpa using hadmin, ?_, rfl⟩
      by_cases hm : (s.authorityOf k h t hd).isMaster = true
      · exact .inl hm
      · refine .inr fun d hfound hsigned => hguard ?_
        simp [hm, hfound, hsigned]

theorem mem_sign_role {a : RequestAuthority} {o : DavetAnswer} {token : String} {role : BuildingRole}
    (hm : (token, role) ∈ sign a o) : a.buildingRole = some role := by
  unfold sign at hm
  split at hm
  · obtain ⟨role', hrole, he⟩ := Option.map_eq_some_iff.mp (Option.mem_toList.mp hm)
    rw [hrole, (Prod.mk.inj he).2]
  · cases hm

theorem mem_sign_token {s : Residence} {t : Occasion} {member room by_ : String} {a : RequestAuthority} {token : String}
    {role : BuildingRole} (hm : (token, role) ∈ sign a (.hub (s.inviteMemberToRoom t member room by_).1)) :
    token = t.token := by
  cases ho : (s.inviteMemberToRoom t member room by_).1 with
  | davet inv =>
      rw [ho] at hm
      obtain ⟨role', -, he⟩ := Option.map_eq_some_iff.mp (Option.mem_toList.mp hm)
      rw [← (Prod.mk.inj he).1, (inviteMemberToRoom_answer ho).1]
  | _ => rw [ho] at hm; cases hm

theorem createInvite_attested {s : Signed} {t : Occasion} {room name : String} {hd : Headers} (ha : s.Attested)
    (hdraw : s.Draws t) (hp : s.Plainly k h t (.createInvite room name hd)) :
    (s.step k h t (.createInvite room name hd)).2.Attested := by
  simp only [Signed.step]
  rcases createInvite_cases (k := k) (h := h) s.house t room name hd with ⟨hsame, hno⟩ | ⟨hadmin, m, heq⟩
  · have hsign : sign (s.house.authorityOf k h t hd) (s.house.createInvite k h t room name hd).1 = [] := by
      cases ho : (s.house.createInvite k h t room name hd).1 with
      | refused status text => rfl
      | hub a => exact absurd ho (hno a)
    rw [hsame, hsign, List.append_nil]
    exact ha
  · rw [heq]
    intro inv hinv
    rcases inviteMemberToRoom_davets hinv with hold | ⟨htok, hby, -⟩
    · have hout : ∀ role, (inv.token, role) ∈ s.signatures ++ sign (s.house.authorityOf k h t hd)
          (.hub (s.house.inviteMemberToRoom t m room (s.house.issuedBy hd.admin)).1) →
            (inv.token, role) ∈ s.signatures := by
        intro role hmem
        refine (List.mem_append.mp hmem).resolve_right fun hsigned => ?_
        exact hdraw.davets inv hold (mem_sign_token hsigned)
      exact ⟨fun hm => (ha inv hold).1 (hout _ hm), fun hm => (ha inv hold).2 (hout _ hm)⟩
    · have hnew : ∀ role, (inv.token, role) ∈ s.signatures ++ sign (s.house.authorityOf k h t hd)
          (.hub (s.house.inviteMemberToRoom t m room (s.house.issuedBy hd.admin)).1) →
            (s.house.authorityOf k h t hd).buildingRole = some role := by
        intro role hmem
        rcases List.mem_append.mp hmem with hold | hsigned
        · exact absurd htok (hdraw.signatures _ hold)
        · exact mem_sign_role hsigned
      rw [hby]
      refine ⟨fun hm => ?_, fun hm => issuedBy_some ((hp hadmin).mpr (hnew _ hm))⟩
      refine issuedBy_none fun hs => ?_
      have hrole := (hp hadmin).mp hs
      rw [hnew _ hm] at hrole
      cases hrole

/-- What one call preserves. -/
theorem step_attested {s : Signed} {t : Occasion} {i : DavetInput} (ha : s.Attested) (hdraw : s.Draws t)
    (hp : s.Plainly k h t i) : (s.step k h t i).2.Attested := by
  cases i with
  | createInvite room name hd => exact createInvite_attested ha hdraw hp
  | revokeInvite room reference hd =>
      intro inv hinv
      refine ha inv ?_
      simp only [Signed.step] at hinv
      rcases revokeInviteRoute_cases (k := k) (h := h) s.house t room reference hd with hsame | ⟨d, -, -, -, heq⟩
      · rwa [hsame] at hinv
      · rw [heq] at hinv
        exact revokeInvite_davets hinv
  | other i =>
      intro inv hinv
      rcases step_davets (s := s.house) hinv with hold | htok
      · exact ha inv hold
      · exact ⟨fun hm => absurd htok (hdraw.signatures _ hm), fun hm => absurd htok (hdraw.signatures _ hm)⟩

/-- The davet that the reference finds by its token is the one that the guard finds. -/
theorem inviteByToken_of_ref {s : Residence} {t : Occasion} {reference : String} {inv : Invite}
    (href : s.inviteByRef h reference = some inv) (htok : inv.token = reference)
    (hm : inv.member = "" ∨ s.suspended t inv.member = false) : s.inviteByToken t reference = some inv := by
  obtain ⟨-, l₁, l₂, hl, hno⟩ := List.find?_eq_some_iff_append.mp href
  have hfind : (s.invites.find? fun i => i.token = reference) = some inv := by
    refine List.find?_eq_some_iff_append.mpr ⟨by simpa using htok, l₁, l₂, hl, fun x hx => ?_⟩
    have hx' := hno x hx
    simp only [Bool.not_eq_true', Bool.or_eq_false_iff] at hx'
    simpa using hx'.1
  simp only [Residence.inviteByToken, hfind]
  rw [if_neg]
  rcases hm with hm | hm <;> simp [hm]

/-- What one call may do. -/
theorem step_lastWord {s : Signed} {t : Occasion} {i : DavetInput} (ha : s.Attested) (hp : s.Plainly k h t i) :
    s.LastWord k h t i := by
  cases i with
  | createInvite room name hd =>
      intro hrole inv ho
      simp only [Signed.step] at ho
      rcases createInvite_cases (k := k) (h := h) s.house t room name hd with ⟨-, hno⟩ | ⟨hadmin, m, heq⟩
      · exact absurd ho (hno _)
      · rw [heq] at ho
        rw [(inviteMemberToRoom_answer (DavetAnswer.hub.inj ho)).2]
        exact issuedBy_some ((hp hadmin).mpr hrole)
  | revokeInvite room reference hd =>
      intro inv hin hsigned hgone
      simp only [Signed.step] at hgone
      rcases revokeInviteRoute_cases (k := k) (h := h) s.house t room reference hd with
        hsame | ⟨d, href, hadmin, hguard, heq⟩
      · rw [hsame] at hgone
        exact absurd hin hgone
      have hd : d ∈ s.house.invites := List.mem_of_find?_eq_some href
      -- the davet that is gone is the one the reference named
      have htok : d.token = inv.token := by
        rw [heq] at hgone
        unfold Residence.revokeInvite at hgone
        split at hgone
        · exact absurd hin hgone
        · next e he =>
            split at hgone
            · exact absurd hin hgone
            · by_contra hne
              refine hgone (mem_removeDavets.mpr ⟨hin, fun x hx => ?_⟩)
              obtain rfl := List.mem_singleton.mp hx
              have : x.token = d.token := by simpa using List.find?_some he
              rwa [this]
      have hmaster : d.issuedBy = "master" := (ha d (.inl hd)).1 (htok ▸ hsigned)
      rcases isBuildingAdmin_iff.mp hadmin with hm | hsm
      · exact decide_eq_true hm
      · obtain ⟨hraw, hlive⟩ := hp hsm d href hmaster
        rcases hguard with hm | hno
        · exact hm
        · exact absurd hmaster (hno d (inviteByToken_of_ref href hraw hlive))
  | other i => trivial

/-- Along every run in which davets are issued and named plainly: no davet that a smaster issued bears the
master's name, and a davet that the master issued is ended through the route by the master only. -/
theorem master_has_the_last_word {tr : List ((Occasion × DavetInput) × DavetAnswer)} {s : Signed}
    (r : Sys.Run (davetDesk k h) (fun s i => s.Draws i.1 ∧ s.Plainly k h i.1 i.2) tr s) :
    (∀ inv, s.house.Davet inv → (inv.token, .smaster) ∈ s.signatures → inv.issuedBy ≠ "master") ∧
      ∀ (t : Occasion) (i : DavetInput), s.Plainly k h t i → s.LastWord k h t i := by
  have ha : s.Attested := by
    refine r.invariant ?_ ?_
    · intro s hs inv _
      rw [hs]
      exact ⟨fun hm => (nomatch hm), fun hm => (nomatch hm)⟩
    · intro s i ha hi
      exact step_attested ha hi.1 hi.2
  exact ⟨fun inv hinv => (ha inv hinv).2, fun t i hp => step_lastWord ha hp⟩

end

instance (s : Signed) (t : Occasion) : Decidable (s.Draws t) :=
  decidable_of_iff ((∀ inv ∈ s.house.invites, inv.token ≠ t.token) ∧
      (∀ r ∈ s.house.db.invites, r.invite.token ≠ t.token) ∧ ∀ e ∈ s.signatures, e.1 ≠ t.token) <| by
    constructor
    · rintro ⟨hmap, hrows, hsigned⟩
      refine ⟨?_, hsigned⟩
      rintro inv (hin | ⟨r, hr, rfl⟩)
      · exact hmap inv hin
      · exact hrows r hr
    · intro hd
      exact ⟨fun inv hin => hd.davets inv (.inl hin), fun r hr => hd.davets _ (.inr ⟨r, hr, rfl⟩), hd.signatures⟩

instance (k : Locks) (h : Digests) (s : Signed) (t : Occasion) : (i : DavetInput) → Decidable (s.Plainly k h t i)
  | .createInvite _ _ _ => inferInstanceAs (Decidable (_ → (_ ↔ _)))
  | .revokeInvite _ reference hd =>
      decidable_of_iff ((s.house.authorityOf k h t hd).buildingRole = some .smaster →
        ∀ inv ∈ (s.house.inviteByRef h reference).toList, inv.issuedBy = "master" →
          inv.token = reference ∧ (inv.member = "" ∨ s.house.suspended t inv.member = false)) <| by
        simp only [Option.mem_toList]
        rfl
  | .other _ => inferInstanceAs (Decidable True)

/-- Ada is a member and Sam a smaster; the master gives Ada a davet for the lab. -/
def sampleSigning : List (Occasion × DavetInput) :=
  [(calmOccasion 2 "mb_1", .other (.admitMember "ada" "agent" "master")),
    (calmOccasion 3 "sm_1", .other (.addSmaster "sam")),
    (calmOccasion 4 "dv_1", .createInvite "lab" "ada" ⟨some "root", none⟩),
    (calmOccasion 5 "st_1", .other (.createSession none (some "sm_1") none "" none))]

def sampleSigned : List ((Occasion × DavetInput) × DavetAnswer) × Signed :=
  (davetDesk closedLocks plainDigests).exec sampleSigning [] ⟨Residence.load foundedRegistry, []⟩

/-- Sam cannot end it by its token. -/
theorem master_has_the_last_word_sample :
    sampleSigned.2.signatures = [("dv_1", .master)] ∧
    sampleSigned.2.Plainly closedLocks plainDigests (calmOccasion 6 "t_6") (.revokeInvite "lab" "dv_1" ⟨some "sm_1", none⟩) ∧
    sampleSigned.2.LastWord closedLocks plainDigests (calmOccasion 6 "t_6")
      (.revokeInvite "lab" "dv_1" ⟨some "sm_1", none⟩) := by
  have hrun : Sys.Run (davetDesk closedLocks plainDigests)
      (fun s i => s.Draws i.1 ∧ s.Plainly closedLocks plainDigests i.1 i.2) sampleSigned.1 sampleSigned.2 :=
    .exec sampleSigning (by decide +kernel) (.nil rfl)
  have hplain : sampleSigned.2.Plainly closedLocks plainDigests (calmOccasion 6 "t_6")
      (.revokeInvite "lab" "dv_1" ⟨some "sm_1", none⟩) := by decide +kernel
  exact ⟨by decide +kernel, hplain, (master_has_the_last_word hrun).2 _ _ hplain⟩

/-- Sam ends it by its management id; and what Sam signs in a session bears the master's name. -/
theorem smaster_takes_the_last_word :
    (¬ ∀ (k : Locks) (h : Digests) (tr : List ((Occasion × DavetInput) × DavetAnswer)) (s : Signed),
      Sys.Run (davetDesk k h) (fun s i => s.Draws i.1) tr s →
      ∀ (t : Occasion) (room reference : String) (hd : Headers), s.LastWord k h t (.revokeInvite room reference hd)) ∧
    ¬ ∀ (k : Locks) (h : Digests) (tr : List ((Occasion × DavetInput) × DavetAnswer)) (s : Signed),
      Sys.Run (davetDesk k h) (fun s i => s.Draws i.1) tr s →
      ∀ (t : Occasion) (room name : String) (hd : Headers), s.Draws t → s.LastWord k h t (.createInvite room name hd) := by
  have hrun : Sys.Run (davetDesk closedLocks plainDigests) (fun s i => s.Draws i.1) sampleSigned.1 sampleSigned.2 :=
    .exec sampleSigning (by decide +kernel) (.nil rfl)
  constructor
  · intro hall
    have hlast := hall _ _ _ _ hrun (calmOccasion 6 "t_6") "lab" "ivid_invite:dv_1" ⟨some "sm_1", none⟩
      ⟨"dv_1", "lab", "mb_1", "ada", "agent", 4, "master"⟩ (by decide +kernel) (by decide +kernel) (by decide +kernel)
    revert hlast
    decide +kernel
  · intro hall
    refine hall _ _ _ _ hrun (calmOccasion 6 "dv_2") "den" "ada" ⟨none, some "st_1"⟩ (by decide +kernel)
      (by decide +kernel) ⟨"dv_2", "den", "mb_1", "ada", "agent", 6, "master"⟩ (by decide +kernel) rfl

end Loca.Building
