/-
# `Loca.Building.Access` — the identity tables, call after call

What holds of the tables of `Loca.Building.Residence` between any two calls.  `Ids` is the structure
of the identity tables: secrets and principals are distinct, every member, smaster and the root key
has a credential whose principal has its rank, a principal with the rank of a member is a member's,
and no davet's token is a credential.  `Barred` is the law of a lost membership: the principal of a
member is disabled exactly while the membership is revoked or suspended, and no davet is in force then.

`New` is the condition on a token that is drawn: nothing in the store is it, or is named after it.
-/
import Loca.Base.Stamp
import Loca.Building.Davets
import Loca.Building.Residence

namespace Loca.Building

open Stamp Table

/-! ## Rows that only change in part -/

def SamePrincipal (p p' : PrincipalRow) : Prop := p'.id = p.id ∧ p'.buildingRole = p.buildingRole

def SameCredential (c c' : CredentialRow) : Prop :=
  c'.id = c.id ∧ c'.principalId = c.principalId ∧ c'.secretHash = c.secretHash ∧ c'.legacySource = c.legacySource

def SameMember (r r' : MemberRow) : Prop :=
  r'.membership = r.membership ∧ (r.revokedAt.isSome → r'.revokedAt.isSome)

def SameSmaster (r r' : SmasterRow) : Prop := r'.token = r.token

def SameDavet (r r' : InviteRow) : Prop :=
  r'.invite = r.invite ∧ (r.revokedAt.isSome → r'.revokedAt.isSome)

/-! ## The identity tables -/

section Ids

variable (h : Digests)

def principalIdOf (role : BuildingRole) (token : String) : String := h.hashedId "pr_" (identityText role token)

def credentialIdFor (role : BuildingRole) (token : String) : String := h.hashedId "cr_" (identityText role token)

def sourceOf (role : BuildingRole) (token : String) : Option String := some (identityText role (h.secretHash token))

/-- The token's credential, and a principal of this rank behind it. -/
def Vouched (db : Registry) (role : BuildingRole) (token principal : String) : Prop :=
  (∃ c ∈ db.credentials, c.id = credentialIdFor h role token ∧ c.secretHash = h.secretHash token ∧
    c.principalId = principal) ∧
  ∃ p ∈ db.principals, p.id = principal ∧ p.buildingRole = role

structure Ids (k : Locks) (db : Registry) : Prop where
  hashes : (db.credentials.map CredentialRow.secretHash).Nodup
  ids : (db.principals.map PrincipalRow.id).Nodup
  owned : ∀ c ∈ db.credentials, ∃ p ∈ db.principals, p.id = c.principalId
  members : ∀ r ∈ db.members, Vouched h db .member r.membership.token (principalIdOf h .member r.membership.token)
  smasters : ∀ r ∈ db.smasters, Vouched h db .smaster r.token (principalIdOf h .smaster r.token)
  root : ∃ p, Vouched h db .master k.adminToken p
  ranked : ∀ p ∈ db.principals, p.buildingRole = .member →
    ∃ r ∈ db.members, p.id = principalIdOf h .member r.membership.token
  sourced : ∀ r ∈ db.members,
    (∃ c ∈ db.credentials, c.legacySource = sourceOf h .member r.membership.token) ∧
    ∀ c ∈ db.credentials, c.legacySource = sourceOf h .member r.membership.token →
      c.principalId = principalIdOf h .member r.membership.token
  keyed : (db.members.map fun r => r.membership.token).Nodup
  apart : ∀ r ∈ db.members, ∀ r' ∈ db.members,
    principalIdOf h .member r.membership.token = principalIdOf h .member r'.membership.token → r = r'
  enlisted : ∀ x ∈ db.suspensions, ∃ r ∈ db.members, r.membership.token = x.memberToken
  davets : (db.invites.map fun r => r.invite.token).Nodup
  housed : ∀ r ∈ db.invites, ∃ m ∈ db.members, m.membership.token = r.invite.member
  plain : ∀ r ∈ db.invites, ∀ c ∈ db.credentials, c.secretHash ≠ h.secretHash r.invite.token

end Ids

section

variable {h : Digests} {k : Locks} {db db' : Registry}

theorem Vouched.mono {role : BuildingRole} {token principal : String}
    (hp : ∀ p ∈ db.principals, ∃ p' ∈ db'.principals, SamePrincipal p p')
    (hc : ∀ c ∈ db.credentials, ∃ c' ∈ db'.credentials, SameCredential c c')
    (hv : Vouched h db role token principal) : Vouched h db' role token principal := by
  obtain ⟨⟨c, hmem, h₁, h₂, h₃⟩, p, hpm, h₄, h₅⟩ := hv
  obtain ⟨c', hc', he₁, he₂, he₃, -⟩ := hc c hmem
  obtain ⟨p', hp', he₄, he₅⟩ := hp p hpm
  exact ⟨⟨c', hc', he₁.trans h₁, he₃.trans h₂, he₂.trans h₃⟩, p', hp', he₄.trans h₄, he₅.trans h₅⟩

/-- More rows do no harm. -/
theorem Vouched.grow {role : BuildingRole} {token principal : String}
    (hp : ∀ p ∈ db.principals, p ∈ db'.principals) (hc : ∀ c ∈ db.credentials, c ∈ db'.credentials)
    (hv : Vouched h db role token principal) : Vouched h db' role token principal :=
  hv.mono (fun p hmem => ⟨p, hp p hmem, rfl, rfl⟩) fun c hmem => ⟨c, hc c hmem, rfl, rfl, rfl, rfl⟩

/-- Rows stay what they are: revocations, suspensions and resumptions. -/
theorem Ids.ages (hi : Ids h k db) (hp : Ages SamePrincipal db.principals db'.principals)
    (hc : Ages SameCredential db.credentials db'.credentials) (hm : Ages SameMember db.members db'.members)
    (hs : Ages SameSmaster db.smasters db'.smasters) (hd : Ages SameDavet db.invites db'.invites)
    (hsus : ∀ x ∈ db'.suspensions, ∃ r ∈ db.members, r.membership.token = x.memberToken) : Ids h k db' := by
  have hv : ∀ {role token principal}, Vouched h db role token principal → Vouched h db' role token principal :=
    fun hv => hv.mono (fun p hmem => hp.keeps hmem) fun c hmem => hc.keeps hmem
  constructor
  · rw [hc.keys CredentialRow.secretHash fun _ _ he => he.2.2.1]
    exact hi.hashes
  · rw [hp.keys PrincipalRow.id fun _ _ he => he.1]
    exact hi.ids
  · intro c' hc'
    obtain ⟨c, hmem, he⟩ := hc.back hc'
    obtain ⟨p, hpm, hid⟩ := hi.owned c hmem
    obtain ⟨p', hp', hsame⟩ := hp.keeps hpm
    exact ⟨p', hp', hsame.1.trans (hid.trans he.2.1.symm)⟩
  · intro r' hr'
    obtain ⟨r, hr, he⟩ := hm.back hr'
    rw [he.1]
    exact hv (hi.members r hr)
  · intro r' hr'
    obtain ⟨r, hr, he⟩ := hs.back hr'
    rw [he]
    exact hv (hi.smasters r hr)
  · obtain ⟨p, hp⟩ := hi.root
    exact ⟨p, hv hp⟩
  · intro p' hp' hrole
    obtain ⟨p, hpm, he⟩ := hp.back hp'
    obtain ⟨r, hr, hid⟩ := hi.ranked p hpm (he.2.symm.trans hrole)
    obtain ⟨r', hr', hsame⟩ := hm.keeps hr
    exact ⟨r', hr', by rw [hsame.1, he.1]; exact hid⟩
  · intro r' hr'
    obtain ⟨r, hr, he⟩ := hm.back hr'
    rw [he.1]
    refine ⟨?_, fun c' hc' hsrc => ?_⟩
    · obtain ⟨c, hmem, hsrc⟩ := (hi.sourced r hr).1
      obtain ⟨c', hc', hsame⟩ := hc.keeps hmem
      exact ⟨c', hc', hsame.2.2.2.trans hsrc⟩
    · obtain ⟨c, hmem, hsame⟩ := hc.back hc'
      rw [hsame.2.1]
      exact (hi.sourced r hr).2 c hmem (hsame.2.2.2.symm.trans hsrc)
  · rw [hm.keys (fun r => r.membership.token) fun _ _ he => by rw [he.1]]
    exact hi.keyed
  · intro r' hr' u' hu' he
    obtain ⟨f, hf, hR⟩ := hm
    rw [hf] at hr' hu'
    obtain ⟨r, hr, rfl⟩ := List.mem_map.mp hr'
    obtain ⟨u, hu, rfl⟩ := List.mem_map.mp hu'
    rw [(hR r).1, (hR u).1] at he
    rw [hi.apart r hr u hu he]
  · intro x hx
    obtain ⟨r, hr, he⟩ := hsus x hx
    obtain ⟨r', hr', hsame⟩ := hm.keeps hr
    exact ⟨r', hr', by rw [hsame.1]; exact he⟩
  · rw [hd.keys (fun r => r.invite.token) fun _ _ he => by rw [he.1]]
    exact hi.davets
  · intro r' hr'
    obtain ⟨r, hr, he⟩ := hd.back hr'
    obtain ⟨m, hmm, htok⟩ := hi.housed r hr
    obtain ⟨m', hm', hsame⟩ := hm.keeps hmm
    exact ⟨m', hm', by rw [hsame.1, he.1]; exact htok⟩
  · intro r' hr' c' hc'
    obtain ⟨r, hr, he⟩ := hd.back hr'
    obtain ⟨c, hmem, hce⟩ := hc.back hc'
    rw [he.1, hce.2.2.1]
    exact hi.plain r hr c hmem

/-- What the other tables are does not matter. -/
theorem Ids.congr (hi : Ids h k db) (hp : db'.principals = db.principals)
    (hc : db'.credentials = db.credentials) (hm : db'.members = db.members)
    (hs : db'.smasters = db.smasters) (hd : db'.invites = db.invites)
    (hsus : db'.suspensions = db.suspensions) : Ids h k db' := by
  refine hi.ages ?_ ?_ ?_ ?_ ?_ (by rw [hsus]; exact hi.enlisted)
  · rw [hp]; exact .refl (fun _ => ⟨rfl, rfl⟩) _
  · rw [hc]; exact .refl (fun _ => ⟨rfl, rfl, rfl, rfl⟩) _
  · rw [hm]; exact .refl (fun _ => ⟨rfl, fun hr => hr⟩) _
  · rw [hs]; exact .refl (fun r => (rfl : SameSmaster r r)) _
  · rw [hd]; exact .refl (fun _ => ⟨rfl, fun hr => hr⟩) _

end

/-! ## A token that is drawn -/

/-- Nothing in the store is, or is named after, this token. -/
structure New (h : Digests) (db : Registry) (token : String) : Prop where
  secret : ∀ c ∈ db.credentials, c.secretHash ≠ h.secretHash token
  rows : ∀ c ∈ db.credentials,
    (∀ role, c.id ≠ credentialIdFor h role token) ∧ c.id ≠ h.hashedId "cr_" ("credential:" ++ token)
  sources : ∀ c ∈ db.credentials, ∀ role, c.legacySource ≠ sourceOf h role token
  principals : ∀ p ∈ db.principals, ∀ role, p.id ≠ principalIdOf h role token
  davets : ∀ r ∈ db.invites, h.secretHash r.invite.token ≠ h.secretHash token
  sessions : ∀ r ∈ db.sessions, r.id ≠ h.secretHash token

theorem identityText_ne (x y : String) : identityText .smaster x ≠ identityText .member y := by
  intro he
  have hl := congrArg String.toList he
  simp [identityText, BuildingRole.str, String.toList_append] at hl

section

variable {h : Digests} {k : Locks} {db db' : Registry} {token : String}

theorem New.member (hn : New h db token) (hi : Ids h k db) {r : MemberRow} (hr : r ∈ db.members) :
    r.membership.token ≠ token := by
  rintro rfl
  obtain ⟨⟨c, hc, -, hh, -⟩, -⟩ := hi.members r hr
  exact hn.secret c hc hh

theorem New.smaster (hn : New h db token) (hi : Ids h k db) {r : SmasterRow} (hr : r ∈ db.smasters) :
    r.token ≠ token := by
  rintro rfl
  obtain ⟨⟨c, hc, -, hh, -⟩, -⟩ := hi.smasters r hr
  exact hn.secret c hc hh

theorem New.davet (hn : New h db token) {r : InviteRow} (hr : r ∈ db.invites) : r.invite.token ≠ token :=
  fun he => hn.davets r hr (by rw [he])

/-- Both rows of a new identity are inserted. -/
theorem New.insert (hn : New h db token) (role : BuildingRole) (name kind : String) (now : Nat) (label : String) :
    insertPrincipalCredential h role token name kind now label db =
      { db with
        principals := db.principals ++ [principalRow h role token name kind now]
        credentials := db.credentials ++ [credentialRow h role token now label] } := by
  dsimp only [insertPrincipalCredential]
  rw [insertUnless_new fun p hp => ?_, insertUnless_new fun c hc => ?_]
  · have h₁ : c.id ≠ (credentialRow h role token now label).id := (hn.rows c hc).1 role
    have h₂ : c.secretHash ≠ (credentialRow h role token now label).secretHash := hn.secret c hc
    have h₃ : c.legacySource ≠ (credentialRow h role token now label).legacySource := hn.sources c hc role
    simp [CredentialRow.clashes, h₁, h₂, h₃]
  · exact decide_eq_false (hn.principals p hp role)

/-- What every new identity, of a member or of a smaster, leaves as it was. -/
theorem Ids.hashes_new (hi : Ids h k db) (hn : New h db token) {c : CredentialRow}
    (hc : c.secretHash = h.secretHash token) :
    ((db.credentials ++ [c]).map CredentialRow.secretHash).Nodup :=
  nodup_append_new hi.hashes fun x hx => by rw [hc]; exact hn.secret x hx

theorem Ids.plain_new (hi : Ids h k db) (hn : New h db token) {c : CredentialRow}
    (hc : c.secretHash = h.secretHash token) :
    ∀ r ∈ db.invites, ∀ x ∈ db.credentials ++ [c], x.secretHash ≠ h.secretHash r.invite.token := by
  intro r hr x hx
  rcases List.mem_append.mp hx with hx | hx
  · exact hi.plain r hr x hx
  · rw [List.mem_singleton.mp hx, hc]
    exact fun he => hn.davets r hr he.symm

theorem Ids.owned_new (hi : Ids h k db) {p : PrincipalRow} {c : CredentialRow} (hc : c.principalId = p.id) :
    ∀ x ∈ db.credentials ++ [c], ∃ q ∈ db.principals ++ [p], q.id = x.principalId := by
  intro x hx
  rcases List.mem_append.mp hx with hx | hx
  · obtain ⟨q, hq, he⟩ := hi.owned x hx
    exact ⟨q, List.mem_append_left _ hq, he⟩
  · rw [List.mem_singleton.mp hx]
    exact ⟨p, by simp, hc.symm⟩

/-- A new member. -/
theorem Ids.enrolMember (hi : Ids h k db) {x : Membership} (hn : New h db x.token) {name kind : String} {now : Nat}
    {label : String} (hm : db'.members = db.members ++ [⟨x, none⟩])
    (hp : db'.principals = db.principals ++ [principalRow h .member x.token name kind now])
    (hc : db'.credentials = db.credentials ++ [credentialRow h .member x.token now label])
    (hs : db'.smasters = db.smasters) (hd : db'.invites = db.invites)
    (hsus : db'.suspensions = db.suspensions) : Ids h k db' := by
  have hv : ∀ {role token principal}, Vouched h db role token principal → Vouched h db' role token principal :=
    fun hv => hv.grow (fun p hmem => hp ▸ List.mem_append_left _ hmem) fun c hmem => hc ▸ List.mem_append_left _ hmem
  have hcase : ∀ {r : MemberRow}, r ∈ db'.members → r ∈ db.members ∨ r = ⟨x, none⟩ := by
    intro r hr
    rw [hm] at hr
    simpa using hr
  have hold : ∀ {r : MemberRow}, r ∈ db.members → r ∈ db'.members := fun hr => hm ▸ List.mem_append_left _ hr
  constructor
  · rw [hc]
    exact hi.hashes_new hn rfl
  · rw [hp]
    exact nodup_append_new hi.ids fun p hpm => hn.principals p hpm .member
  · rw [hc, hp]
    exact hi.owned_new rfl
  · intro r hr
    rcases hcase hr with hr | rfl
    · exact hv (hi.members r hr)
    · exact ⟨⟨credentialRow h .member x.token now label, by rw [hc]; simp, rfl, rfl, rfl⟩,
        principalRow h .member x.token name kind now, by rw [hp]; simp, rfl, rfl⟩
  · intro r hr
    exact hv (hi.smasters r (hs ▸ hr))
  · obtain ⟨p, hp⟩ := hi.root
    exact ⟨p, hv hp⟩
  · intro p hpm hrole
    rw [hp] at hpm
    rcases List.mem_append.mp hpm with hpm | hpm
    · obtain ⟨r, hr, he⟩ := hi.ranked p hpm hrole
      exact ⟨r, hold hr, he⟩
    · exact ⟨⟨x, none⟩, by rw [hm]; simp, by rw [List.mem_singleton.mp hpm]; rfl⟩
  · intro r hr
    rw [hc]
    rcases hcase hr with hr | rfl
    · obtain ⟨⟨c, hcm, hsrc⟩, hall⟩ := hi.sourced r hr
      refine ⟨⟨c, List.mem_append_left _ hcm, hsrc⟩, fun c' hc' he => ?_⟩
      rcases List.mem_append.mp hc' with hc' | hc'
      · exact hall c' hc' he
      · -- the new source is no one else's
        rw [List.mem_singleton.mp hc'] at he
        exact absurd (hsrc.trans he.symm) (hn.sources c hcm .member)
    · refine ⟨⟨_, List.mem_append_right _ (List.mem_singleton.mpr rfl), rfl⟩, fun c' hc' he => ?_⟩
      rcases List.mem_append.mp hc' with hc' | hc'
      · exact absurd he (hn.sources c' hc' .member)
      · rw [List.mem_singleton.mp hc']
        rfl
  · rw [hm]
    exact nodup_append_new hi.keyed fun r hr => hn.member hi hr
  · intro r hr r' hr' he
    have hother : ∀ {u : MemberRow}, u ∈ db.members →
        principalIdOf h .member u.membership.token ≠ principalIdOf h .member x.token := by
      intro u hu heq
      obtain ⟨-, p, hpm, hid, -⟩ := hi.members u hu
      exact hn.principals p hpm .member (hid.trans heq)
    rcases hcase hr with hr | rfl <;> rcases hcase hr' with hr' | rfl
    · exact hi.apart r hr r' hr' he
    · exact absurd he (hother hr)
    · exact absurd he.symm (hother hr')
    · rfl
  · intro y hy
    obtain ⟨r, hr, he⟩ := hi.enlisted y (hsus ▸ hy)
    exact ⟨r, hold hr, he⟩
  · rw [hd]
    exact hi.davets
  · intro r hr
    obtain ⟨m, hmm, he⟩ := hi.housed r (hd ▸ hr)
    exact ⟨m, hold hmm, he⟩
  · rw [hd, hc]
    exact hi.plain_new hn rfl

/-- A new smaster. -/
theorem Ids.enrolSmaster (hi : Ids h k db) (hn : New h db token) {name kind : String} {now : Nat} {label : String}
    (hm : db'.members = db.members)
    (hp : db'.principals = db.principals ++ [principalRow h .smaster token name kind now])
    (hc : db'.credentials = db.credentials ++ [credentialRow h .smaster token now label])
    (hs : ∀ r ∈ db'.smasters, r ∈ db.smasters ∨ r.token = token) (hd : db'.invites = db.invites)
    (hsus : db'.suspensions = db.suspensions) : Ids h k db' := by
  have hv : ∀ {role token principal}, Vouched h db role token principal → Vouched h db' role token principal :=
    fun hv => hv.grow (fun p hmem => hp ▸ List.mem_append_left _ hmem) fun c hmem => hc ▸ List.mem_append_left _ hmem
  constructor
  · rw [hc]
    exact hi.hashes_new hn rfl
  · rw [hp]
    exact nodup_append_new hi.ids fun p hpm => hn.principals p hpm .smaster
  · rw [hc, hp]
    exact hi.owned_new rfl
  · rw [hm]
    exact fun r hr => hv (hi.members r hr)
  · intro r hr
    rcases hs r hr with hr | he
    · exact hv (hi.smasters r hr)
    · rw [he]
      exact ⟨⟨credentialRow h .smaster token now label, by rw [hc]; simp, rfl, rfl, rfl⟩,
        principalRow h .smaster token name kind now, by rw [hp]; simp, rfl, rfl⟩
  · obtain ⟨p, hp⟩ := hi.root
    exact ⟨p, hv hp⟩
  · intro p hpm hrole
    rw [hp] at hpm
    rw [hm]
    rcases List.mem_append.mp hpm with hpm | hpm
    · exact hi.ranked p hpm hrole
    · rw [List.mem_singleton.mp hpm] at hrole
      cases hrole
  · rw [hm, hc]
    intro r hr
    obtain ⟨⟨c, hcm, hsrc⟩, hall⟩ := hi.sourced r hr
    refine ⟨⟨c, List.mem_append_left _ hcm, hsrc⟩, fun c' hc' he => ?_⟩
    rcases List.mem_append.mp hc' with hc' | hc'
    · exact hall c' hc' he
    · rw [List.mem_singleton.mp hc'] at he
      exact absurd (Option.some.inj he) (identityText_ne _ _)
  · rw [hm]
    exact hi.keyed
  · rw [hm]
    exact hi.apart
  · rw [hm, hsus]
    exact hi.enlisted
  · rw [hd]
    exact hi.davets
  · rw [hm, hd]
    exact hi.housed
  · rw [hd, hc]
    exact hi.plain_new hn rfl

/-- A device key. -/
theorem Ids.newCredential (hi : Ids h k db) (hn : New h db token) {c : CredentialRow}
    (hc : c.secretHash = h.secretHash token) (hsrc : c.legacySource = none)
    (hown : ∃ p ∈ db.principals, p.id = c.principalId) :
    Ids h k { db with credentials := db.credentials ++ [c] } := by
  have hv : ∀ {role token principal}, Vouched h db role token principal →
      Vouched h { db with credentials := db.credentials ++ [c] } role token principal := by
    intro role token principal hv
    refine hv.grow ?_ ?_
    · exact fun p hmem => hmem
    · exact fun x hmem => List.mem_append_left _ hmem
  refine ⟨hi.hashes_new hn hc, hi.ids, ?_, fun r hr => hv (hi.members r hr), fun r hr => hv (hi.smasters r hr), ?_,
    hi.ranked, ?_, hi.keyed, hi.apart, hi.enlisted, hi.davets, hi.housed, hi.plain_new hn hc⟩
  · intro x hx
    rcases List.mem_append.mp hx with hx | hx
    · exact hi.owned x hx
    · rw [List.mem_singleton.mp hx]
      exact hown
  · obtain ⟨p, hp⟩ := hi.root
    exact ⟨p, hv hp⟩
  · intro r hr
    obtain ⟨⟨x, hx, he⟩, hall⟩ := hi.sourced r hr
    refine ⟨⟨x, List.mem_append_left _ hx, he⟩, fun y hy hye => ?_⟩
    rcases List.mem_append.mp hy with hy | hy
    · exact hall y hy hye
    · rw [List.mem_singleton.mp hy, hsrc] at hye
      cases hye

/-- A davet. -/
theorem Ids.newDavet (hi : Ids h k db) {inv : Invite} (hn : New h db inv.token)
    (hm : ∃ m ∈ db.members, m.membership.token = inv.member) :
    Ids h k { db with invites := upsert (fun r => r.invite.token) ⟨inv, none⟩ db.invites } := by
  refine ⟨hi.hashes, hi.ids, hi.owned, hi.members, hi.smasters, hi.root, hi.ranked, hi.sourced, hi.keyed, hi.apart,
    hi.enlisted, nodup_upsert hi.davets, ?_, ?_⟩
  · intro r hr
    rcases mem_upsert.mp hr with ⟨hr, -⟩ | rfl
    · exact hi.housed r hr
    · exact hm
  · intro r hr c hc
    rcases mem_upsert.mp hr with ⟨hr, -⟩ | rfl
    · exact hi.plain r hr c hc
    · exact hn.secret c hc

/-- One more principal without a member's rank. -/
theorem Ids.newPrincipal (hi : Ids h k db) {p : PrincipalRow} (hrole : p.buildingRole ≠ .member) :
    Ids h k { db with principals := insertIgnore PrincipalRow.id p db.principals } := by
  have hsub : ∀ q ∈ db.principals, q ∈ insertIgnore PrincipalRow.id p db.principals :=
    fun q hq => mem_insertIgnore.mpr (.inl hq)
  have hv : ∀ {role token principal}, Vouched h db role token principal →
      Vouched h { db with principals := insertIgnore PrincipalRow.id p db.principals } role token principal :=
    fun hv => hv.grow hsub fun c hc => hc
  refine ⟨hi.hashes, nodup_insertIgnore hi.ids, ?_, fun r hr => hv (hi.members r hr),
    fun r hr => hv (hi.smasters r hr), ?_, ?_, hi.sourced, hi.keyed, hi.apart, hi.enlisted, hi.davets, hi.housed,
    hi.plain⟩
  · intro c hc
    obtain ⟨q, hq, he⟩ := hi.owned c hc
    exact ⟨q, hsub q hq, he⟩
  · obtain ⟨q, hq⟩ := hi.root
    exact ⟨q, hv hq⟩
  · intro q hq hmem
    rcases mem_insertIgnore.mp hq with hq | ⟨rfl, -⟩
    · exact hi.ranked q hq hmem
    · exact absurd hmem hrole

end

/-! ## A lost membership -/

/-- Revoked or suspended. -/
def Cut (db : Registry) (m : String) : Prop :=
  (∃ r ∈ db.members, r.membership.token = m ∧ r.revokedAt.isSome) ∨ memberSuspended m db = true

structure Barred (h : Digests) (db : Registry) : Prop where
  disabled : ∀ r ∈ db.members, ∀ p ∈ db.principals, p.id = principalIdOf h .member r.membership.token →
    (p.disabledAt.isSome ↔ Cut db r.membership.token)
  davets : ∀ m, Cut db m → ∀ i ∈ db.invites, i.invite.member = m → i.revokedAt.isSome

theorem memberSuspended_iff {m : String} {db : Registry} :
    memberSuspended m db = true ↔ ∃ x ∈ db.suspensions, x.memberToken = m := by
  simp [memberSuspended]

section

variable {h : Digests} {k : Locks} {db db' : Registry}

/-- Whoever is cut off is on the list of members. -/
theorem Ids.cut_member (hi : Ids h k db) {m : String} (hc : Cut db m) : ∃ r ∈ db.members, r.membership.token = m := by
  rcases hc with ⟨r, hr, he, -⟩ | hs
  · exact ⟨r, hr, he⟩
  · obtain ⟨x, hx, rfl⟩ := memberSuspended_iff.mp hs
    exact hi.enlisted x hx

theorem Ids.member_eq (hi : Ids h k db) {r r' : MemberRow} (hr : r ∈ db.members) (hr' : r' ∈ db.members)
    (he : r.membership.token = r'.membership.token) : r = r' :=
  eq_of_key hi.keyed hr hr' he

/-- The credential of a member's token is that of the member's principal. -/
theorem Ids.member_credential (hi : Ids h k db) {r : MemberRow} (hr : r ∈ db.members) {c : CredentialRow}
    (hc : c ∈ db.credentials) (hh : c.secretHash = h.secretHash r.membership.token) :
    c.principalId = principalIdOf h .member r.membership.token := by
  obtain ⟨⟨c', hc', -, hh', hp'⟩, -⟩ := hi.members r hr
  rw [eq_of_key hi.hashes hc hc' (hh.trans hh'.symm)]
  exact hp'

/-- The principal of a member has the rank of one. -/
theorem Ids.member_rank (hi : Ids h k db) {r : MemberRow} (hr : r ∈ db.members) {p : PrincipalRow}
    (hp : p ∈ db.principals) (hid : p.id = principalIdOf h .member r.membership.token) :
    p.buildingRole = .member := by
  obtain ⟨-, p', hp', hid', hrole⟩ := hi.members r hr
  rw [eq_of_key hi.ids hp hp' (hid.trans hid'.symm)]
  exact hrole

/-- No member is cut off or let in, no davet comes, no member's principal is touched. -/
theorem Barred.keep (hb : Barred h db) (hi' : Ids h k db') (hcut : ∀ m, Cut db' m → Cut db m)
    (hstay : ∀ m, Cut db m → Cut db' m)
    (hm : ∀ r' ∈ db'.members, ∃ r ∈ db.members, r.membership.token = r'.membership.token)
    (hp : ∀ p' ∈ db'.principals, p'.buildingRole = .member →
      ∃ p ∈ db.principals, p.id = p'.id ∧ p'.disabledAt.isSome = p.disabledAt.isSome)
    (hd : Ages SameDavet db.invites db'.invites) : Barred h db' := by
  constructor
  · intro r' hr' p' hp' hid
    obtain ⟨r, hr, he⟩ := hm r' hr'
    obtain ⟨p, hpm, hpid, hdis⟩ := hp p' hp' (hi'.member_rank hr' hp' hid)
    rw [hdis, hb.disabled r hr p hpm (by rw [hpid, hid, he]), he]
    exact ⟨hstay _, hcut _⟩
  · intro m hc i' hi'' hmem
    obtain ⟨i, him, hinv, hrev⟩ := hd.back hi''
    exact hrev (hb.davets m (hcut m hc) i him (hinv ▸ hmem))

theorem cut_congr {m : String} (hm : db'.members = db.members) (hs : db'.suspensions = db.suspensions) :
    Cut db' m ↔ Cut db m := by
  unfold Cut memberSuspended
  rw [hm, hs]

/-- A new member is in, and no one else's standing changes. -/
theorem cut_enrol {x : Membership} (hnew : ∀ r ∈ db.members, r.membership.token ≠ x.token)
    (hi : Ids h k db) (hm : db'.members = db.members ++ [⟨x, none⟩]) (hs : db'.suspensions = db.suspensions) (m : String) :
    (Cut db' m ↔ Cut db m) ∧ ¬Cut db x.token := by
  refine ⟨?_, fun hc => ?_⟩
  · unfold Cut memberSuspended
    rw [hm, hs]
    refine or_congr_left ⟨?_, fun ⟨r, hr, he⟩ => ⟨r, List.mem_append_left _ hr, he⟩⟩
    rintro ⟨r, hr, he, hrev⟩
    rcases List.mem_append.mp hr with hr | hr
    · exact ⟨r, hr, he, hrev⟩
    · rw [List.mem_singleton.mp hr] at hrev
      cases hrev
  · obtain ⟨r, hr, he⟩ := hi.cut_member hc
    exact hnew r hr he

theorem Barred.enrolMember (hb : Barred h db) (hi : Ids h k db) {x : Membership} (hn : New h db x.token)
    {name kind : String} {now : Nat} (hm : db'.members = db.members ++ [⟨x, none⟩])
    (hp : db'.principals = db.principals ++ [principalRow h .member x.token name kind now])
    (hd : db'.invites = db.invites) (hs : db'.suspensions = db.suspensions) : Barred h db' := by
  have hcut := cut_enrol (fun r hr => hn.member hi hr) hi hm hs
  constructor
  · intro r hr p hpm hid
    rw [(hcut _).1]
    rw [hm] at hr
    rw [hp] at hpm
    rcases List.mem_append.mp hr with hr | hr <;> rcases List.mem_append.mp hpm with hpm | hpm
    · exact hb.disabled r hr p hpm hid
    · -- the new principal is no one else's
      rw [List.mem_singleton.mp hpm] at hid
      obtain ⟨-, q, hq, hqid, -⟩ := hi.members r hr
      exact absurd (hqid.trans hid.symm) (hn.principals q hq .member)
    · rw [List.mem_singleton.mp hr] at hid
      exact absurd hid (hn.principals p hpm .member)
    · rw [List.mem_singleton.mp hr, List.mem_singleton.mp hpm]
      exact ⟨fun hdis => by simp [principalRow] at hdis, fun hc => absurd hc (hcut "").2⟩
  · intro m hc i him
    exact hb.davets m ((hcut m).1.mp hc) i (hd ▸ him)

theorem Barred.newDavet (hb : Barred h db) {inv : Invite} (hc : ¬Cut db inv.member) :
    Barred h { db with invites := upsert (fun r => r.invite.token) ⟨inv, none⟩ db.invites } := by
  refine ⟨hb.disabled, fun m hcut i hi he => ?_⟩
  rcases mem_upsert.mp hi with ⟨hi, -⟩ | rfl
  · exact hb.davets m hcut i hi he
  · exact absurd (he ▸ hcut) hc

theorem revokeDavets_ages (p : Invite → Bool) (now : Nat) (db : Registry) :
    Ages SameDavet db.invites (revokeDavets p now db).invites :=
  .update (fun _ => ⟨rfl, fun hr => hr⟩) (fun _ => ⟨rfl, fun _ => rfl⟩) _

theorem revokePrincipalCredential_ages (h : Digests) (token : String) (now : Nat) (db : Registry) :
    Ages SamePrincipal db.principals (revokePrincipalCredential h token now db).principals ∧
    Ages SameCredential db.credentials (revokePrincipalCredential h token now db).credentials :=
  ⟨.update (fun _ => ⟨rfl, rfl⟩) (fun _ => ⟨rfl, rfl⟩) _,
    .update (fun _ => ⟨rfl, rfl, rfl, rfl⟩) (fun _ => ⟨rfl, rfl, rfl, rfl⟩) _⟩

/-- A member's principal is disabled by the member's own token only. -/
theorem Ids.hit_iff (hi : Ids h k db) {m r : MemberRow} (hm : m ∈ db.members) (hr : r ∈ db.members) {p : PrincipalRow}
    (hid : p.id = principalIdOf h .member r.membership.token) :
    (db.credentials.any fun c => c.secretHash = h.secretHash m.membership.token && c.principalId = p.id) = true ↔
      r = m := by
  simp only [List.any_eq_true, Bool.and_eq_true, decide_eq_true_eq]
  constructor
  · rintro ⟨c, hc, hh, hpid⟩
    exact hi.apart r hr m hm (hid.symm.trans (hpid.symm.trans (hi.member_credential hm hc hh)))
  · rintro rfl
    obtain ⟨⟨c, hc, -, hh, hpid⟩, -⟩ := hi.members r hr
    exact ⟨c, hc, hh, hpid.trans hid.symm⟩

/-! ### The end of a membership -/

theorem Ids.revokeMemberCascade (hi : Ids h k db) (token : String) (now : Nat) :
    Ids h k (revokeMemberCascade h token now db) := by
  have hages := revokePrincipalCredential_ages h token now (Loca.Building.revokeDavets (fun i => i.member = token) now
    { db with
      members := updateWhere (fun r => r.membership.token = token && r.revokedAt.isNone)
        (fun r => { r with revokedAt := some now }) db.members })
  refine hi.ages hages.1 hages.2 ?_ ?_
    (revokeDavets_ages (fun i => i.member = token) now db) hi.enlisted
  · exact .update (fun _ => ⟨rfl, fun hr => hr⟩) (fun _ => ⟨rfl, fun _ => rfl⟩) _
  · exact .refl (fun r => (rfl : SameSmaster r r)) _

theorem cut_revoked {token : String} (now : Nat) (hm : ∃ r ∈ db.members, r.membership.token = token) (x : String) :
    Cut (revokeMemberCascade h token now db) x ↔ Cut db x ∨ x = token := by
  have hrows : ∀ y, (∃ r ∈ (revokeMemberCascade h token now db).members, r.membership.token = y ∧ r.revokedAt.isSome) ↔
      (∃ r ∈ db.members, r.membership.token = y ∧ r.revokedAt.isSome) ∨
      (y = token ∧ ∃ r ∈ db.members, r.membership.token = y) := by
    intro y
    constructor
    · rintro ⟨r', hr', he, hrev⟩
      obtain ⟨r, hr, rfl⟩ := mem_updateWhere.mp hr'
      by_cases hhit : (decide (r.membership.token = token) && r.revokedAt.isNone) = true
      · rw [if_pos hhit] at he
        simp only [Bool.and_eq_true, decide_eq_true_eq] at hhit
        exact .inr ⟨he.symm.trans hhit.1, r, hr, he⟩
      · rw [if_neg hhit] at he hrev
        exact .inl ⟨r, hr, he, hrev⟩
    · have hmem : ∀ r ∈ db.members, (if r.membership.token = token && r.revokedAt.isNone
          then { r with revokedAt := some now } else r) ∈ (revokeMemberCascade h token now db).members :=
        fun r hr => mem_updateWhere.mpr ⟨r, hr, rfl⟩
      rintro (⟨r, hr, he, hrev⟩ | ⟨rfl, r, hr, he⟩)
      · refine ⟨_, hmem r hr, ?_⟩
        split <;> exact ⟨he, by simp_all⟩
      · refine ⟨_, hmem r hr, ?_⟩
        cases hrev : r.revokedAt <;> simp [he, hrev]
  unfold Cut
  rw [hrows]
  constructor
  · rintro ((hc | ⟨rfl, -⟩) | hs)
    · exact .inl (.inl hc)
    · exact .inr rfl
    · exact .inl (.inr hs)
  · rintro ((hc | hs) | rfl)
    · exact .inl (.inl hc)
    · exact .inr hs
    · exact .inl (.inr ⟨rfl, hm⟩)

theorem Barred.revokeMemberCascade (hb : Barred h db) (hi : Ids h k db) {m : MemberRow} (hm : m ∈ db.members) (now : Nat) :
    Barred h (revokeMemberCascade h m.membership.token now db) := by
  have hcut := @cut_revoked h db m.membership.token now ⟨m, hm, rfl⟩
  constructor
  · intro r' hr' p' hp' hid
    obtain ⟨r, hr, hre⟩ := mem_updateWhere.mp hr'
    obtain ⟨p, hp, hpe⟩ := mem_updateWhere.mp hp'
    have htok : r'.membership.token = r.membership.token := by rw [← hre]; split <;> rfl
    have hpid : p'.id = p.id := by rw [← hpe]; split <;> rfl
    rw [hcut, htok]
    have hown : p.id = principalIdOf h .member r.membership.token := by rw [← hpid, hid, htok]
    have hhit := hi.hit_iff hm hr hown
    have hold := hb.disabled r hr p hp hown
    by_cases hrm : r = m
    · have hany := hhit.mpr hrm
      refine ⟨fun _ => .inr (by rw [hrm]), fun _ => ?_⟩
      cases hdis : p.disabledAt with
      | none =>
          rw [← hpe, if_pos]
          · rfl
          · rw [Bool.and_eq_true]
            exact ⟨hany, by rw [hdis]; rfl⟩
      | some at_ =>
          rw [← hpe]
          split
          · rfl
          · rw [hdis]; rfl
    · have hany := Bool.eq_false_iff.mpr (mt hhit.mp hrm)
      have hsame : p' = p := by
        rw [← hpe, if_neg]
        intro hh
        rw [Bool.and_eq_true] at hh
        exact Bool.eq_false_iff.mp hany hh.1
      rw [hsame, hold]
      refine ⟨.inl, fun hc => hc.resolve_right fun he => hrm (hi.member_eq hr hm he)⟩
  · intro x hc i' hi' he
    obtain ⟨i, him, rfl⟩ := mem_updateWhere.mp hi'
    have hinv : i.invite.member = x := by
      rw [← he]
      split <;> rfl
    cases hrev : i.revokedAt with
    | some at_ =>
        split
        · rfl
        · rw [hrev]; rfl
    | none =>
        rcases (hcut x).mp hc with hc | rfl
        · have := hb.davets x hc i him hinv
          rw [hrev] at this
          cases this
        · rw [if_pos (by simp [hinv])]
          rfl

/-! ### Suspensions -/

/-- Only a member with a row in force is suspended, and then this is what is written. -/
theorem Ids.suspendMember_some (hi : Ids h k db) {token reason : String} {now : Nat}
    (hs : suspendMember h token reason now db = some db') :
    ∃ m ∈ db.members, m.membership.token = token ∧
      db' = revokeDavets (fun i => i.member = token) now { db with
        suspensions := insertIgnore SuspensionRow.memberToken ⟨token, now, reason⟩ db.suspensions
        principals := updateWhere (fun p => p.id = principalIdOf h .member token && p.disabledAt.isNone)
          (fun p => { p with disabledAt := some now }) db.principals
        sessions := updateWhere (fun x => x.principalId = principalIdOf h .member token && x.revokedAt.isNone)
          (fun x => { x with revokedAt := some now }) db.sessions } := by
  obtain ⟨principal, hp, rfl⟩ := Option.map_eq_some_iff.mp hs
  unfold memberPrincipal at hp
  split at hp
  · next hlive =>
      obtain ⟨m, hm, htok⟩ := List.any_eq_true.mp hlive
      simp only [Bool.and_eq_true, decide_eq_true_eq] at htok
      obtain ⟨p, hfind, rfl⟩ := Option.map_eq_some_iff.mp hp
      have hhit := List.find?_some hfind
      simp only [Bool.and_eq_true, decide_eq_true_eq, List.any_eq_true] at hhit
      obtain ⟨-, c, hc, hh, hpid⟩ := hhit
      have hown : p.id = principalIdOf h .member token := by
        rw [← hpid, ← htok.1]
        exact hi.member_credential hm hc (by rw [htok.1]; exact hh)
      exact ⟨m, hm, htok.1, by rw [hown]⟩
  · cases hp

theorem Ids.suspendMember (hi : Ids h k db) {token reason : String} {now : Nat}
    (hs : suspendMember h token reason now db = some db') : Ids h k db' := by
  obtain ⟨m, hm, htok, rfl⟩ := hi.suspendMember_some hs
  refine hi.ages ?_ ?_ ?_ ?_ (revokeDavets_ages (fun i => i.member = token) now db) ?_
  · exact .update (fun _ => ⟨rfl, rfl⟩) (fun _ => ⟨rfl, rfl⟩) _
  · exact .refl (fun _ => ⟨rfl, rfl, rfl, rfl⟩) _
  · exact .refl (fun _ => ⟨rfl, fun hr => hr⟩) _
  · exact .refl (fun r => (rfl : SameSmaster r r)) _
  · intro x hx
    rcases mem_insertIgnore.mp hx with hx | ⟨rfl, -⟩
    · exact hi.enlisted x hx
    · exact ⟨m, hm, htok⟩

theorem Ids.cut_suspended (hi : Ids h k db) {token reason : String} {now : Nat}
    (hs : Loca.Building.suspendMember h token reason now db = some db') (x : String) :
    Cut db' x ↔ Cut db x ∨ x = token := by
  obtain ⟨m, hm, htok, rfl⟩ := hi.suspendMember_some hs
  have hsus : memberSuspended x (revokeDavets (fun i => i.member = token) now { db with
      suspensions := insertIgnore SuspensionRow.memberToken ⟨token, now, reason⟩ db.suspensions
      principals := updateWhere (fun p => p.id = principalIdOf h .member token && p.disabledAt.isNone)
        (fun p => { p with disabledAt := some now }) db.principals
      sessions := updateWhere (fun x => x.principalId = principalIdOf h .member token && x.revokedAt.isNone)
        (fun x => { x with revokedAt := some now }) db.sessions }) = true ↔
      memberSuspended x db = true ∨ x = token := by
    rw [memberSuspended_iff, memberSuspended_iff]
    constructor
    · rintro ⟨y, hy, rfl⟩
      rcases mem_insertIgnore.mp hy with hy | ⟨rfl, -⟩
      · exact .inl ⟨y, hy, rfl⟩
      · exact .inr rfl
    · rintro (⟨y, hy, rfl⟩ | rfl)
      · exact ⟨y, mem_insertIgnore.mpr (.inl hy), rfl⟩
      · by_cases hold : ∃ y ∈ db.suspensions, y.memberToken = x
        · obtain ⟨y, hy, he⟩ := hold
          exact ⟨y, mem_insertIgnore.mpr (.inl hy), he⟩
        · exact ⟨⟨x, now, reason⟩, mem_insertIgnore.mpr (.inr ⟨rfl, fun y hy he => hold ⟨y, hy, he⟩⟩), rfl⟩
  unfold Cut
  rw [hsus, or_assoc]
  exact Iff.rfl

theorem Barred.suspendMember (hb : Barred h db) (hi : Ids h k db) {token reason : String} {now : Nat}
    (hs : suspendMember h token reason now db = some db') : Barred h db' := by
  have hcut := hi.cut_suspended hs
  obtain ⟨m, hm, htok, rfl⟩ := hi.suspendMember_some hs
  constructor
  · intro r hr p' hp' hid
    rw [hcut]
    obtain ⟨p, hp, rfl⟩ := mem_updateWhere.mp hp'
    have hpid : p.id = principalIdOf h .member r.membership.token := by
      rw [← hid]
      split <;> rfl
    have hold := hb.disabled r hr p hp hpid
    by_cases hrm : r = m
    · subst hrm
      refine ⟨fun _ => .inr htok, fun _ => ?_⟩
      cases hdis : p.disabledAt with
      | none =>
          rw [if_pos (by simp [hpid, htok])]
          rfl
      | some at_ =>
          split
          · rfl
          · rw [hdis]; rfl
    · rw [if_neg, hold]
      · exact ⟨.inl, fun hc => hc.resolve_right fun he => hrm (hi.member_eq hr hm (he.trans htok.symm))⟩
      · intro hh
        simp only [Bool.and_eq_true, decide_eq_true_eq] at hh
        exact hrm (hi.apart r hr m hm (hpid.symm.trans (by rw [hh.1, htok])))
  · intro x hc i' hi' he
    obtain ⟨i, him, rfl⟩ := mem_updateWhere.mp hi'
    have hinv : i.invite.member = x := by
      rw [← he]
      split <;> rfl
    cases hrev : i.revokedAt with
    | some at_ =>
        split
        · rfl
        · rw [hrev]; rfl
    | none =>
        rcases (hcut x).mp hc with hc | rfl
        · have := hb.davets x hc i him hinv
          rw [hrev] at this
          cases this
        · rw [if_pos (by simp [hinv])]
          rfl

theorem resumeMember_some {token : String} (hs : resumeMember h token db = some db') :
    memberSuspended token db = true ∧ (∃ m ∈ db.members, m.membership.token = token ∧ m.revokedAt = none) ∧
      db' = { db with
        suspensions := deleteWhere (fun r => r.memberToken = token) db.suspensions
        principals := updateWhere
          (fun p => (db.credentials.any fun c => c.secretHash = h.secretHash token && c.principalId = p.id) &&
            p.buildingRole = .member)
          (fun p => { p with disabledAt := none }) db.principals } := by
  unfold resumeMember at hs
  split at hs
  · next hcond =>
      simp only [Bool.and_eq_true, List.any_eq_true, decide_eq_true_eq, Option.isNone_iff_eq_none] at hcond
      exact ⟨hcond.1, hcond.2, (Option.some.inj hs).symm⟩
  · cases hs

theorem Ids.resumeMember (hi : Ids h k db) {token : String} (hs : resumeMember h token db = some db') : Ids h k db' := by
  obtain ⟨-, -, rfl⟩ := resumeMember_some hs
  refine hi.ages ?_ ?_ ?_ ?_ ?_ ?_
  · exact .update (fun _ => ⟨rfl, rfl⟩) (fun _ => ⟨rfl, rfl⟩) _
  · exact .refl (fun _ => ⟨rfl, rfl, rfl, rfl⟩) _
  · exact .refl (fun _ => ⟨rfl, fun hr => hr⟩) _
  · exact .refl (fun r => (rfl : SameSmaster r r)) _
  · exact .refl (fun _ => ⟨rfl, fun hr => hr⟩) _
  · exact fun x hx => hi.enlisted x (mem_deleteWhere.mp hx).1

theorem Ids.cut_resumed (hi : Ids h k db) {token : String} (hs : Loca.Building.resumeMember h token db = some db')
    (x : String) : Cut db' x ↔ Cut db x ∧ x ≠ token := by
  obtain ⟨-, ⟨m, hm, htok, hlive⟩, rfl⟩ := resumeMember_some hs
  unfold Cut
  constructor
  · rintro (⟨r, hr, he, hrev⟩ | hsus)
    · refine ⟨.inl ⟨r, hr, he, hrev⟩, fun heq => ?_⟩
      rw [hi.member_eq hr hm (by rw [he, heq, htok]), hlive] at hrev
      cases hrev
    · obtain ⟨y, hy, rfl⟩ := memberSuspended_iff.mp hsus
      obtain ⟨hy, hne⟩ := mem_deleteWhere.mp hy
      exact ⟨.inr (memberSuspended_iff.mpr ⟨y, hy, rfl⟩), by simpa using hne⟩
  · rintro ⟨hrow | hsus, hne⟩
    · exact .inl hrow
    · obtain ⟨y, hy, rfl⟩ := memberSuspended_iff.mp hsus
      exact .inr (memberSuspended_iff.mpr ⟨y, mem_deleteWhere.mpr ⟨hy, by simpa using hne⟩, rfl⟩)

theorem Barred.resumeMember (hb : Barred h db) (hi : Ids h k db) {token : String}
    (hs : resumeMember h token db = some db') : Barred h db' := by
  have hcut := hi.cut_resumed hs
  obtain ⟨-, ⟨m, hm, htok, -⟩, rfl⟩ := resumeMember_some hs
  subst htok
  refine ⟨fun r hr p' hp' hid => ?_, fun x hc i him he => hb.davets x ((hcut x).mp hc).1 i him he⟩
  rw [hcut]
  obtain ⟨p, hp, rfl⟩ := mem_updateWhere.mp hp'
  have hpid : p.id = principalIdOf h .member r.membership.token := by
    rw [← hid]
    split <;> rfl
  have hhit := hi.hit_iff hm hr hpid
  by_cases hrm : r = m
  · rw [if_pos (by rw [Bool.and_eq_true]; exact ⟨hhit.mpr hrm, by simp [hi.member_rank hr hp hpid]⟩), hrm]
    exact ⟨fun hd => by simp at hd, fun hc => absurd rfl hc.2⟩
  · rw [if_neg, hb.disabled r hr p hp hpid]
    · exact ⟨fun hc => ⟨hc, fun he => hrm (hi.member_eq hr hm he)⟩, And.left⟩
    · intro hh
      rw [Bool.and_eq_true] at hh
      exact hrm (hhit.mp hh.1)

end

end Loca.Building
