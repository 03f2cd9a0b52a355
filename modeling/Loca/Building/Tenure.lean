/-
# `Loca.Building.Tenure` — what every call keeps

`Tenure` is the invariant of every run of `Loca.Building.Residence`: the tables are sound (`Ids`,
`Barred`), the maps are those of the tables (`Mapped`), the sessions that were ever drawn are no one's
key and are bound to whoever they were drawn for (`Spoken`).  Its last field is the law of the
sessions: a session of a member who is cut off is `Spent`, which means that the hub has forgotten it,
or that the row it needs in the store is revoked, or that the row's principal is gone for good.

`Moves` says once what a call other than `create_session` can do to what these facts speak of; a call
that is no admission and no cut `Wanes`.
-/
import Loca.Building.Access

namespace Loca.Building

open Stamp Table

/-! ## The invariant -/

section Tenure

variable (k : Locks) (h : Digests)

/-- What the maps hold of the tables. -/
structure Mapped (s : Residence) : Prop where
  members : ∀ x, x ∈ s.members ↔ (⟨x, none⟩ : MemberRow) ∈ s.db.members
  invites : ∀ i ∈ s.invites, (⟨i, none⟩ : InviteRow) ∈ s.db.invites
  smasters : ∀ e ∈ s.smasters, ∃ r ∈ s.db.smasters, r.token = e.1

/-- What the sessions that were ever drawn have in common. -/
structure Spoken (s : Residence) : Prop where
  secret : ∀ x ∈ s.minted, (∀ c ∈ s.db.credentials, c.secretHash ≠ h.secretHash x.token) ∧
    ∀ r ∈ s.db.invites, r.invite.token ≠ x.token
  distinct : (s.minted.map Mint.token).Nodup
  drawn : ∀ e ∈ s.sessions, ∃ x ∈ s.minted, x.token = e.1 ∧
    (e.2 = x.identity ∨ e.2.principalId.isSome ∧ e.2.member = none)
  stored : ∀ a ∈ s.admins, ∃ x ∈ s.minted, x.token = a.1
  rows : ∀ r ∈ s.db.sessions, ∀ x ∈ s.minted, r.id = h.secretHash x.token →
    x.identity.principalId = some r.principalId
  seats : ∀ x ∈ s.minted, ∀ inv, x.seat = some inv → x.identity.member = some inv.member
  bound : ∀ x ∈ s.minted, ∀ m, x.identity.member = some m →
    ∀ p, x.identity.principalId = some p → p = principalIdOf h .member m
  keys : ∀ x ∈ s.minted, ∀ c, x.key = some c → ∃ row ∈ s.db.credentials, row.secretHash = h.secretHash c ∧
    ∀ p ∈ s.db.principals, p.id = row.principalId → p.buildingRole = .member →
      x.identity.principalId = some p.id

/-- A session that nothing brings back. -/
def Spent (s : Residence) (st : String) : Prop :=
  (∀ e ∈ s.sessions, e.1 = st → e.2.principalId.isSome) ∧
  ∀ r ∈ s.db.sessions, r.id = h.secretHash st → r.revokedAt.isSome ∨
    ∃ m ∈ s.db.members, m.revokedAt.isSome ∧ r.principalId = principalIdOf h .member m.membership.token

def Belongs (m : String) (idy : SessionIdentity) : Prop :=
  idy.member = some m ∨ idy.principalId = some (principalIdOf h .member m)

/-- What is to stay as it is: secrets that are dead, who is on the list of members, who was revoked. -/
structure Past where
  dead : String → Prop
  known : String → Prop
  lost : String → Prop

/-- A session that is spent, or a davet that has ended. -/
def Over (s : Residence) (x : String) : Prop :=
  ((∃ y ∈ s.minted, y.token = x) ∧ Spent h s x) ∨ ∃ i ∈ s.db.invites, i.invite.token = x ∧ i.revokedAt.isSome

structure Tenure (P : Past) (s : Residence) : Prop where
  ids : Ids h k s.db
  barred : Barred h s.db
  mapped : Mapped s
  spoken : Spoken h s
  spent : ∀ m, Cut s.db m → ∀ x ∈ s.minted, Belongs h m x.identity → Spent h s x.token
  dead : ∀ x, P.dead x → Over h s x
  known : ∀ m, P.known m → ∃ r ∈ s.db.members, r.membership.token = m
  lost : ∀ m, P.lost m → ∃ r ∈ s.db.members, r.membership.token = m ∧ r.revokedAt.isSome

/-! ## What a call does to the sessions and the keys -/

def SameRow (r r' : SessionRow) : Prop :=
  r'.id = r.id ∧ r'.principalId = r.principalId ∧ (r.revokedAt.isSome → r'.revokedAt.isSome)

/-- No session is drawn: keys and davets may be new, rows may end, the sessions in the map were there
before or were stored. -/
structure Moves (s s' : Residence) : Prop where
  principals : ∀ p' ∈ s'.db.principals, p'.buildingRole = .member →
    (∃ p ∈ s.db.principals, SamePrincipal p p') ∨ ∀ c ∈ s.db.credentials, c.principalId ≠ p'.id
  credentials : ∀ c' ∈ s'.db.credentials,
    (∃ c ∈ s.db.credentials, SameCredential c c') ∨ ∀ x ∈ s.minted, c'.secretHash ≠ h.secretHash x.token
  kept : ∀ c ∈ s.db.credentials, ∃ c' ∈ s'.db.credentials, SameCredential c c'
  members : ∀ r ∈ s.db.members, ∃ r' ∈ s'.db.members, SameMember r r'
  davets : ∀ i' ∈ s'.db.invites, (∃ i ∈ s.db.invites, i'.invite = i.invite) ∨
    ∀ x ∈ s.minted, i'.invite.token ≠ x.token
  ended : ∀ i ∈ s.db.invites, i.revokedAt.isSome →
    ∃ i' ∈ s'.db.invites, i'.invite = i.invite ∧ i'.revokedAt.isSome
  rows : ∀ r' ∈ s'.db.sessions, ∃ r ∈ s.db.sessions, SameRow r r'
  sessions : ∀ e ∈ s'.sessions, e ∈ s.sessions ∨
    (∃ a ∈ s.admins, a.1 = e.1) ∧ e.2.principalId.isSome ∧ e.2.member = none
  admins : ∀ a ∈ s'.admins, a ∈ s.admins
  minted : s'.minted = s.minted

end Tenure

section

variable {k : Locks} {h : Digests} {P : Past} {s s' : Residence}

theorem Spoken.moves (hs : Spoken h s) (hm : Moves h s s') : Spoken h s' := by
  constructor
  · rw [hm.minted]
    refine fun x hx => ⟨fun c' hc' => ?_, fun i' hi' => ?_⟩
    · rcases hm.credentials c' hc' with ⟨c, hc, he⟩ | hnew
      · rw [he.2.2.1]
        exact (hs.secret x hx).1 c hc
      · exact hnew x hx
    · rcases hm.davets i' hi' with ⟨i, hi, he⟩ | hnew
      · rw [he]
        exact (hs.secret x hx).2 i hi
      · exact hnew x hx
  · rw [hm.minted]
    exact hs.distinct
  · intro e he
    rw [hm.minted]
    rcases hm.sessions e he with he | ⟨⟨a, ha, htok⟩, hp, hnone⟩
    · exact hs.drawn e he
    · obtain ⟨x, hx, hxt⟩ := hs.stored a ha
      exact ⟨x, hx, hxt.trans htok, .inr ⟨hp, hnone⟩⟩
  · intro a ha
    rw [hm.minted]
    exact hs.stored a (hm.admins a ha)
  · intro r' hr' x hx hid
    rw [hm.minted] at hx
    obtain ⟨r, hr, he⟩ := hm.rows r' hr'
    rw [he.2.1]
    exact hs.rows r hr x hx (he.1.symm.trans hid)
  · rw [hm.minted]
    exact hs.seats
  · rw [hm.minted]
    exact hs.bound
  · rw [hm.minted]
    intro x hx c hkey
    obtain ⟨row, hrow, hh, hall⟩ := hs.keys x hx c hkey
    obtain ⟨row', hrow', he⟩ := hm.kept row hrow
    refine ⟨row', hrow', he.2.2.1.trans hh, fun p' hp' hid hrole => ?_⟩
    rw [he.2.1] at hid
    rcases hm.principals p' hp' hrole with ⟨p, hp, hsame⟩ | hnew
    · rw [hsame.1]
      exact hall p hp (hsame.1.symm.trans hid) (hsame.2.symm.trans hrole)
    · exact absurd hid.symm (hnew row hrow)

theorem Spent.moves {st : String} (hs : Spent h s st) (hm : Moves h s s') : Spent h s' st := by
  constructor
  · intro e he hst
    rcases hm.sessions e he with he | ⟨-, hp, -⟩
    · exact hs.1 e he hst
    · exact hp
  · intro r' hr' hid
    obtain ⟨r, hr, he⟩ := hm.rows r' hr'
    rcases hs.2 r hr (he.1.symm.trans hid) with hrev | ⟨m, hmem, hrev, hp⟩
    · exact .inl (he.2.2 hrev)
    · obtain ⟨m', hm', hsame⟩ := hm.members m hmem
      exact .inr ⟨m', hm', hsame.2 hrev, by rw [he.2.1, hsame.1]; exact hp⟩

/-- The sessions of whoever was cut off stay spent; a new cut has to spend its own. -/
theorem Tenure.moves (ht : Tenure k h P s) (hm : Moves h s s') (hids : Ids h k s'.db) (hbar : Barred h s'.db)
    (hmap : Mapped s')
    (hcut : ∀ m, Cut s'.db m → Cut s.db m ∨ ∀ x ∈ s.minted, Belongs h m x.identity → Spent h s' x.token) :
    Tenure k h P s' := by
  refine ⟨hids, hbar, hmap, ht.spoken.moves hm, fun m hc x hx hb => ?_, fun x hx => ?_,
    fun m hknown => ?_, fun m hlost => ?_⟩
  · rw [hm.minted] at hx
    rcases hcut m hc with hc | hall
    · exact (ht.spent m hc x hx hb).moves hm
    · exact hall x hx hb
  · rcases ht.dead x hx with ⟨hy, hspent⟩ | ⟨i, hi, htok, hrev⟩
    · exact .inl ⟨hm.minted ▸ hy, hspent.moves hm⟩
    · obtain ⟨i', hi', hsame, hrev'⟩ := hm.ended i hi hrev
      exact .inr ⟨i', hi', by rw [hsame]; exact htok, hrev'⟩
  · obtain ⟨r, hr, htok⟩ := ht.known m hknown
    obtain ⟨r', hr', hsame⟩ := hm.members r hr
    exact ⟨r', hr', by rw [hsame.1]; exact htok⟩
  · obtain ⟨r, hr, htok, hrev⟩ := ht.lost m hlost
    obtain ⟨r', hr', hsame⟩ := hm.members r hr
    exact ⟨r', hr', by rw [hsame.1]; exact htok, hsame.2 hrev⟩

/-! ## Calls that only end things -/

/-- No one is admitted, cut off or let in again; davets, keys and sessions may end. -/
structure Wanes (s s' : Residence) : Prop where
  members : s'.db.members = s.db.members
  suspensions : s'.db.suspensions = s.db.suspensions
  principals : Ages SamePrincipal s.db.principals s'.db.principals
  enabled : ∀ p' ∈ s'.db.principals, p'.buildingRole = .member →
    ∃ p ∈ s.db.principals, p.id = p'.id ∧ p'.disabledAt.isSome = p.disabledAt.isSome
  credentials : Ages SameCredential s.db.credentials s'.db.credentials
  smasters : Ages SameSmaster s.db.smasters s'.db.smasters
  davets : Ages SameDavet s.db.invites s'.db.invites
  rows : Ages SameRow s.db.sessions s'.db.sessions
  held : s'.members = s.members
  seats : ∀ i ∈ s'.invites, (⟨i, none⟩ : InviteRow) ∈ s'.db.invites
  sessions : ∀ e ∈ s'.sessions, e ∈ s.sessions
  staff : ∀ e ∈ s'.smasters, e ∈ s.smasters
  admins : ∀ a ∈ s'.admins, a ∈ s.admins
  minted : s'.minted = s.minted

theorem davets_stay {rows rows' : List InviteRow} (hd : Ages SameDavet rows rows') {i : InviteRow} (hi : i ∈ rows)
    (hrev : i.revokedAt.isSome) : ∃ i' ∈ rows', i'.invite = i.invite ∧ i'.revokedAt.isSome := by
  obtain ⟨i', hi', hsame⟩ := hd.keeps hi
  exact ⟨i', hi', hsame.1, hsame.2 hrev⟩

theorem Wanes.moves (hw : Wanes s s') : Moves h s s' := by
  refine ⟨fun p' hp' _ => .inl ?_, fun c' hc' => .inl (hw.credentials.back hc'), fun c hc => hw.credentials.keeps hc,
    fun r hr => ⟨r, hw.members ▸ hr, rfl, fun hrev => hrev⟩, fun i' hi' => .inl ?_,
    fun i hi hrev => davets_stay hw.davets hi hrev, fun r' hr' => hw.rows.back hr', fun e he => .inl (hw.sessions e he), hw.admins, hw.minted⟩
  · exact hw.principals.back hp'
  · obtain ⟨i, hi, hsame⟩ := hw.davets.back hi'
    exact ⟨i, hi, hsame.1⟩

theorem Tenure.wanes (ht : Tenure k h P s) (hw : Wanes s s') : Tenure k h P s' := by
  have hids : Ids h k s'.db := by
    refine ht.ids.ages hw.principals hw.credentials ?_ hw.smasters hw.davets ?_
    · rw [hw.members]
      exact .refl (fun _ => ⟨rfl, fun hr => hr⟩) _
    · rw [hw.suspensions]
      exact ht.ids.enlisted
  have hcut : ∀ m, Cut s'.db m ↔ Cut s.db m := fun m => cut_congr hw.members hw.suspensions
  refine ht.moves hw.moves hids ?_ ⟨?_, hw.seats, fun e he => ?_⟩ fun m hc => .inl ((hcut m).mp hc)
  · exact ht.barred.keep hids (fun m => (hcut m).mp) (fun m => (hcut m).mpr)
      (fun r hr => ⟨r, hw.members ▸ hr, rfl⟩) hw.enabled hw.davets
  · rw [hw.held, hw.members]
    exact ht.mapped.members
  · obtain ⟨r, hr, htok⟩ := ht.mapped.smasters e (hw.staff e he)
    obtain ⟨r', hr', hsame⟩ := hw.smasters.keeps hr
    exact ⟨r', hr', hsame.trans htok⟩

/-- What the tables of the identities are, when they are left alone. -/
theorem Wanes.davetsOnly {p : Invite → Bool} {now : Nat} {invites : List Invite}
    {sessions : List (String × SessionIdentity)}
    (hseats : ∀ i ∈ invites, (⟨i, none⟩ : InviteRow) ∈ (revokeDavets p now s.db).invites)
    (hsess : ∀ e ∈ sessions, e ∈ s.sessions) :
    Wanes s { s with db := revokeDavets p now s.db, invites := invites, sessions := sessions } where
  members := rfl
  suspensions := rfl
  principals := .refl (fun _ => ⟨rfl, rfl⟩) _
  enabled := fun p' hp' _ => ⟨p', hp', rfl, rfl⟩
  credentials := .refl (fun _ => ⟨rfl, rfl, rfl, rfl⟩) _
  smasters := .refl (fun r => (rfl : SameSmaster r r)) _
  davets := revokeDavets_ages p now s.db
  rows := .refl (fun _ => ⟨rfl, rfl, fun hr => hr⟩) _
  held := rfl
  seats := hseats
  sessions := hsess
  staff := fun _ he => he
  admins := fun _ ha => ha
  minted := rfl

theorem revokeSessions_ages (p : SessionRow → Bool) (now : Nat) (db : Registry) :
    Ages SameRow db.sessions (revokeSessions p now db).sessions :=
  .update (fun _ => ⟨rfl, rfl, fun hr => hr⟩) (fun _ => ⟨rfl, rfl, fun _ => rfl⟩) _

/-- Sessions end, in the store and in the maps. -/
theorem Wanes.sessionsOnly (hmap : Mapped s) {db : Registry} {admins : List (String × Nat)}
    {sessions : List (String × SessionIdentity)} (hdb : ∃ rows, db = { s.db with sessions := rows } ∧
      Ages SameRow s.db.sessions rows)
    (hadm : ∀ a ∈ admins, a ∈ s.admins) (hsess : ∀ e ∈ sessions, e ∈ s.sessions) :
    Wanes s { s with db := db, admins := admins, sessions := sessions } := by
  obtain ⟨rows, rfl, hrows⟩ := hdb
  exact {
    members := rfl
    suspensions := rfl
    principals := .refl (fun _ => ⟨rfl, rfl⟩) _
    enabled := fun p' hp' _ => ⟨p', hp', rfl, rfl⟩
    credentials := .refl (fun _ => ⟨rfl, rfl, rfl, rfl⟩) _
    smasters := .refl (fun r => (rfl : SameSmaster r r)) _
    davets := .refl (fun _ => ⟨rfl, fun hr => hr⟩) _
    rows := hrows
    held := rfl
    seats := hmap.invites
    sessions := hsess
    staff := fun _ he => he
    admins := hadm
    minted := rfl }

/-- The davets that stay in the map stay in force, when all that end are taken out. -/
theorem seats_live {p : Invite → Bool} {now : Nat} {db : Registry} {invites davets : List Invite}
    (hlive : ∀ i ∈ invites, (⟨i, none⟩ : InviteRow) ∈ db.invites)
    (hout : ∀ i ∈ invites, p i = true → ∃ d ∈ davets, d.token = i.token) :
    ∀ i ∈ House.removeDavets davets invites, (⟨i, none⟩ : InviteRow) ∈ (revokeDavets p now db).invites := by
  intro i hi
  obtain ⟨hi, hstay⟩ := mem_deleteWhere.mp hi
  refine mem_updateWhere.mpr ⟨_, hlive i hi, if_neg fun hp => ?_⟩
  rw [Bool.and_eq_true] at hp
  obtain ⟨d, hd, he⟩ := hout i hi hp.1
  simp only [List.any_eq_false, decide_eq_true_eq] at hstay
  exact hstay d hd he

theorem mem_dropSeats {davets : List Invite} {sessions : List (String × SessionIdentity)}
    {e : String × SessionIdentity}
    (he : e ∈ davets.foldl (fun ss inv => House.dropSeat inv ss) sessions) : e ∈ sessions := by
  induction davets generalizing sessions with
  | nil => exact he
  | cons inv davets ih =>
      have hin : e ∈ House.dropSeat inv sessions := ih he
      unfold House.dropSeat at hin
      split at hin
      · exact hin
      · exact (List.mem_filter.mp hin).1

theorem Tenure.revokeInvite (ht : Tenure k h P s) (t : Occasion) (token : String) :
    Tenure k h P (s.revokeInvite t token).2 := by
  unfold Residence.revokeInvite
  split
  · exact ht
  · next inv hfind =>
      split
      · exact ht
      · have htok : inv.token = token := by simpa using List.find?_some hfind
        refine ht.wanes (.davetsOnly (seats_live ht.mapped.invites ?_) ?_)
        · intro i _ hp
          exact ⟨inv, by simp, by rw [htok]; exact (of_decide_eq_true hp).symm⟩
        · exact fun e he => @mem_dropSeats [inv] s.sessions e he

theorem Tenure.revokeInvitesFor (ht : Tenure k h P s) (t : Occasion) (room name : String) :
    Tenure k h P (s.revokeInvitesFor t room name).2 := by
  unfold Residence.revokeInvitesFor
  dsimp only
  split
  · exact ht
  · split
    · exact ht
    · refine ht.wanes (.davetsOnly (seats_live ht.mapped.invites ?_) fun e he => mem_dropSeats he)
      intro i hi hp
      exact ⟨i, List.mem_filter.mpr ⟨hi, hp⟩, rfl⟩

theorem Tenure.lookUp (ht : Tenure k h P s) (t : Occasion) (st : String) : Tenure k h P (s.lookUp h t st).2 := by
  have hkept : ∀ e ∈ deleteWhere (fun e : String × SessionIdentity => e.1 = st) s.sessions, e ∈ s.sessions :=
    fun e he => (mem_deleteWhere.mp he).1
  have hsame : ∃ rows, s.db = { s.db with sessions := rows } ∧ Ages SameRow s.db.sessions rows :=
    ⟨s.db.sessions, rfl, .refl (fun _ => ⟨rfl, rfl, fun hr => hr⟩) _⟩
  unfold Residence.lookUp
  split
  · exact ht
  · dsimp only
    split
    · exact ht.wanes (.sessionsOnly ht.mapped hsame (fun _ ha => ha) hkept)
    · split
      · split
        · exact ht.wanes (.sessionsOnly ht.mapped ⟨_, rfl, revokeSessions_ages _ _ _⟩
            (fun a ha => (mem_deleteWhere.mp ha).1) hkept)
        · exact ht.wanes (.sessionsOnly ht.mapped hsame (fun _ ha => ha) hkept)
      · exact ht

theorem Tenure.revokeSession (ht : Tenure k h P s) (t : Occasion) (st : String) :
    Tenure k h P (s.revokeSession h t st).2 := by
  have hkept : ∀ e ∈ deleteWhere (fun e : String × SessionIdentity => e.1 = st) s.sessions, e ∈ s.sessions :=
    fun e he => (mem_deleteWhere.mp he).1
  have hadm : ∀ a ∈ deleteWhere (fun a : String × Nat => a.1 = st) s.admins, a ∈ s.admins :=
    fun a ha => (mem_deleteWhere.mp ha).1
  have hages := revokeSessions_ages (fun r => r.id = h.secretHash st) t.now s.db
  unfold Residence.revokeSession
  dsimp only
  split
  · exact ht
  · split <;> split
    · exact ht.wanes (.sessionsOnly ht.mapped ⟨_, rfl, hages⟩ hadm fun _ he => he)
    · exact ht
    · refine ht.wanes (.sessionsOnly ht.mapped ⟨_, rfl, hages.trans ?_ (revokeSessions_ages _ _ _)⟩ hadm hkept)
      exact fun _ _ _ h₁ h₂ => ⟨h₂.1.trans h₁.1, h₂.2.1.trans h₁.2.1, fun hr => h₂.2.2 (h₁.2.2 hr)⟩
    · exact ht.wanes (.sessionsOnly ht.mapped ⟨_, rfl, hages⟩ (fun _ ha => ha) hkept)

theorem smasters_age (p : SmasterRow → Bool) (now : Nat) (rows : List SmasterRow) :
    Ages SameSmaster rows (updateWhere p (fun r => { r with revokedAt := some now }) rows) :=
  Ages.update (fun r => (rfl : SameSmaster r r)) (fun r => (rfl : SameSmaster r { r with revokedAt := some now })) rows

theorem Tenure.revokeCredential (ht : Tenure k h P s) (t : Occasion) (principal id : String) :
    Tenure k h P (s.revokeCredential h t principal id).2 := by
  unfold Residence.revokeCredential
  split
  · exact ht
  · split
    · exact ht
    · exact ht.wanes {
        members := rfl
        suspensions := rfl
        principals := .refl (fun _ => ⟨rfl, rfl⟩) _
        enabled := fun p' hp' _ => ⟨p', hp', rfl, rfl⟩
        credentials := .update (fun _ => ⟨rfl, rfl, rfl, rfl⟩) (fun _ => ⟨rfl, rfl, rfl, rfl⟩) _
        smasters := smasters_age _ _ _
        davets := .refl (fun _ => ⟨rfl, fun hr => hr⟩) _
        rows := .update (fun _ => ⟨rfl, rfl, fun hr => hr⟩) (fun _ => ⟨rfl, rfl, fun _ => rfl⟩) _
        held := rfl
        seats := ht.mapped.invites
        sessions := fun e he => (mem_deleteWhere.mp he).1
        staff := fun e he => (mem_deleteWhere.mp he).1
        admins := fun _ ha => ha
        minted := rfl }

/-- The principal behind a smaster's key is no member's. -/
theorem Ids.smaster_rank (hi : Ids h k s.db) {r : SmasterRow} (hr : r ∈ s.db.smasters) {c : CredentialRow}
    (hc : c ∈ s.db.credentials) (hh : c.secretHash = h.secretHash r.token) {p : PrincipalRow}
    (hp : p ∈ s.db.principals) (hid : c.principalId = p.id) : p.buildingRole = .smaster := by
  obtain ⟨⟨c', hc', -, hh', hp'⟩, q, hq, hqid, hrole⟩ := hi.smasters r hr
  rw [eq_of_key hi.hashes hc hc' (hh.trans hh'.symm), hp'] at hid
  rw [eq_of_key hi.ids hp hq (hid.symm.trans hqid.symm)]
  exact hrole

theorem Tenure.revokeSmaster (ht : Tenure k h P s) (t : Occasion) (token : String) :
    Tenure k h P (s.revokeSmaster h t token).2 := by
  unfold Residence.revokeSmaster
  split
  · exact ht
  · next hin =>
      split
      · exact ht
      · simp only [Bool.not_eq_true, Bool.not_eq_false', List.any_eq_true, decide_eq_true_eq] at hin
        obtain ⟨e, he, rfl⟩ := hin
        obtain ⟨r, hr, htok⟩ := ht.mapped.smasters e he
        have hages := revokePrincipalCredential_ages h e.1 t.now { s.db with
          smasters := updateWhere (fun r => r.token = e.1 && r.revokedAt.isNone)
            (fun r => { r with revokedAt := some t.now }) s.db.smasters }
        refine ht.wanes {
          members := rfl
          suspensions := rfl
          principals := hages.1
          enabled := ?_
          credentials := hages.2
          smasters := smasters_age _ _ _
          davets := .refl (fun _ => ⟨rfl, fun hr => hr⟩) _
          rows := .refl (fun _ => ⟨rfl, rfl, fun hr => hr⟩) _
          held := rfl
          seats := ht.mapped.invites
          sessions := fun _ he => he
          staff := fun e he => (mem_deleteWhere.mp he).1
          admins := fun _ ha => ha
          minted := rfl }
        intro p' hp' hrole
        obtain ⟨p, hp, rfl⟩ := mem_updateWhere.mp hp'
        split at hrole
        · next hhit =>
            -- the principal that is disabled has a smaster's rank
            rw [Bool.and_eq_true, List.any_eq_true] at hhit
            obtain ⟨⟨c, hc, hmatch⟩, -⟩ := hhit
            simp only [Bool.and_eq_true, decide_eq_true_eq] at hmatch
            have hsm := ht.ids.smaster_rank hr hc (by rw [htok]; exact hmatch.1) hp hmatch.2
            rw [hsm] at hrole
            cases hrole
        · next hhit => exact ⟨p, hp, by rw [if_neg hhit], by rw [if_neg hhit]⟩

theorem Tenure.desk (ht : Tenure k h P s) {stock : List AdmissionRow} {requests : List JoinRequestRow} :
    Tenure k h P { s with db := { s.db with admissionStock := stock, joinRequests := requests } } :=
  ht.wanes {
    members := rfl
    suspensions := rfl
    principals := .refl (fun _ => ⟨rfl, rfl⟩) _
    enabled := fun p' hp' _ => ⟨p', hp', rfl, rfl⟩
    credentials := .refl (fun _ => ⟨rfl, rfl, rfl, rfl⟩) _
    smasters := .refl (fun r => (rfl : SameSmaster r r)) _
    davets := .refl (fun _ => ⟨rfl, fun hr => hr⟩) _
    rows := .refl (fun _ => ⟨rfl, rfl, fun hr => hr⟩) _
    held := rfl
    seats := ht.mapped.invites
    sessions := fun _ he => he
    staff := fun _ he => he
    admins := fun _ ha => ha
    minted := rfl }

/-! ## Calls that hand something out -/

/-- Nothing in the store and no session is this token. -/
structure Unseen (h : Digests) (s : Residence) (token : String) : Prop where
  new : New h s.db token
  minted : ∀ x ∈ s.minted, h.secretHash x.token ≠ h.secretHash token

/-- The tables after a new identity. -/
theorem Unseen.moves {token : String} (hf : Unseen h s token) {p : PrincipalRow} {c : CredentialRow}
    (hp : s'.db.principals = s.db.principals ++ [p]) (hc : s'.db.credentials = s.db.credentials ++ [c])
    (hid : ∀ q ∈ s.db.principals, q.id ≠ p.id) (hown : ∀ x ∈ s.db.credentials, ∃ q ∈ s.db.principals, q.id = x.principalId)
    (hh : c.secretHash = h.secretHash token) (hm : ∀ r ∈ s.db.members, r ∈ s'.db.members)
    (hd : s'.db.invites = s.db.invites) (hr : s'.db.sessions = s.db.sessions) (hs : s'.sessions = s.sessions)
    (ha : s'.admins = s.admins) (hmint : s'.minted = s.minted) : Moves h s s' := by
  refine ⟨fun p' hp' _ => ?_, fun c' hc' => ?_, fun x hx => ⟨x, by rw [hc]; exact List.mem_append_left _ hx, rfl, rfl, rfl, rfl⟩,
    fun r hr => ⟨r, hm r hr, rfl, fun hrev => hrev⟩, fun i hi => .inl ⟨i, hd ▸ hi, rfl⟩,
    fun i hi hrev => ⟨i, hd ▸ hi, rfl, hrev⟩, fun r' hr' => ⟨r', hr ▸ hr', rfl, rfl, fun hrev => hrev⟩, fun e he => .inl (hs ▸ he), fun a hmem => ha ▸ hmem, hmint⟩
  · rw [hp] at hp'
    rcases List.mem_append.mp hp' with hp' | hp'
    · exact .inl ⟨p', hp', rfl, rfl⟩
    · rw [List.mem_singleton.mp hp']
      refine .inr fun x hx he => ?_
      obtain ⟨q, hq, hqid⟩ := hown x hx
      exact hid q hq (hqid.trans he)
  · rw [hc] at hc'
    rcases List.mem_append.mp hc' with hc' | hc'
    · exact .inl ⟨c', hc', rfl, rfl, rfl, rfl⟩
    · rw [List.mem_singleton.mp hc', hh]
      exact .inr fun x hx he => hf.minted x hx he.symm

/-- A new member, in the store and in the map. -/
theorem Tenure.enrol (ht : Tenure k h P s) {x : Membership} (hf : Unseen h s x.token) {name kind : String} {now : Nat}
    {label : String} (hm : s'.db.members = s.db.members ++ [⟨x, none⟩])
    (hp : s'.db.principals = s.db.principals ++ [principalRow h .member x.token name kind now])
    (hc : s'.db.credentials = s.db.credentials ++ [credentialRow h .member x.token now label])
    (hsm : s'.db.smasters = s.db.smasters) (hd : s'.db.invites = s.db.invites)
    (hsus : s'.db.suspensions = s.db.suspensions) (hr : s'.db.sessions = s.db.sessions)
    (hmem : s'.members = upsert Membership.token x s.members) (hinv : s'.invites = s.invites)
    (hs : s'.sessions = s.sessions) (hstaff : s'.smasters = s.smasters) (ha : s'.admins = s.admins)
    (hmint : s'.minted = s.minted) : Tenure k h P s' := by
  have hcut := cut_enrol (fun r hr => hf.new.member ht.ids hr) ht.ids hm hsus
  refine ht.moves ?_ (ht.ids.enrolMember hf.new hm hp hc hsm hd hsus)
    (ht.barred.enrolMember ht.ids hf.new hm hp hd hsus) ⟨fun y => ?_, ?_, ?_⟩
    fun m hc => .inl ((hcut m).1.mp hc)
  · exact hf.moves hp hc (fun q hq => hf.new.principals q hq .member) ht.ids.owned rfl
      (fun r hr => by rw [hm]; exact List.mem_append_left _ hr) hd hr hs ha hmint
  · have hother : y ∈ s.members → y.token ≠ x.token :=
      fun hy => hf.new.member ht.ids ((ht.mapped.members y).mp hy)
    rw [hmem, mem_upsert, hm, List.mem_append, List.mem_singleton, ht.mapped.members]
    rw [ht.mapped.members] at hother
    constructor
    · rintro (⟨hy, -⟩ | rfl)
      · exact .inl hy
      · exact .inr rfl
    · rintro (hy | he)
      · exact .inl ⟨hy, hother hy⟩
      · exact .inr (MemberRow.mk.inj he).1
  · rw [hinv, hd]
    exact ht.mapped.invites
  · rw [hstaff, hsm]
    exact ht.mapped.smasters

theorem Tenure.admitMember (ht : Tenure k h P s) {t : Occasion} (hf : Unseen h s t.token) (name kind by_ : String) :
    Tenure k h P (s.admitMember h t name kind by_).2 := by
  unfold Residence.admitMember
  split
  · exact ht
  · split
    · exact ht
    · let x : Membership := ⟨t.token, name, kind, t.now, by_⟩
      have hrows := @upsert_new _ _ _ (fun r : MemberRow => r.membership.token) ⟨x, none⟩ s.db.members
        fun r hr => hf.new.member ht.ids hr
      have hn : New h { s.db with members := s.db.members ++ [⟨x, none⟩] } x.token :=
        ⟨hf.new.secret, hf.new.rows, hf.new.sources, hf.new.principals, hf.new.davets, hf.new.sessions⟩
      refine @Tenure.enrol k h P s _ ht x hf name kind t.now "Member access" ?_ ?_ ?_ ?_ ?_ ?_ ?_ rfl rfl rfl rfl rfl rfl
      all_goals
        dsimp only [addMember]
        rw [hrows, hn.insert]

/-- What an approval writes, beside the desk's own tables. -/
theorem approveTx_identity {env : StoreEnv} {id mb by_ : String} {db db' : Registry} {m : Membership}
    (hok : approveTx h env id mb by_ db = .ok (m, db')) (hn : New h db mb) :
    m.token = mb ∧ db'.members = db.members ++ [⟨m, none⟩] ∧
      db'.principals = db.principals ++ [principalRow h .member mb m.name m.kind env.now] ∧
      db'.credentials = db.credentials ++ [credentialRow h .member mb env.now "Member access"] ∧
      db'.smasters = db.smasters ∧ db'.invites = db.invites ∧ db'.suspensions = db.suspensions ∧
      db'.sessions = db.sessions := by
  simp only [approveTx, Check.bind_ok, Check.require_ok, Check.pure_ok, exists_const, Prod.mk.injEq] at hok
  obtain ⟨-, db₁, h₁, r', -, _, -, db₂, h₄, db₃, h₅, db₄, h₆, -, rfl, rfl⟩ := hok
  obtain ⟨-, rfl⟩ := claimRequest_ok h₁
  obtain ⟨right, -, -, -, rfl⟩ := consumeRight_ok h₄
  obtain ⟨-, rfl⟩ := enrolMember_ok h₅
  obtain rfl := finishRequest_ok h₆
  have hins := hn.insert .member r'.name r'.kind env.now "Member access"
  exact ⟨rfl, rfl, congrArg Registry.principals hins, congrArg Registry.credentials hins, rfl, rfl, rfl, rfl⟩

theorem Tenure.approveJoinRequest (ht : Tenure k h P s) {t : Occasion} (hf : Unseen h s t.token) (id by_ : String) :
    Tenure k h P (s.approveJoinRequest h t id by_).2 := by
  unfold Residence.approveJoinRequest approveJoinRequestAtomic
  cases hok : approveTx h t.env id t.token by_ s.db with
  | ok r =>
      obtain ⟨m, db⟩ := r
      obtain ⟨htok, hm, hp, hc, hsm, hd, hsus, hr⟩ := approveTx_identity hok hf.new
      rw [← htok] at hf hp hc
      exact ht.enrol hf hm hp hc hsm hd hsus hr rfl rfl rfl rfl rfl rfl
  | error e =>
      cases e <;> exact ht

theorem Tenure.createCredential (ht : Tenure k h P s) {t : Occasion} (hf : Unseen h s t.token) (principal label : String) :
    Tenure k h P (s.createCredential h t principal label).2 := by
  unfold Residence.createCredential
  dsimp only
  split
  · exact ht
  · next hcond =>
      simp only [Bool.or_eq_true, Bool.not_eq_true', not_or, Bool.not_eq_true, Bool.not_eq_false] at hcond
      have hown : ∃ p ∈ s.db.principals, p.id = principal := by
        obtain ⟨p, hp, he⟩ := List.any_eq_true.mp hcond.2
        exact ⟨p, hp, of_decide_eq_true he⟩
      refine ht.moves ?_ (ht.ids.newCredential hf.new rfl rfl hown) ⟨ht.barred.disabled, ht.barred.davets⟩
        ⟨ht.mapped.members, ht.mapped.invites, ht.mapped.smasters⟩ fun m hc => .inl hc
      refine ⟨fun p hp _ => .inl ⟨p, hp, rfl, rfl⟩, fun c hc => ?_,
        fun c hc => ⟨c, List.mem_append_left _ hc, rfl, rfl, rfl, rfl⟩, fun r hr => ⟨r, hr, rfl, fun hrev => hrev⟩,
        fun i hi => .inl ⟨i, hi, rfl⟩, fun i hi hrev => ⟨i, hi, rfl, hrev⟩, fun r hr => ⟨r, hr, rfl, rfl, fun hrev => hrev⟩, fun e he => .inl he,
        fun a ha => ha, rfl⟩
      rcases List.mem_append.mp hc with hc | hc
      · exact .inl ⟨c, hc, rfl, rfl, rfl, rfl⟩
      · rw [List.mem_singleton.mp hc]
        exact .inr fun x hx he => hf.minted x hx he.symm

theorem Tenure.addSmaster (ht : Tenure k h P s) {t : Occasion} (hf : Unseen h s t.token) (name : String) :
    Tenure k h P (s.addSmaster h t name).2 := by
  unfold Residence.addSmaster
  split
  · exact ht
  · let db : Registry := { s.db with smasters := upsert SmasterRow.token ⟨t.token, name, t.now, none⟩ s.db.smasters }
    have hn : New h db t.token :=
      ⟨hf.new.secret, hf.new.rows, hf.new.sources, hf.new.principals, hf.new.davets, hf.new.sessions⟩
    have hins := hn.insert .smaster name "user" t.now "Smaster access"
    have hids : Ids h k (insertPrincipalCredential h .smaster t.token name "user" t.now "Smaster access" db) := by
      rw [hins]
      refine ht.ids.enrolSmaster hf.new rfl rfl rfl (fun r hr => ?_) rfl rfl
      rcases mem_upsert.mp hr with ⟨hr, -⟩ | rfl
      · exact .inl hr
      · exact .inr rfl
    refine ht.moves (hf.moves (congrArg Registry.principals hins) (congrArg Registry.credentials hins)
      (fun q hq => hf.new.principals q hq .smaster) ht.ids.owned rfl (fun r hr => hr) rfl rfl rfl rfl rfl) hids ?_
      ⟨ht.mapped.members, ht.mapped.invites, fun e he => ?_⟩ fun m hc => .inl hc
    · refine ht.barred.keep hids (fun m hc => hc) (fun m hc => hc) (fun r hr => ⟨r, hr, rfl⟩) (fun p hp hrole => ?_)
        (.refl (fun _ => ⟨rfl, fun hr => hr⟩) _)
      change p ∈ (insertPrincipalCredential h .smaster t.token name "user" t.now "Smaster access" db).principals at hp
      rw [hins] at hp
      rcases List.mem_append.mp hp with hp | hp
      · exact ⟨p, hp, rfl, rfl⟩
      · rw [List.mem_singleton.mp hp] at hrole
        cases hrole
    · rcases mem_upsert.mp he with ⟨he, hne⟩ | rfl
      · obtain ⟨r, hr, htok⟩ := ht.mapped.smasters e he
        exact ⟨r, mem_upsert.mpr (.inl ⟨hr, by rw [htok]; exact hne⟩), htok⟩
      · exact ⟨⟨t.token, name, t.now, none⟩, mem_upsert.mpr (.inr rfl), rfl⟩

theorem Tenure.inviteMemberToRoom (ht : Tenure k h P s) {t : Occasion} (hf : Unseen h s t.token)
    (member room by_ : String) : Tenure k h P (s.inviteMemberToRoom t member room by_).2 := by
  unfold Residence.inviteMemberToRoom
  split
  · exact ht
  · split
    · exact ht
    · next x hfind =>
        dsimp only
        split
        · exact ht
        · split
          · exact ht
          · split
            · exact ht
            · split
              · exact ht
              · next db hins =>
                  have hsus : memberSuspended x.token s.db = false := by
                    unfold insertInvite at hins
                    split at hins
                    · cases hins
                    · next hno => exact Bool.eq_false_iff.mpr hno
                  obtain rfl := insertInvite_some hins
                  have hrow := (ht.mapped.members x).mp (List.mem_of_find?_eq_some hfind)
                  -- whoever takes a davet is a member in good standing
                  have hin : ¬Cut s.db x.token := by
                    rintro (⟨r, hr, he, hrev⟩ | hs)
                    · rw [ht.ids.member_eq hr hrow he] at hrev
                      cases hrev
                    · rw [hsus] at hs
                      cases hs
                  refine ht.moves ?_ (ht.ids.newDavet hf.new ⟨_, hrow, rfl⟩) (ht.barred.newDavet hin)
                    ⟨ht.mapped.members, fun i hi => ?_, ht.mapped.smasters⟩ fun m hc => .inl hc
                  · refine ⟨fun p hp _ => .inl ⟨p, hp, rfl, rfl⟩, fun c hc => .inl ⟨c, hc, rfl, rfl, rfl, rfl⟩,
                      fun c hc => ⟨c, hc, rfl, rfl, rfl, rfl⟩, fun r hr => ⟨r, hr, rfl, fun hrev => hrev⟩,
                      fun i hi => ?_, fun i hi hrev => ⟨i, mem_upsert.mpr (.inl ⟨hi, hf.new.davet hi⟩), rfl, hrev⟩,
                      fun r hr => ⟨r, hr, rfl, rfl, fun hrev => hrev⟩, fun e he => .inl he, fun a ha => ha, rfl⟩
                    rcases mem_upsert.mp hi with ⟨hi, -⟩ | rfl
                    · exact .inl ⟨i, hi, rfl⟩
                    · exact .inr fun y hy he => hf.minted y hy (by rw [← he])
                  · rcases mem_upsert.mp hi with ⟨hi, hne⟩ | rfl
                    · exact mem_upsert.mpr (.inl ⟨ht.mapped.invites i hi, hne⟩)
                    · exact mem_upsert.mpr (.inr rfl)

/-! ## The cut -/

/-- Once the map has lost the member's sessions and the member's rows are worth nothing, they are spent. -/
theorem Spoken.spends (hs : Spoken h s) {m : String}
    (hsess : ∀ e ∈ s'.sessions, e ∈ s.sessions ∧ e.2.member ≠ some m)
    (hrows : ∀ r' ∈ s'.db.sessions, (∃ r ∈ s.db.sessions, SameRow r r') ∧
      (r'.principalId = principalIdOf h .member m → r'.revokedAt.isSome ∨
        ∃ y ∈ s'.db.members, y.revokedAt.isSome ∧ r'.principalId = principalIdOf h .member y.membership.token)) :
    ∀ x ∈ s.minted, Belongs h m x.identity → Spent h s' x.token := by
  intro x hx hb
  constructor
  · intro e he htok
    obtain ⟨hmem, hne⟩ := hsess e he
    obtain ⟨y, hy, hyt, hid⟩ := hs.drawn e hmem
    obtain rfl : y = x := eq_of_key hs.distinct hy hx (hyt.trans htok)
    rcases hid with hid | ⟨hp, -⟩
    · rcases hb with hm | hp
      · exact absurd (hid ▸ hm) hne
      · rw [hid, hp]
        rfl
    · exact hp
  · intro r' hr' hid
    obtain ⟨⟨r, hr, hsame⟩, hdead⟩ := hrows r' hr'
    have hp := hs.rows r hr x hx (hsame.1.symm.trans hid)
    refine hdead ?_
    rw [hsame.2.1]
    rcases hb with hm | hpid
    · exact hs.bound x hx m hm r.principalId hp
    · exact Option.some.inj (hp.symm.trans hpid)

theorem mem_dropMember {token : String} {sessions : List (String × SessionIdentity)} {e : String × SessionIdentity}
    (he : e ∈ House.dropMember token sessions) : e ∈ sessions ∧ e.2.member ≠ some token := by
  obtain ⟨he, hne⟩ := List.mem_filter.mp he
  exact ⟨he, by simpa using hne⟩

theorem Tenure.revokeMember (ht : Tenure k h P s) (t : Occasion) (token : String) :
    Tenure k h P (s.revokeMember h t token).2 := by
  unfold Residence.revokeMember
  split
  · exact ht
  · next hin =>
      split
      · exact ht
      · dsimp only
        simp only [Bool.not_eq_true, Bool.not_eq_false', List.any_eq_true, decide_eq_true_eq] at hin
        obtain ⟨x, hx, rfl⟩ := hin
        have hrow := (ht.mapped.members x).mp hx
        have hids := ht.ids.revokeMemberCascade x.token t.now
        have hcut := @cut_revoked h s.db x.token t.now ⟨_, hrow, rfl⟩
        have hsess : ∀ e ∈ House.dropMember x.token ((s.invites.filter fun i => i.member = x.token).foldl
            (fun ss inv => House.dropSeat inv ss) s.sessions), e ∈ s.sessions ∧ e.2.member ≠ some x.token :=
          fun e he => ⟨mem_dropSeats (mem_dropMember he).1, (mem_dropMember he).2⟩
        have hages := revokePrincipalCredential_ages h x.token t.now s.db
        have hmembers : Ages SameMember s.db.members (revokeMemberCascade h x.token t.now s.db).members :=
          .update (fun _ => ⟨rfl, fun hr => hr⟩) (fun _ => ⟨rfl, fun _ => rfl⟩) _
        refine ht.moves ?_ hids (ht.barred.revokeMemberCascade ht.ids hrow t.now) ⟨fun y => ?_, ?_, ht.mapped.smasters⟩
          fun m hc => ?_
        · refine ⟨fun p hp _ => .inl (hages.1.back hp), fun c hc => .inl (hages.2.back hc), fun c hc => hages.2.keeps hc,
            fun r hr => hmembers.keeps hr, fun i hi => ?_, fun i hi hrev => davets_stay
              (revokeDavets_ages (fun i => i.member = x.token) t.now s.db) hi hrev, fun r hr => ⟨r, hr, rfl, rfl, fun hrev => hrev⟩,
            fun e he => .inl (hsess e he).1, fun a ha => ha, rfl⟩
          obtain ⟨i', hi', hsame⟩ := (revokeDavets_ages (fun i => i.member = x.token) t.now s.db).back hi
          exact .inl ⟨i', hi', hsame.1⟩
        · -- the members in force are those there were, without this one
          rw [mem_deleteWhere, ht.mapped.members]
          change _ ↔ _ ∈ updateWhere _ _ s.db.members
          rw [mem_updateWhere]
          constructor
          · rintro ⟨hy, hne⟩
            exact ⟨_, hy, if_neg fun hh => by simp_all⟩
          · rintro ⟨r, hr, he⟩
            by_cases hhit : (decide (r.membership.token = x.token) && r.revokedAt.isNone) = true
            · rw [if_pos hhit] at he
              cases he
            · rw [if_neg hhit] at he
              subst he
              exact ⟨hr, by simpa using hhit⟩
        · exact seats_live ht.mapped.invites fun i hi hp => ⟨i, List.mem_filter.mpr ⟨hi, hp⟩, rfl⟩
        · rcases (hcut m).mp hc with hc | rfl
          · exact .inl hc
          · refine .inr (ht.spoken.spends hsess fun r hr => ⟨⟨r, hr, rfl, rfl, fun hrev => hrev⟩, fun hp => .inr ?_⟩)
            refine ⟨⟨x, some t.now⟩, ?_, rfl, hp⟩
            exact mem_updateWhere.mpr ⟨_, hrow, by simp⟩

theorem Tenure.suspend (ht : Tenure k h P s) (t : Occasion) (token reason : String) :
    Tenure k h P (s.suspend h t token reason).2 := by
  unfold Residence.suspend
  split
  · exact ht
  · split
    · exact ht
    · next db hsus =>
        have hids := ht.ids.suspendMember hsus
        have hcut := ht.ids.cut_suspended hsus
        have hbar := ht.barred.suspendMember ht.ids hsus
        obtain ⟨r, hr, htok, rfl⟩ := ht.ids.suspendMember_some hsus
        have hprincipals : Ages SamePrincipal s.db.principals
            (updateWhere (fun p => p.id = principalIdOf h .member token && p.disabledAt.isNone)
              (fun p => { p with disabledAt := some t.now }) s.db.principals) :=
          .update (fun _ => ⟨rfl, rfl⟩) (fun _ => ⟨rfl, rfl⟩) _
        have hrows := revokeSessions_ages (fun x => x.principalId = principalIdOf h .member token) t.now s.db
        refine ht.moves ?_ hids hbar ⟨ht.mapped.members, ?_, ht.mapped.smasters⟩ fun m hc => ?_
        · refine ⟨fun p hp _ => .inl (hprincipals.back hp), fun c hc => .inl ⟨c, hc, rfl, rfl, rfl, rfl⟩,
            fun c hc => ⟨c, hc, rfl, rfl, rfl, rfl⟩, fun r hr => ⟨r, hr, rfl, fun hrev => hrev⟩, fun i hi => ?_,
            fun i hi hrev => davets_stay (revokeDavets_ages (fun i => i.member = token) t.now s.db) hi hrev,
            fun r hr => hrows.back hr, fun e he => .inl (mem_dropMember he).1, fun a ha => ha, rfl⟩
          obtain ⟨i', hi', hsame⟩ := (revokeDavets_ages (fun i => i.member = token) t.now s.db).back hi
          exact .inl ⟨i', hi', hsame.1⟩
        · exact seats_live ht.mapped.invites fun i hi hp => ⟨i, List.mem_filter.mpr ⟨hi, hp⟩, rfl⟩
        · rcases (hcut m).mp hc with hc | rfl
          · exact .inl hc
          · refine .inr (ht.spoken.spends (fun e he => mem_dropMember he) fun r' hr' => ⟨hrows.back hr', fun hp => .inl ?_⟩)
            obtain ⟨r₀, hr₀, rfl⟩ := mem_updateWhere.mp hr'
            have hpid : r₀.principalId = principalIdOf h .member m := by
              rw [← hp]
              split <;> rfl
            cases hrev : r₀.revokedAt with
            | none =>
                rw [if_pos (by simp [hpid])]
                rfl
            | some at_ =>
                split
                · rfl
                · rw [hrev]; rfl

theorem Tenure.resume (ht : Tenure k h P s) (t : Occasion) (token : String) : Tenure k h P (s.resume h t token).2 := by
  unfold Residence.resume
  split
  · exact ht
  · split
    · exact ht
    · next db hres =>
        have hcut := ht.ids.cut_resumed hres
        have hids := ht.ids.resumeMember hres
        have hbar := ht.barred.resumeMember ht.ids hres
        obtain ⟨-, -, rfl⟩ := resumeMember_some hres
        refine ht.moves ?_ hids hbar ⟨ht.mapped.members, ht.mapped.invites, ht.mapped.smasters⟩
          fun m hc => .inl ((hcut m).mp hc).1
        have hprincipals : Ages SamePrincipal s.db.principals (updateWhere
            (fun p => (s.db.credentials.any fun c => c.secretHash = h.secretHash token && c.principalId = p.id) &&
              p.buildingRole = .member)
            (fun p => { p with disabledAt := none }) s.db.principals) :=
          .update (fun _ => ⟨rfl, rfl⟩) (fun _ => ⟨rfl, rfl⟩) _
        exact ⟨fun p hp _ => .inl (hprincipals.back hp), fun c hc => .inl ⟨c, hc, rfl, rfl, rfl, rfl⟩,
          fun c hc => ⟨c, hc, rfl, rfl, rfl, rfl⟩, fun r hr => ⟨r, hr, rfl, fun hrev => hrev⟩,
          fun i hi => .inl ⟨i, hi, rfl⟩, fun i hi hrev => ⟨i, hi, rfl, hrev⟩, fun r hr => ⟨r, hr, rfl, rfl, fun hrev => hrev⟩, fun e he => .inl he,
          fun a ha => ha, rfl⟩

theorem Tenure.setMemberSuspended (ht : Tenure k h P s) (t : Occasion) (reference : String) (suspended : Bool)
    (reason : String) : Tenure k h P (s.setMemberSuspended h t reference suspended reason).2 := by
  unfold Residence.setMemberSuspended
  split
  · exact ht
  · split
    · exact ht.suspend t _ reason
    · exact ht.resume t _

end

end Loca.Building
