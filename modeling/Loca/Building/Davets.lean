/-
# `Loca.Building.Davets` — the books of the davets

What the calls of `Loca.Building.House` do to davets, whatever the order of their steps.
`run_davets` says once what a step can do: end some in the store, take some out of the hub, store a
new one, or seat it in the hub.  `Booked` is what follows for every run: the tokens are distinct, a
davet the hub holds was stored, a davet that is taken out of the hub has ended in the store, and
while a membership is being ended none of its davets is in force.
-/
import Loca.Building.House

namespace Loca.Building

open Check Table

/-! ## What a step does to davets -/

theorem approveTx_invites {h : Digests} {env : StoreEnv} {id mb by_ : String} {db db' : Registry}
    {m : Membership} (hok : approveTx h env id mb by_ db = .ok (m, db')) : db'.invites = db.invites := by
  simp only [approveTx, bind_ok, require_ok, pure_ok, exists_const, Prod.mk.injEq] at hok
  obtain ⟨-, db₁, h₁, r', -, _, -, db₂, h₄, db₃, h₅, db₄, h₆, -, -, rfl⟩ := hok
  obtain ⟨-, rfl⟩ := claimRequest_ok h₁
  obtain ⟨right, -, -, -, rfl⟩ := consumeRight_ok h₄
  obtain ⟨-, rfl⟩ := enrolMember_ok h₅
  obtain rfl := finishRequest_ok h₆
  rfl

theorem approveJoinRequestAtomic_invites (h : Digests) (env : StoreEnv) (id mb by_ : String)
    (db : Registry) : (approveJoinRequestAtomic h env id mb by_ db).2.invites = db.invites := by
  unfold approveJoinRequestAtomic
  split
  · next hok => exact approveTx_invites hok
  · rfl

/-- What an approval does to the members: one more, under the name of the request. -/
theorem approveTx_members {h : Digests} {env : StoreEnv} {id mb by_ : String} {db db' : Registry}
    {m : Membership} (hok : approveTx h env id mb by_ db = .ok (m, db')) :
    ∃ r ∈ db.joinRequests, r.id = id ∧ m.name = r.name ∧ m.token = mb ∧
      (∀ row ∈ db.members, row.membership.token ≠ mb) ∧
      (env.fails .checkName = false →
        ∀ row ∈ db.members, row.revokedAt = none → row.membership.name ≠ r.name) ∧
      db'.members = db.members ++ [⟨m, none⟩] := by
  simp only [approveTx, bind_ok, require_ok, pure_ok, exists_const, Prod.mk.injEq] at hok
  obtain ⟨-, db₁, h₁, r', h₂, _, h₃, db₂, h₄, db₃, h₅, db₄, h₆, -, rfl, rfl⟩ := hok
  obtain ⟨-, rfl⟩ := claimRequest_ok h₁
  obtain ⟨right, -, -, -, rfl⟩ := consumeRight_ok h₄
  obtain ⟨hnew, rfl⟩ := enrolMember_ok h₅
  obtain rfl := finishRequest_ok h₆
  -- the request read back is one of those that were there, claimed
  have hfind := (readRequest_ok.mp h₂).2
  have hid : r'.id = id := by simpa using List.find?_some hfind
  obtain ⟨r, hr, he⟩ := mem_updateWhere.mp (List.mem_of_find?_eq_some hfind)
  have hkeep : r.id = r'.id ∧ r.name = r'.name := by
    rw [← he]
    split <;> exact ⟨rfl, rfl⟩
  refine ⟨r, hr, hkeep.1.trans hid, hkeep.2.symm, rfl, hnew, fun hs => ?_, rfl⟩
  rw [hkeep.2]
  exact (checkName_ok hs).mp h₃

/-- The davets a task is about to take out of the hub. -/
def Task.takes : Task → Option (List Invite)
  | .uninviteRemove inv => some [inv]
  | .unseatRemove davets => some davets
  | .revokeRemove _ davets => some davets
  | .suspendRemove _ davets => some davets
  | _ => none

/-- What one step of `t` does to the davets. -/
inductive DavetStep (t : Task) (s s' : House) : Prop
  | quiet : s'.db.invites = s.db.invites → s'.invites = s.invites → DavetStep t s s'
  /-- Some end in the store. -/
  | ended (p : Invite → Bool) (now : Nat) : t.takes = none →
      s'.db.invites = (revokeDavets p now s.db).invites → s'.invites = s.invites → DavetStep t s s'
  /-- The hub forgets some. -/
  | removed (davets : List Invite) : t.takes = some davets → s'.db.invites = s.db.invites →
      s'.invites = House.removeDavets davets s.invites → DavetStep t s s'
  /-- A new one is stored. -/
  | stored (inv : Invite) : t = .inviteStore inv →
      s'.db.invites = upsert (fun r => r.invite.token) ⟨inv, none⟩ s.db.invites →
      s'.invites = s.invites → DavetStep t s s'
  /-- The hub learns of it. -/
  | seated (inv : Invite) : t = .inviteMirror inv → s'.db.invites = s.db.invites →
      s'.invites = upsert Invite.token inv s.invites → DavetStep t s s'

theorem suspendMember_invites {h : Digests} {token reason : String} {now : Nat} {db db' : Registry}
    (hs : suspendMember h token reason now db = some db') :
    db'.invites = (revokeDavets (fun i => i.member = token) now db).invites := by
  obtain ⟨principal, -, rfl⟩ := Option.map_eq_some_iff.mp hs
  rfl

theorem resumeMember_invites {h : Digests} {token : String} {db db' : Registry}
    (hs : resumeMember h token db = some db') : db'.invites = db.invites := by
  unfold resumeMember at hs
  split at hs
  · cases hs
    rfl
  · cases hs

theorem insertInvite_some {inv : Invite} {db db' : Registry} (hs : insertInvite inv db = some db') :
    db' = { db with invites := upsert (fun r => r.invite.token) ⟨inv, none⟩ db.invites } := by
  unfold insertInvite at hs
  split at hs
  · cases hs
  · cases hs
    rfl

theorem run_davets (h : Digests) (m : Moment) (s : House) (t : Task) :
    DavetStep t s (House.run h m s t).1 := by
  cases t with
  | admitCheck name kind by_ => simp only [House.run]; split <;> exact .quiet rfl rfl
  | admitStore name kind by_ => simp only [House.run]; split <;> exact .quiet rfl rfl
  | admitMirror x => exact .quiet rfl rfl
  | approveStore id by_ =>
      have hkeep := approveJoinRequestAtomic_invites h m.env id m.token by_ s.db
      simp only [House.run]
      split
      · next ha => exact .quiet (by rw [ha] at hkeep; exact hkeep) rfl
      · next ha => exact .quiet (by rw [ha] at hkeep; exact hkeep) rfl
  | approveMirror x => exact .quiet rfl rfl
  | revokeCheck token => simp only [House.run]; split <;> exact .quiet rfl rfl
  | revokeStore token =>
      simp only [House.run]
      split
      · exact .quiet rfl rfl
      · exact .ended (fun i => i.member = token) m.now rfl rfl rfl
  | revokeCollect token => exact .quiet rfl rfl
  | revokeRemove token davets => exact .removed davets rfl rfl rfl
  | revokeSeats token davets => cases davets <;> exact .quiet rfl rfl
  | revokeSessions token => exact .quiet rfl rfl
  | revokeForget token => exact .quiet rfl rfl
  | suspendCheck reference suspended reason => simp only [House.run]; split <;> exact .quiet rfl rfl
  | suspendStore token reason =>
      simp only [House.run]
      split
      · exact .quiet rfl rfl
      · split
        · exact .quiet rfl rfl
        · next hs => exact .ended (fun i => i.member = token) m.now rfl (suspendMember_invites hs) rfl
  | suspendCollect token => exact .quiet rfl rfl
  | suspendRemove token davets => exact .removed davets rfl rfl rfl
  | suspendSessions token => exact .quiet rfl rfl
  | resumeStore token =>
      simp only [House.run]
      split
      · exact .quiet rfl rfl
      · split
        · exact .quiet rfl rfl
        · next hs => exact .quiet (resumeMember_invites hs) rfl
  | inviteCheck member room by_ => simp only [House.run]; split <;> exact .quiet rfl rfl
  | inviteMember member room by_ =>
      simp only [House.run]
      split
      · exact .quiet rfl rfl
      · split <;> exact .quiet rfl rfl
  | inviteDup x room by_ => simp only [House.run]; split <;> exact .quiet rfl rfl
  | inviteCount x room by_ => simp only [House.run]; split <;> exact .quiet rfl rfl
  | inviteAdd x room by_ => simp only [House.run]; split <;> exact .quiet rfl rfl
  | inviteStore inv =>
      simp only [House.run]
      split
      · exact .quiet rfl rfl
      · split
        · exact .quiet rfl rfl
        · next hs =>
            rw [insertInvite_some hs]
            exact .stored inv rfl rfl rfl
  | inviteMirror inv => exact .seated inv rfl rfl rfl
  | uninviteFind token => simp only [House.run]; split <;> exact .quiet rfl rfl
  | uninviteStore inv =>
      simp only [House.run]
      split
      · exact .quiet rfl rfl
      · exact .ended (fun i => i.token = inv.token) m.now rfl rfl rfl
  | uninviteRemove inv => exact .removed [inv] rfl rfl rfl
  | uninviteSessions inv => exact .quiet rfl rfl
  | unseatFind room name => simp only [House.run]; split <;> exact .quiet rfl rfl
  | unseatStore room name davets =>
      simp only [House.run]
      split
      · exact .quiet rfl rfl
      · exact .ended (fun i => i.room = room && i.name = name) m.now rfl rfl rfl
  | unseatRemove davets => exact .removed davets rfl rfl rfl
  | unseatSessions davets => cases davets <;> exact .quiet rfl rfl
  | sessionFind token => simp only [House.run]; split <;> exact .quiet rfl rfl
  | sessionSuspended inv => simp only [House.run]; split <;> exact .quiet rfl rfl
  | sessionMember inv =>
      simp only [House.run]
      split
      · split <;> exact .quiet rfl rfl
      · exact .quiet rfl rfl
  | sessionPrincipal inv name kind => exact .quiet rfl rfl
  | sessionCredential inv idy => exact .quiet rfl rfl
  | sessionSave inv idy credential =>
      simp only [House.run]
      split
      · split <;> exact .quiet rfl rfl
      · exact .quiet rfl rfl
  | sessionInsert inv st idy => exact .quiet rfl rfl

/-! ## The books of the davets -/

def Recorded (db : Registry) (inv : Invite) : Prop := ∃ row ∈ db.invites, row.invite = inv

/-- The davet was stored, and is in force no more. -/
def Ended (db : Registry) (inv : Invite) : Prop :=
  Recorded db inv ∧ ∀ row ∈ db.invites, row.invite.token = inv.token → row.revokedAt.isSome

/-- No davet of this member is in force. -/
def Cleared (db : Registry) (token : String) : Prop :=
  ∀ row ∈ db.invites, row.invite.member = token → row.revokedAt.isSome

structure Books (s : House) (_ : List Task) : Prop where
  keyed : (s.db.invites.map fun r => r.invite.token).Nodup
  distinct : (s.invites.map Invite.token).Nodup
  recorded : ∀ i ∈ s.invites, Recorded s.db i

/-- What a task knows of the davets it carries. -/
def BookFact (s : House) : Task → Prop
  | .inviteStore inv => ∀ row ∈ s.db.invites, row.invite.token ≠ inv.token
  | .inviteMirror inv => Recorded s.db inv ∧ ∀ i ∈ s.invites, i.token ≠ inv.token
  | .uninviteStore inv => Recorded s.db inv
  | .uninviteRemove inv => Ended s.db inv
  | .unseatStore room name davets => ∀ d ∈ davets, Recorded s.db d ∧ d.room = room ∧ d.name = name
  | .unseatRemove davets => ∀ d ∈ davets, Ended s.db d
  | .revokeCollect token => Cleared s.db token
  | .revokeRemove _ davets => ∀ d ∈ davets, Ended s.db d
  | .suspendCollect token => Cleared s.db token
  | .suspendRemove _ davets => ∀ d ∈ davets, Ended s.db d
  | _ => True

/-- Two tasks are not both inside the guarded section. -/
def Exclusive (t u : Task) : Prop := t.critical = true → u.critical = true → False

theorem Exclusive.symm (t u : Task) (h : Exclusive t u) : Exclusive u t := fun hu ht => h ht hu

instance : Std.Symm Exclusive := ⟨Exclusive.symm⟩

abbrev Booked (c : Site) : Prop := Sys.Crew.Holds Books BookFact Exclusive c

section Books

variable {s s' : House} {t u : Task} {inv : Invite} {token : String}

theorem mem_revokeDavets {p : Invite → Bool} {now : Nat} {db : Registry} {row : InviteRow}
    (h : row ∈ (revokeDavets p now db).invites) :
    ∃ r ∈ db.invites, r.invite = row.invite ∧ (r.revokedAt.isSome → row.revokedAt.isSome) ∧
      (p row.invite = true → row.revokedAt.isSome) := by
  obtain ⟨r, hr, rfl⟩ := mem_updateWhere.mp h
  refine ⟨r, hr, ?_⟩
  split
  · exact ⟨rfl, fun _ => rfl, fun _ => rfl⟩
  · next hn =>
      refine ⟨rfl, fun h => h, fun hp => ?_⟩
      simp only [hp, Bool.true_and, Option.isNone_iff_eq_none] at hn
      exact Option.isSome_iff_ne_none.mpr hn

theorem revokeDavets_keeps {p : Invite → Bool} {now : Nat} {db : Registry} {r : InviteRow}
    (h : r ∈ db.invites) : ∃ row ∈ (revokeDavets p now db).invites, row.invite = r.invite := by
  refine ⟨_, mem_updateWhere.mpr ⟨r, h, rfl⟩, ?_⟩
  split <;> rfl

theorem revokeDavets_tokens (p : Invite → Bool) (now : Nat) (db : Registry) :
    (revokeDavets p now db).invites.map (fun r => r.invite.token) =
      db.invites.map fun r => r.invite.token := by
  refine map_key_updateWhere ?_ _
  intro r
  rfl

/-- A davet with a new token comes last. -/
theorem stored_eq {t : List InviteRow} (hnew : ∀ row ∈ t, row.invite.token ≠ inv.token) :
    upsert (fun r => r.invite.token) (⟨inv, none⟩ : InviteRow) t = t ++ [⟨inv, none⟩] := by
  unfold upsert deleteWhere
  rw [List.filter_eq_self.mpr]
  intro r hr
  simpa using hnew r hr

theorem seated_eq {t : List Invite} (hnew : ∀ i ∈ t, i.token ≠ inv.token) :
    upsert Invite.token inv t = t ++ [inv] := by
  unfold upsert deleteWhere
  rw [List.filter_eq_self.mpr]
  intro r hr
  simpa using hnew r hr

theorem Recorded.token_ne {db : Registry} (hr : Recorded db inv) {x : Invite}
    (hnew : ∀ row ∈ db.invites, row.invite.token ≠ x.token) : x.token ≠ inv.token := by
  obtain ⟨row, hrow, rfl⟩ := hr
  exact fun e => hnew row hrow e.symm

theorem Recorded.unique {db : Registry} (hk : (db.invites.map fun r => r.invite.token).Nodup)
    (hr : Recorded db inv) {row : InviteRow} (hrow : row ∈ db.invites)
    (ht : row.invite.token = inv.token) : row.invite = inv := by
  obtain ⟨r, hr, rfl⟩ := hr
  rw [eq_of_key hk hrow hr ht]

/-- How far the davets in the store have moved: rows stay, may end, and a new row has a new token. -/
structure DavetsFollow (db db' : Registry) : Prop where
  keeps : ∀ r ∈ db.invites, ∃ row ∈ db'.invites, row.invite = r.invite
  back : ∀ row ∈ db'.invites,
    (∃ r ∈ db.invites, r.invite = row.invite ∧ (r.revokedAt.isSome → row.revokedAt.isSome)) ∨
      ∀ r ∈ db.invites, r.invite.token ≠ row.invite.token

theorem Recorded.follow {db db' : Registry} (hf : DavetsFollow db db') (hr : Recorded db inv) :
    Recorded db' inv := by
  obtain ⟨r, hr, rfl⟩ := hr
  exact hf.keeps r hr

theorem Ended.follow {db db' : Registry} (hf : DavetsFollow db db') (hr : Ended db inv) :
    Ended db' inv := by
  refine ⟨hr.1.follow hf, fun row hrow ht => ?_⟩
  rcases hf.back row hrow with ⟨r, hrm, hri, hrev⟩ | hnew
  · exact hrev (hr.2 r hrm (by rw [hri]; exact ht))
  · exact absurd ht (hr.1.token_ne hnew)

theorem DavetStep.follow (hs : DavetStep t s s') (hb : BookFact s t) : DavetsFollow s.db s'.db := by
  have hsame : ∀ {db db' : Registry}, db'.invites = db.invites → DavetsFollow db db' := by
    intro db db' he
    constructor
    · intro r hr
      exact ⟨r, he ▸ hr, rfl⟩
    · intro row hrow
      exact .inl ⟨row, he ▸ hrow, rfl, fun h => h⟩
  cases hs with
  | quiet hd _ => exact hsame hd
  | removed davets _ hd _ => exact hsame hd
  | seated inv _ hd _ => exact hsame hd
  | ended p now _ hd _ =>
      constructor
      · intro r hr
        rw [hd]
        exact revokeDavets_keeps hr
      · intro row hrow
        rw [hd] at hrow
        obtain ⟨r, hr, hri, hrev, -⟩ := mem_revokeDavets hrow
        exact .inl ⟨r, hr, hri, hrev⟩
  | stored inv ht hd _ =>
      subst ht
      rw [stored_eq hb] at hd
      constructor
      · intro r hr
        exact ⟨r, by rw [hd]; exact List.mem_append_left _ hr, rfl⟩
      · intro row hrow
        rw [hd] at hrow
        rcases List.mem_append.mp hrow with hrow | hrow
        · exact .inl ⟨row, hrow, rfl, fun h => h⟩
        · rw [List.mem_singleton.mp hrow]
          exact .inr hb

theorem mem_removeDavets {davets invites : List Invite} {i : Invite} :
    i ∈ House.removeDavets davets invites ↔ i ∈ invites ∧ ∀ d ∈ davets, d.token ≠ i.token := by
  simp [House.removeDavets, mem_deleteWhere]

/-- The hub keeps, drops, or gains the one davet that is being seated. -/
theorem DavetStep.mem_back (hs : DavetStep t s s') {i : Invite} (hi : i ∈ s'.invites) :
    i ∈ s.invites ∨ t = .inviteMirror i := by
  cases hs with
  | quiet _ hm => exact .inl (hm ▸ hi)
  | ended _ _ _ _ hm => exact .inl (hm ▸ hi)
  | removed davets _ _ hm =>
      rw [hm] at hi
      exact .inl (mem_removeDavets.mp hi).1
  | stored _ _ _ hm => exact .inl (hm ▸ hi)
  | seated inv ht _ hm =>
      rw [hm, mem_upsert] at hi
      rcases hi with ⟨hi, -⟩ | rfl
      · exact .inl hi
      · exact .inr ht

theorem Books.step {l l' : List Task} (hb : Books s l) (hf : BookFact s t) (hs : DavetStep t s s') :
    Books s' l' := by
  have hfollow := hs.follow hf
  constructor
  · cases hs with
    | quiet hd _ => rw [hd]; exact hb.keyed
    | removed _ _ hd _ => rw [hd]; exact hb.keyed
    | seated _ _ hd _ => rw [hd]; exact hb.keyed
    | ended p now _ hd _ => rw [hd, revokeDavets_tokens]; exact hb.keyed
    | stored inv ht hd _ =>
        subst ht
        rw [hd, stored_eq hf]
        exact nodup_append_new hb.keyed hf
  · cases hs with
    | quiet _ hm => rw [hm]; exact hb.distinct
    | ended _ _ _ _ hm => rw [hm]; exact hb.distinct
    | stored _ _ _ hm => rw [hm]; exact hb.distinct
    | removed davets _ _ hm => rw [hm]; exact nodup_deleteWhere hb.distinct
    | seated inv _ _ hm => rw [hm]; exact nodup_upsert hb.distinct
  · intro i hi
    rcases hs.mem_back hi with hi | ht
    · exact (hb.recorded i hi).follow hfollow
    · subst ht
      exact hf.1.follow hfollow

/-- What another task knows is not spoiled. -/
theorem BookFact.stable (hf : BookFact s t) (hs : DavetStep t s s') (hx : Exclusive t u)
    (hu : BookFact s u) : BookFact s' u := by
  have hfollow := hs.follow hf
  -- a task inside the section is not beside one that stores or seats a davet
  have hback : u.critical = true → ∀ row ∈ s'.db.invites,
      ∃ r ∈ s.db.invites, r.invite = row.invite ∧ (r.revokedAt.isSome → row.revokedAt.isSome) := by
    intro hc row hrow
    rcases hfollow.back row hrow with h | hnew
    · exact h
    · cases hs with
      | stored inv ht _ _ => exact (hx (by rw [ht]; rfl) hc).elim
      | quiet hd _ => exact absurd rfl (hnew row (hd ▸ hrow))
      | removed _ _ hd _ => exact absurd rfl (hnew row (hd ▸ hrow))
      | seated _ _ hd _ => exact absurd rfl (hnew row (hd ▸ hrow))
      | ended p now _ hd _ =>
          rw [hd] at hrow
          obtain ⟨r, hr, hri, hrev, -⟩ := mem_revokeDavets hrow
          exact ⟨r, hr, hri, hrev⟩
  have hclear : u.critical = true → ∀ token, Cleared s.db token → Cleared s'.db token := by
    intro hc token hcl row hrow hm
    obtain ⟨r, hr, hri, hrev⟩ := hback hc row hrow
    exact hrev (hcl r hr (by rw [hri]; exact hm))
  cases u with
  | inviteStore inv =>
      intro row hrow
      obtain ⟨r, hr, hri, -⟩ := hback rfl row hrow
      rw [← hri]
      exact hu r hr
  | inviteMirror inv =>
      refine ⟨hu.1.follow hfollow, fun i hi => ?_⟩
      rcases hs.mem_back hi with hi | ht
      · exact hu.2 i hi
      · exact (hx (by rw [ht]; rfl) rfl).elim
  | uninviteStore inv => exact Recorded.follow hfollow hu
  | uninviteRemove inv => exact Ended.follow hfollow hu
  | unseatStore room name davets =>
      intro d hd
      obtain ⟨h₁, h₂⟩ := hu d hd
      exact ⟨h₁.follow hfollow, h₂⟩
  | unseatRemove davets => exact fun d hd => (hu d hd).follow hfollow
  | revokeCollect token => exact hclear rfl token hu
  | revokeRemove token davets => exact fun d hd => (hu d hd).follow hfollow
  | suspendCollect token => exact hclear rfl token hu
  | suspendRemove token davets => exact fun d hd => (hu d hd).follow hfollow
  | _ => trivial

end Books

section Next

variable {h : Digests} {m : Moment} {s s' : House} {t t' : Task} {l : List Task}

/-- Who is inside the guarded section was there before, or has just entered. -/
theorem next_critical (hr : House.run h m s t = (s', some t')) (hc : t'.critical = true) :
    t.critical = true ∨ t.enters = true := by
  cases t with
  | revokeSeats token davets => exact .inl rfl
  | unseatSessions davets =>
      cases davets <;> cases hr
      cases hc
  | _ =>
      simp only [House.run] at hr
      (repeat' split at hr) <;> cases hr <;> first | exact .inl rfl | exact .inr rfl | cases hc

/-- The davets of a member are collected when the store has none of them in force. -/
theorem ended_of_cleared {token : String} (hb : Books s l) (hc : Cleared s.db token) :
    ∀ d ∈ s.invites.filter (fun i => i.member = token), Ended s.db d := by
  intro d hd
  obtain ⟨hmem, hm⟩ := List.mem_filter.mp hd
  have hrec := hb.recorded d hmem
  refine ⟨hrec, fun row hrow ht => hc row hrow ?_⟩
  rw [hrec.unique hb.keyed hrow ht]
  simpa using hm

/-- The rows a condition picks have ended. -/
theorem ended_of_revoked {p : Invite → Bool} {now : Nat} {db : Registry} {d : Invite}
    (hk : (db.invites.map fun r => r.invite.token).Nodup) (hrec : Recorded db d) (hp : p d = true) :
    Ended (revokeDavets p now db) d := by
  refine ⟨?_, fun row hrow ht => ?_⟩
  · obtain ⟨r, hr, rfl⟩ := hrec
    exact revokeDavets_keeps hr
  · obtain ⟨r, hr, hri, -, hrev⟩ := mem_revokeDavets hrow
    have hd : r.invite = d := hrec.unique hk hr (by rw [hri]; exact ht)
    exact hrev (by rw [← hri, hd]; exact hp)

theorem cleared_of_revoked (token : String) (now : Nat) (db : Registry) :
    Cleared (revokeDavets (fun i => i.member = token) now db) token := by
  intro row hrow hm
  obtain ⟨-, -, -, -, hrev⟩ := mem_revokeDavets hrow
  exact hrev (by simpa using hm)

theorem Cleared.congr {db db' : Registry} {token : String} (he : db'.invites = db.invites)
    (hc : Cleared db token) : Cleared db' token :=
  fun row hrow hm => hc row (he ▸ hrow) hm

theorem next_bookFact (hb : Books s l) (hf : BookFact s t)
    (hfresh : ∀ x room by_, t = .inviteAdd x room by_ → ∀ row ∈ s.db.invites, row.invite.token ≠ m.token)
    (hr : House.run h m s t = (s', some t')) : BookFact s' t' := by
  cases t with
  | inviteAdd x room by_ =>
      simp only [House.run] at hr
      split at hr
      · cases hr
      · cases hr
        exact hfresh x room by_ rfl
  | inviteStore inv =>
      simp only [House.run] at hr
      split at hr
      · cases hr
      · split at hr
        · cases hr
        · next db hs =>
            cases hr
            have hdb := insertInvite_some hs
            refine ⟨⟨⟨inv, none⟩, ?_, rfl⟩, fun i hi => ?_⟩
            · rw [hdb]
              exact mem_upsert.mpr (.inr rfl)
            · obtain ⟨row, hrow, rfl⟩ := hb.recorded i hi
              exact hf row hrow
  | uninviteFind token =>
      simp only [House.run] at hr
      split at hr
      · cases hr
      · next inv hfind =>
          cases hr
          exact hb.recorded inv (List.mem_of_find?_eq_some hfind)
  | uninviteStore inv =>
      simp only [House.run] at hr
      split at hr
      · cases hr
      · cases hr
        exact ended_of_revoked hb.keyed hf (by simp)
  | unseatFind room name =>
      simp only [House.run] at hr
      split at hr
      · cases hr
      · cases hr
        intro d hd
        obtain ⟨hmem, hp⟩ := List.mem_filter.mp hd
        exact ⟨hb.recorded d hmem, by simpa using hp⟩
  | unseatStore room name davets =>
      simp only [House.run] at hr
      split at hr
      · cases hr
      · cases hr
        intro d hd
        obtain ⟨hrec, h₁, h₂⟩ := hf d hd
        exact ended_of_revoked hb.keyed hrec (by simp [h₁, h₂])
  | revokeStore token =>
      simp only [House.run] at hr
      split at hr
      · cases hr
      · cases hr
        exact (cleared_of_revoked token m.now s.db).congr rfl
  | revokeCollect token =>
      simp only [House.run] at hr
      cases hr
      exact ended_of_cleared hb hf
  | suspendStore token reason =>
      simp only [House.run] at hr
      split at hr
      · cases hr
      · split at hr
        · cases hr
        · next db hs =>
            cases hr
            exact (cleared_of_revoked token m.now s.db).congr (suspendMember_invites hs)
  | suspendCollect token =>
      simp only [House.run] at hr
      cases hr
      exact ended_of_cleared hb hf
  | suspendCheck reference suspended reason =>
      simp only [House.run] at hr
      split at hr
      · cases hr
      · cases hr
        cases suspended <;> trivial
  | revokeSeats token davets => cases davets <;> cases hr <;> trivial
  | unseatSessions davets =>
      cases davets <;> cases hr
      trivial
  | _ =>
      simp only [House.run] at hr
      (repeat' split at hr) <;> cases hr <;> trivial

/-- A step of one task, in the middle of the others. -/
theorem Booked.next {c : Site} {l₁ l₂ : List Task} (hc : Booked c) (htasks : c.tasks = l₁ ++ t :: l₂)
    (hfree : (program h).waits t c.tasks = false)
    (hfresh : ∀ x room by_, t = .inviteAdd x room by_ →
      ∀ row ∈ c.shared.db.invites, row.invite.token ≠ m.token) :
    Booked ⟨(House.run h m c.shared t).1, l₁ ++ (House.run h m c.shared t).2.toList ++ l₂⟩ := by
  have ht : t ∈ c.tasks := by rw [htasks]; simp
  have hf := hc.facts t ht
  have hs := run_davets h m c.shared t
  refine Sys.Crew.Holds.next Exclusive.symm hc htasks (hc.shared.step hf hs) ?_ ?_
  · intro u _ hx hu
    exact hf.stable hs hx hu
  · intro t' hnext
    have hr : House.run h m c.shared t = ((House.run h m c.shared t).1, some t') := Prod.ext rfl hnext
    refine ⟨next_bookFact hc.shared hf hfresh hr, fun u hu hx hcrit hcu => ?_⟩
    rcases next_critical hr hcrit with hcrit | hent
    · exact hx hcrit hcu
    · -- it has just entered, so nobody was inside
      have humem : u ∈ c.tasks := by
        rw [htasks]
        simp only [List.mem_append, List.mem_cons] at hu ⊢
        tauto
      simp only [program, hent, Bool.true_and] at hfree
      rw [List.any_eq_false.mp hfree u humem |> Bool.eq_false_iff.mpr] at hcu
      cases hcu

end Next

/-! ## The davets of a run -/

/-- The operating system draws a token that is in no table. -/
def Unused (db : Registry) (token : String) : Prop :=
  token ≠ "" ∧ (∀ row ∈ db.invites, row.invite.token ≠ token) ∧
    ∀ row ∈ db.members, row.membership.token ≠ token

def Drawn (s : Site) : HouseInput → Prop
  | .advance _ m => Unused s.shared.db m.token
  | _ => True

instance (db : Registry) (token : String) : Decidable (Unused db token) :=
  inferInstanceAs (Decidable (_ ∧ _ ∧ _))

instance : ∀ (s : Site) (i : HouseInput), Decidable (Drawn s i)
  | s, .advance _ m => inferInstanceAs (Decidable (Unused s.shared.db m.token))
  | _, .call _ => inferInstanceAs (Decidable True)
  | _, .desk _ => inferInstanceAs (Decidable True)
  | _, .restart _ _ _ _ => inferInstanceAs (Decidable True)

def Keyed (db : Registry) : Prop := (db.invites.map fun r => r.invite.token).Nodup

instance (db : Registry) : Decidable (Keyed db) := inferInstanceAs (Decidable (List.Nodup _))

/-- The desk writes its own two tables. -/
theorem desk_routine (h : Digests) (db : Registry) {i : DeskInput} (hi : i.routine = true) :
    ∃ stock requests, (Desk.step h ⟨db, []⟩ i).2.db =
      { db with admissionStock := stock, joinRequests := requests } := by
  cases i with
  | mint env ids ttl =>
      simp only [Desk.step, mintAdmissionStock]
      split
      · exact ⟨_, _, rfl⟩
      · next hm =>
          obtain ⟨new, -, rfl, -⟩ := mintAdmissionRights_some hm
          exact ⟨_, _, rfl⟩
  | create env id secret name kind =>
      simp only [Desk.step]
      split
      · exact ⟨_, _, rfl⟩
      · next hcr =>
          obtain ⟨-, rfl⟩ := createJoinRequest_some hcr
          exact ⟨_, _, rfl⟩
  | deny env id by_ =>
      simp only [Desk.step, denyJoinRequest]
      split <;> exact ⟨_, _, rfl⟩
  | bootstrap env id secret =>
      simp only [Desk.step, claimJoinRequestBootstrap]
      split
      · exact ⟨_, _, rfl⟩
      · split
        · exact ⟨_, _, rfl⟩
        · simp only [stampDelivery]
          split <;> exact ⟨_, _, rfl⟩
  | ack env id secret =>
      simp only [Desk.step]
      rcases ackJoinRequestBootstrap_cases h env id secret db with ⟨-, hsame⟩ | ⟨-, -, hack⟩
      · rw [hsame]
        exact ⟨_, _, rfl⟩
      · rw [hack]
        exact ⟨_, _, rfl⟩
  | approve env id mb by_ => cases hi
  | elsewhere members principals credentials => cases hi

theorem Call.task_outside (c : Call) : c.task.critical = false := by
  cases c <;> rfl

theorem Call.task_bookFact (c : Call) (s : House) : BookFact s c.task := by
  cases c <;> trivial

theorem mem_loadInvites {db : Registry} {i : Invite} :
    i ∈ loadInvites db ↔ ∃ row ∈ db.invites, row.revokedAt = none ∧ row.invite = i := by
  simp only [loadInvites, List.mem_map, List.mem_filter, Option.isNone_iff_eq_none]
  exact ⟨fun ⟨r, ⟨hr, hn⟩, hi⟩ => ⟨r, hr, hn, hi⟩, fun ⟨r, hr, hn, hi⟩ => ⟨r, ⟨hr, hn⟩, hi⟩⟩

theorem mem_loadMembers {db : Registry} {x : Membership} :
    x ∈ loadMembers db ↔ (⟨x, none⟩ : MemberRow) ∈ db.members := by
  simp only [loadMembers, List.mem_map, List.mem_filter, Option.isNone_iff_eq_none]
  constructor
  · rintro ⟨⟨y, rev⟩, ⟨hr, hn⟩, rfl⟩
    cases hn
    exact hr
  · intro hx
    exact ⟨_, ⟨hx, rfl⟩, rfl⟩

theorem loadInvites_tokens {db : Registry} (hk : Keyed db) : ((loadInvites db).map Invite.token).Nodup := by
  have hsub : ((db.invites.filter fun r => r.revokedAt.isNone).map fun r => r.invite.token).Nodup :=
    List.Nodup.sublist (List.filter_sublist.map _) hk
  simpa [loadInvites, List.map_map, Function.comp_def] using hsub

/-- A start leaves only the davets in force, and each is recorded. -/
theorem restart_booked {db : Registry} (hk : Keyed db) (membersLost invitesLost : Bool)
    (stale : Invite → Bool) (now : Nat) :
    Booked ⟨(House.load membersLost invitesLost db).clean stale now, []⟩ := by
  refine ⟨⟨?_, ?_, ?_⟩, by simp, List.Pairwise.nil⟩
  · show ((revokeDavets _ now db).invites.map fun r => r.invite.token).Nodup
    rw [revokeDavets_tokens]
    exact hk
  · refine nodup_deleteWhere ?_
    cases invitesLost with
    | true => exact List.nodup_nil
    | false => exact loadInvites_tokens hk
  · intro i hi
    have hmem := (mem_removeDavets.mp hi).1
    cases invitesLost with
    | true => cases hmem
    | false =>
        obtain ⟨row, hrow, -, rfl⟩ := mem_loadInvites.mp hmem
        exact revokeDavets_keeps hrow

theorem step_booked {h : Digests} {s : Site} (hc : Booked s) {i : HouseInput} (hi : Drawn s i) :
    Booked (Site.step h s i) := by
  cases i with
  | call c =>
      refine hc.spawn ⟨hc.shared.keyed, hc.shared.distinct, hc.shared.recorded⟩ (c.task_bookFact _) ?_
      intro u _ _ hcrit
      rw [c.task_outside] at hcrit
      cases hcrit
  | advance k m =>
      simp only [Site.step]
      rcases Sys.Crew.advance_cases (program h) m k s with hsame | ⟨l₁, t, l₂, -, htasks, hfree, hadv⟩
      · rwa [hsame]
      · rw [hadv]
        exact Booked.next hc htasks hfree fun _ _ _ _ => hi.2.1
  | desk i =>
      simp only [Site.step]
      split
      · next hr =>
          obtain ⟨stock, requests, hdb⟩ := desk_routine h s.shared.db hr
          rw [hdb]
          refine hc.outside ⟨hc.shared.keyed, hc.shared.distinct, hc.shared.recorded⟩ fun t ht => ?_
          cases t <;> exact ht
      · exact hc
  | restart membersLost invitesLost stale now =>
      exact restart_booked hc.shared.keyed membersLost invitesLost stale now

theorem run_booked {h : Digests} {good : Registry → Prop} (hgood : ∀ db, good db → Keyed db)
    {ok : Site → HouseInput → Prop} (hok : ∀ s i, ok s i → Drawn s i)
    {tr : List (HouseInput × Unit)} {s : Site} (r : Sys.Run (house h good) ok tr s) : Booked s := by
  refine Sys.Run.invariant (I := Booked) ?_ (fun s i hc hi => step_booked hc (hok s i hi)) r
  rintro s ⟨hdb, hs⟩
  rw [hs]
  refine ⟨⟨hgood _ hdb, loadInvites_tokens (hgood _ hdb), ?_⟩, by simp, List.Pairwise.nil⟩
  intro i hi
  obtain ⟨row, hrow, -, rfl⟩ := mem_loadInvites.mp hi
  exact ⟨row, hrow, rfl⟩

end Loca.Building
