/-
# `Loca.Building.Sessions` — no session outlives its davet

A session is taken for a davet in several steps: the davet is looked up, the identity is put
together, and only the last step writes the session into the map.  A revocation ends the davet in
the store, takes it out of the hub and then drops the sessions of its `(room, member)` that it finds
there.  When all of that happens between the lookup and the last step, the session stays
(`session_after_revocation`).

`Followed` is the law: a session whose davet is gone has a revocation in flight that will drop it.
`Timely` is the condition on the step that writes a session; a step that breaks it breaks the law.
-/
import Loca.Building.Davets

namespace Loca.Building

open Table

/-! ## Nobody has the empty token -/

/-- The members and davets of a store are of somebody. -/
structure Owned (db : Registry) : Prop where
  members : ∀ r ∈ db.members, r.membership.token ≠ ""
  davets : ∀ r ∈ db.invites, r.invite.member ≠ ""

structure Bound (s : House) (_ : List Task) : Prop where
  stored : Owned s.db
  members : ∀ x ∈ s.members, x.token ≠ ""
  davets : ∀ i ∈ s.invites, i.member ≠ ""
  sessions : ∀ e ∈ s.sessions, e.2.member ≠ some ""

/-- A session speaks for the davet it was taken for. -/
def Speaks (idy : SessionIdentity) (inv : Invite) : Prop :=
  idy.member = some inv.member ∧ idy.loca = some inv.room

/-- What a task carries, whatever the house is. -/
def Bears : Task → Prop
  | .admitMirror x => x.token ≠ ""
  | .approveMirror x => x.token ≠ ""
  | .revokeRemove token davets => ∀ d ∈ davets, d.member = token
  | .suspendRemove token davets => ∀ d ∈ davets, d.member = token
  | .inviteDup x _ _ => x.token ≠ ""
  | .inviteCount x _ _ => x.token ≠ ""
  | .inviteAdd x _ _ => x.token ≠ ""
  | .inviteStore inv => inv.member ≠ ""
  | .inviteMirror inv => inv.member ≠ ""
  | .sessionSuspended inv => inv.member ≠ ""
  | .sessionMember inv => inv.member ≠ ""
  | .sessionPrincipal inv _ _ => inv.member ≠ ""
  | .sessionCredential inv idy => inv.member ≠ "" ∧ Speaks idy inv
  | .sessionSave inv idy _ => inv.member ≠ "" ∧ Speaks idy inv
  | .sessionInsert inv _ idy => inv.member ≠ "" ∧ Speaks idy inv
  | _ => True

abbrev Cast (c : Site) : Prop := Sys.Crew.Holds Bound (fun _ => Bears) (fun _ _ => True) c

theorem mem_of_dropSeat {inv : Invite} {sessions : List (String × SessionIdentity)}
    {e : String × SessionIdentity} (he : e ∈ House.dropSeat inv sessions) : e ∈ sessions := by
  unfold House.dropSeat at he
  split at he
  · exact he
  · exact (List.mem_filter.mp he).1

section Cast

variable {h : Digests} {m : Moment} {s s' : House} {t t' : Task} {l l' : List Task}

theorem Owned.revokeDavets (p : Invite → Bool) (now : Nat) {db : Registry} (ho : Owned db) :
    ∀ r ∈ (revokeDavets p now db).invites, r.invite.member ≠ "" := by
  intro r hr
  obtain ⟨r', hr', he, -⟩ := mem_revokeDavets hr
  rw [← he]
  exact ho.davets r' hr'

theorem Owned.addMember {x : Membership} {db : Registry} (ho : Owned db) (hx : x.token ≠ "") :
    Owned (addMember h x db) := by
  refine ⟨fun r hr => ?_, ho.davets⟩
  rcases mem_upsert.mp hr with ⟨hr, -⟩ | rfl
  · exact ho.members r hr
  · exact hx

theorem Owned.revokeMemberCascade {token : String} {now : Nat} {db : Registry} (ho : Owned db) :
    Owned (revokeMemberCascade h token now db) := by
  refine ⟨fun r hr => ?_, ho.revokeDavets (fun i => i.member = token) now⟩
  obtain ⟨r', hr', rfl⟩ := mem_updateWhere.mp hr
  split <;> exact ho.members r' hr'

theorem Owned.suspendMember {token reason : String} {now : Nat} {db db' : Registry} (ho : Owned db)
    (hs : suspendMember h token reason now db = some db') : Owned db' := by
  obtain ⟨principal, -, rfl⟩ := Option.map_eq_some_iff.mp hs
  exact ⟨ho.members, ho.revokeDavets (fun i => i.member = token) now⟩

theorem Owned.resumeMember {token : String} {db db' : Registry} (ho : Owned db)
    (hs : resumeMember h token db = some db') : Owned db' := by
  unfold Building.resumeMember at hs
  split at hs
  · cases hs
    exact ⟨ho.members, ho.davets⟩
  · cases hs

/-- An approval enrols the token that was drawn for it. -/
theorem Owned.approve {env : StoreEnv} {id mb by_ : String} {db : Registry} (ho : Owned db) (hmb : mb ≠ "") :
    Owned (approveJoinRequestAtomic h env id mb by_ db).2 ∧
      ∀ x, (approveJoinRequestAtomic h env id mb by_ db).1 = .committed x → x.token ≠ "" := by
  unfold approveJoinRequestAtomic
  split
  · next x db' hok =>
      obtain ⟨-, -, -, -, htoken, -, -, hmembers⟩ := approveTx_members hok
      refine ⟨⟨fun r hr => ?_, fun r hr => ho.davets r ?_⟩, ?_⟩
      · rw [hmembers] at hr
        rcases List.mem_append.mp hr with hr | hr
        · exact ho.members r hr
        · rw [List.mem_singleton.mp hr, htoken]
          exact hmb
      · rw [← approveTx_invites hok]
        exact hr
      · rintro _ ⟨rfl⟩
        rw [htoken]
        exact hmb
  · next e _ =>
      refine ⟨ho, fun x hx => ?_⟩
      cases e <;> cases hx

theorem Owned.insertInvite {inv : Invite} {db db' : Registry} (ho : Owned db) (hi : inv.member ≠ "")
    (hs : insertInvite inv db = some db') : Owned db' := by
  rw [insertInvite_some hs]
  refine ⟨ho.members, fun r hr => ?_⟩
  rcases mem_upsert.mp hr with ⟨hr, -⟩ | rfl
  · exact ho.davets r hr
  · exact hi

/-- What one step leaves behind. -/
theorem run_bound (hb : Bound s l) (ht : Bears t) (hm : m.token ≠ "") : Bound (House.run h m s t).1 l' := by
  have hsame : Bound s l' := ⟨hb.stored, hb.members, hb.davets, hb.sessions⟩
  have hdb : ∀ db, Owned db → Bound { s with db := db } l' :=
    fun db ho => ⟨ho, hb.members, hb.davets, hb.sessions⟩
  have hjoin : ∀ x : Membership, x.token ≠ "" →
      Bound { s with members := upsert Membership.token x s.members } l' := by
    intro x hx
    refine ⟨hb.stored, fun y hy => ?_, hb.davets, hb.sessions⟩
    rcases mem_upsert.mp hy with ⟨hy, -⟩ | rfl
    · exact hb.members y hy
    · exact hx
  have hforget : ∀ davets, Bound { s with invites := House.removeDavets davets s.invites } l' :=
    fun davets => ⟨hb.stored, hb.members, fun i hi => hb.davets i (mem_removeDavets.mp hi).1, hb.sessions⟩
  have hfewer : ∀ sessions, (∀ e ∈ sessions, e ∈ s.sessions) → Bound { s with sessions := sessions } l' :=
    fun sessions hsub => ⟨hb.stored, hb.members, hb.davets, fun e he => hb.sessions e (hsub e he)⟩
  cases t with
  | admitStore name kind by_ =>
      simp only [House.run]
      split
      · exact hsame
      · exact hdb _ (hb.stored.addMember hm)
  | admitMirror x => exact hjoin x ht
  | approveStore id by_ =>
      have ho := (@Owned.approve h m.env id m.token by_ _ hb.stored hm).1
      simp only [House.run]
      split
      · next hap => exact hdb _ (by rw [hap] at ho; exact ho)
      · next hap => exact hdb _ (by rw [hap] at ho; exact ho)
  | approveMirror x => exact hjoin x ht
  | revokeStore token =>
      simp only [House.run]
      split
      · exact hsame
      · exact hdb _ hb.stored.revokeMemberCascade
  | revokeRemove token davets => exact hforget davets
  | revokeSeats token davets =>
      cases davets with
      | nil => exact hsame
      | cons inv davets => exact hfewer _ fun e he => mem_of_dropSeat he
  | revokeSessions token => exact hfewer _ fun e he => (List.mem_filter.mp he).1
  | revokeForget token =>
      exact ⟨hb.stored, fun x hx => hb.members x (mem_deleteWhere.mp hx).1, hb.davets, hb.sessions⟩
  | suspendStore token reason =>
      simp only [House.run]
      split
      · exact hsame
      · split
        · exact hsame
        · next hs => exact hdb _ (hb.stored.suspendMember hs)
  | suspendRemove token davets => exact hforget davets
  | suspendSessions token => exact hfewer _ fun e he => (List.mem_filter.mp he).1
  | resumeStore token =>
      simp only [House.run]
      split
      · exact hsame
      · split
        · exact hsame
        · next hs => exact hdb _ (hb.stored.resumeMember hs)
  | inviteStore inv =>
      simp only [House.run]
      split
      · exact hsame
      · split
        · exact hsame
        · next hs => exact hdb _ (hb.stored.insertInvite ht hs)
  | inviteMirror inv =>
      refine ⟨hb.stored, hb.members, fun i hi => ?_, hb.sessions⟩
      rcases mem_upsert.mp hi with ⟨hi, -⟩ | rfl
      · exact hb.davets i hi
      · exact ht
  | uninviteStore inv =>
      simp only [House.run]
      split
      · exact hsame
      · exact hdb _ ⟨hb.stored.members, hb.stored.revokeDavets _ _⟩
  | uninviteRemove inv => exact hforget [inv]
  | uninviteSessions inv => exact hfewer _ fun e he => mem_of_dropSeat he
  | unseatStore room name davets =>
      simp only [House.run]
      split
      · exact hsame
      · exact hdb _ ⟨hb.stored.members, hb.stored.revokeDavets _ _⟩
  | unseatRemove davets => exact hforget davets
  | unseatSessions davets =>
      cases davets with
      | nil => exact hsame
      | cons inv davets => exact hfewer _ fun e he => mem_of_dropSeat he
  | sessionSave inv idy credential =>
      simp only [House.run]
      split
      · split
        · exact hsame
        · exact hdb _ ⟨hb.stored.members, hb.stored.davets⟩
      · exact hsame
  | sessionInsert inv st idy =>
      refine ⟨hb.stored, hb.members, hb.davets, fun e he => ?_⟩
      rcases mem_upsert.mp he with ⟨he, -⟩ | rfl
      · exact hb.sessions e he
      · rw [ht.2.1]
        exact fun he => ht.1 (Option.some.inj he)
  | _ =>
      simp only [House.run]
      (repeat' split) <;> exact hsame

/-- What one step hands on. -/
theorem next_bears (hb : Bound s l) (ht : Bears t) (hm : m.token ≠ "")
    (hr : House.run h m s t = (s', some t')) : Bears t' := by
  cases t with
  | admitStore name kind by_ =>
      simp only [House.run] at hr
      split at hr
      · cases hr
      · cases hr
        exact hm
  | approveStore id by_ =>
      have hx := (@Owned.approve h m.env id m.token by_ _ hb.stored hm).2
      simp only [House.run] at hr
      split at hr
      · next x db hap =>
          cases hr
          exact hx x (by rw [hap])
      · cases hr
  | revokeCollect token =>
      cases hr
      intro d hd
      simpa using (List.mem_filter.mp hd).2
  | revokeSeats token davets => cases davets <;> cases hr <;> trivial
  | suspendCheck reference suspended reason =>
      simp only [House.run] at hr
      split at hr
      · cases hr
      · cases hr
        cases suspended <;> trivial
  | suspendCollect token =>
      cases hr
      intro d hd
      simpa using (List.mem_filter.mp hd).2
  | inviteMember member room by_ =>
      simp only [House.run] at hr
      split at hr
      · cases hr
      · next x hx =>
          split at hr
          · cases hr
          · cases hr
            exact hb.members x (List.mem_of_find?_eq_some hx)
  | unseatSessions davets =>
      cases davets <;> cases hr
      trivial
  | sessionFind token =>
      simp only [House.run] at hr
      split at hr
      · cases hr
      · next inv hf =>
          cases hr
          exact hb.davets inv (List.mem_of_find?_eq_some hf)
  | sessionPrincipal inv name kind =>
      cases hr
      exact ⟨ht, rfl, rfl⟩
  | _ =>
      simp only [House.run] at hr
      (repeat' split at hr) <;> cases hr <;> first | exact ht | trivial

end Cast

/-! ## The law -/

/-- A revocation that is past its store call, and will drop the sessions of this `(room, member)`. -/
def Task.drops (room member : String) : Task → Bool
  | .uninviteRemove inv | .uninviteSessions inv => inv.room = room && inv.member = member
  | .unseatRemove davets | .unseatSessions davets => davets.any fun d => d.room = room && d.member = member
  | .revokeCollect token | .revokeRemove token _ | .revokeSeats token _ | .revokeSessions token => token = member
  | .suspendCollect token | .suspendRemove token _ | .suspendSessions token => token = member
  | _ => false

/-- The `(room, member)` has a davet in force, or a revocation that will drop its sessions. -/
def Standing (room member : String) (s : Site) : Prop :=
  s.shared.hasActiveInvite room member = true ∨ s.tasks.any (Task.drops room member) = true

/-- No session outlives its davet. -/
def Followed (s : Site) : Prop :=
  ∀ e ∈ s.shared.sessions, ∀ room member, e.2.member = some member → e.2.loca = some room →
    Standing room member s

instance (room member : String) (s : Site) : Decidable (Standing room member s) :=
  inferInstanceAs (Decidable (_ ∨ _))

/-- The davet of a session that is about to be written. -/
def Task.writes : Task → Option Invite
  | .sessionInsert inv _ _ => some inv
  | _ => none

/-- A session that is written has its davet still, or a revocation that will find it. -/
def Timely (s : Site) : HouseInput → Prop
  | .advance k _ => ∀ inv ∈ s.tasks[k]?.bind Task.writes, Standing inv.room inv.member s
  | _ => True

instance : ∀ (s : Site) (i : HouseInput), Decidable (Timely s i)
  | s, .advance k _ =>
      inferInstanceAs (Decidable (∀ inv ∈ s.tasks[k]?.bind Task.writes, Standing inv.room inv.member s))
  | _, .call _ => inferInstanceAs (Decidable True)
  | _, .desk _ => inferInstanceAs (Decidable True)
  | _, .restart _ _ _ _ => inferInstanceAs (Decidable True)

section Follow

variable {h : Digests} {m : Moment} {s : House} {t : Task} {room member : String}

/-- What a step does to the sessions. -/
theorem run_sessions (h : Digests) (m : Moment) (s : House) (t : Task) {e : String × SessionIdentity}
    (he : e ∈ (House.run h m s t).1.sessions) :
    e ∈ s.sessions ∨ ∃ inv st idy, t = .sessionInsert inv st idy ∧ e = (st, idy) := by
  cases t with
  | revokeSeats token davets =>
      cases davets with
      | nil => exact .inl he
      | cons inv davets => exact .inl (mem_of_dropSeat he)
  | revokeSessions token => exact .inl (List.mem_filter.mp he).1
  | suspendSessions token => exact .inl (List.mem_filter.mp he).1
  | uninviteSessions inv => exact .inl (mem_of_dropSeat he)
  | unseatSessions davets =>
      cases davets with
      | nil => exact .inl he
      | cons inv davets => exact .inl (mem_of_dropSeat he)
  | sessionInsert inv st idy =>
      rcases mem_upsert.mp he with ⟨he, -⟩ | rfl
      · exact .inl he
      · exact .inr ⟨inv, st, idy, rfl, rfl⟩
  | _ =>
      simp only [House.run] at he
      (repeat' split at he) <;> exact .inl he

theorem dropSeat_none {inv : Invite} {sessions : List (String × SessionIdentity)} (hne : inv.member ≠ "")
    {e : String × SessionIdentity} (he : e ∈ House.dropSeat inv sessions)
    (hm : e.2.member = some inv.member) : e.2.loca ≠ some inv.room := by
  simp only [House.dropSeat, hne, if_false] at he
  have := (List.mem_filter.mp he).2
  simpa [hm] using this

theorem dropMember_none {token : String} {sessions : List (String × SessionIdentity)}
    {e : String × SessionIdentity} (he : e ∈ House.dropMember token sessions) : e.2.member ≠ some token := by
  have := (List.mem_filter.mp he).2
  simpa using this

/-- A revocation goes on to the sessions, or has just dropped them. -/
theorem drops_next (hd : t.drops room member = true) (hne : member ≠ "") :
    (∃ t', (House.run h m s t).2 = some t' ∧ t'.drops room member = true) ∨
      ∀ e ∈ (House.run h m s t).1.sessions, e.2.member = some member → e.2.loca ≠ some room := by
  cases t with
  | uninviteRemove inv => exact .inl ⟨_, rfl, hd⟩
  | uninviteSessions inv =>
      simp only [Task.drops, Bool.and_eq_true, decide_eq_true_eq] at hd
      obtain ⟨rfl, rfl⟩ := hd
      exact .inr fun e he => dropSeat_none hne he
  | unseatRemove davets => exact .inl ⟨_, rfl, hd⟩
  | unseatSessions davets =>
      cases davets with
      | nil => cases hd
      | cons inv davets =>
          simp only [Task.drops, List.any_cons, Bool.or_eq_true, Bool.and_eq_true, decide_eq_true_eq] at hd
          rcases hd with ⟨rfl, rfl⟩ | hd
          · exact .inr fun e he => dropSeat_none hne he
          · exact .inl ⟨_, rfl, hd⟩
  | revokeCollect token => exact .inl ⟨_, rfl, hd⟩
  | revokeRemove token davets => exact .inl ⟨_, rfl, hd⟩
  | revokeSeats token davets => cases davets <;> exact .inl ⟨_, rfl, hd⟩
  | revokeSessions token =>
      obtain rfl : token = member := by simpa [Task.drops] using hd
      exact .inr fun e he hm => absurd hm (dropMember_none he)
  | suspendCollect token => exact .inl ⟨_, rfl, hd⟩
  | suspendRemove token davets => exact .inl ⟨_, rfl, hd⟩
  | suspendSessions token =>
      obtain rfl : token = member := by simpa [Task.drops] using hd
      exact .inr fun e he hm => absurd hm (dropMember_none he)
  | _ => cases hd

/-- A davet that is taken out of the hub has its revocation go on to the sessions. -/
theorem davet_next {l : List Task} (hb : Books s l) (hf : BookFact s t) (ht : Bears t) {i : Invite}
    (hi : i ∈ s.invites) :
    i ∈ (House.run h m s t).1.invites ∨
      ∃ t', (House.run h m s t).2 = some t' ∧ t'.drops i.room i.member = true := by
  -- the davets a task takes out are those it carries, not others with their tokens
  have hsame : ∀ d, Ended s.db d → d.token = i.token → i = d := by
    intro d hd he
    obtain ⟨row, hrow, rfl⟩ := hb.recorded i hi
    exact hd.1.unique hb.keyed hrow he.symm
  cases run_davets h m s t with
  | quiet _ hm => exact .inl (hm ▸ hi)
  | ended _ _ _ _ hm => exact .inl (hm ▸ hi)
  | stored _ _ _ hm => exact .inl (hm ▸ hi)
  | seated inv he _ hm =>
      subst he
      left
      rw [hm, seated_eq hf.2]
      exact List.mem_append_left _ hi
  | removed davets he _ hm =>
      by_cases hany : ∃ d ∈ davets, d.token = i.token
      · obtain ⟨d, hd, hdt⟩ := hany
        right
        cases t with
        | uninviteRemove inv =>
            cases he
            obtain rfl := List.mem_singleton.mp hd
            obtain rfl := hsame d hf hdt
            exact ⟨_, rfl, by simp [Task.drops]⟩
        | unseatRemove ds =>
            cases he
            obtain rfl := hsame d (hf d hd) hdt
            exact ⟨_, rfl, List.any_eq_true.mpr ⟨i, hd, by simp⟩⟩
        | revokeRemove token ds =>
            cases he
            obtain rfl := hsame d (hf d hd) hdt
            exact ⟨_, rfl, by simpa [Task.drops] using (ht i hd).symm⟩
        | suspendRemove token ds =>
            cases he
            obtain rfl := hsame d (hf d hd) hdt
            exact ⟨_, rfl, by simpa [Task.drops] using (ht i hd).symm⟩
        | _ => cases he
      · left
        rw [hm]
        exact mem_removeDavets.mpr ⟨hi, fun d hd he => hany ⟨d, hd, he⟩⟩

theorem standing_iff {room member : String} {c : Site} :
    Standing room member c ↔ (∃ i ∈ c.shared.invites, i.room = room ∧ i.member = member) ∨
      ∃ t ∈ c.tasks, t.drops room member = true := by
  simp [Standing, House.hasActiveInvite, List.any_eq_true]

/-- What stands goes on standing, or its sessions have just been dropped. -/
theorem Standing.next {c : Site} {l₁ l₂ : List Task} (hb : Booked c) (hc : Cast c)
    (htasks : c.tasks = l₁ ++ t :: l₂) (hs : Standing room member c) (hne : member ≠ "") :
    Standing room member ⟨(House.run h m c.shared t).1, l₁ ++ (House.run h m c.shared t).2.toList ++ l₂⟩ ∨
      ∀ e ∈ (House.run h m c.shared t).1.sessions, e.2.member = some member → e.2.loca ≠ some room := by
  have ht : t ∈ c.tasks := by rw [htasks]; simp
  have hnext : ∀ t', (House.run h m c.shared t).2 = some t' →
      t' ∈ l₁ ++ (House.run h m c.shared t).2.toList ++ l₂ := by
    intro t' he
    simp [he]
  rcases standing_iff.mp hs with ⟨i, hi, rfl, rfl⟩ | ⟨u, hu, hud⟩
  · left
    rcases davet_next (h := h) (m := m) hb.shared (hb.facts t ht) (hc.facts t ht) hi with hi | ⟨t', he, hd⟩
    · exact standing_iff.mpr (.inl ⟨i, hi, rfl, rfl⟩)
    · exact standing_iff.mpr (.inr ⟨t', hnext t' he, hd⟩)
  · rw [htasks] at hu
    by_cases hut : u = t
    · subst hut
      rcases drops_next (h := h) (m := m) (s := c.shared) hud hne with ⟨t', he, hd⟩ | hnone
      · exact .inl (standing_iff.mpr (.inr ⟨t', hnext t' he, hd⟩))
      · exact .inr hnone
    · left
      refine standing_iff.mpr (.inr ⟨u, ?_, hud⟩)
      simp only [List.mem_append, List.mem_cons, hut, false_or] at hu ⊢
      tauto

theorem Followed.next {c : Site} {l₁ l₂ : List Task} (hb : Booked c) (hc : Cast c) (hf : Followed c)
    (htasks : c.tasks = l₁ ++ t :: l₂)
    (htime : ∀ inv, t.writes = some inv → Standing inv.room inv.member c) :
    Followed ⟨(House.run h m c.shared t).1, l₁ ++ (House.run h m c.shared t).2.toList ++ l₂⟩ := by
  have ht : t ∈ c.tasks := by rw [htasks]; simp
  intro e he room member hm hl
  have hold : Standing room member c ∧ member ≠ "" := by
    rcases run_sessions h m c.shared t he with hold | ⟨inv, st, idy, rfl, rfl⟩
    · exact ⟨hf e hold room member hm hl, fun hnil => hc.shared.sessions e hold (by rw [hm, hnil])⟩
    · obtain ⟨hne, hspeaks⟩ := hc.facts _ ht
      obtain rfl : member = inv.member := Option.some.inj (hm.symm.trans hspeaks.1)
      obtain rfl : room = inv.room := Option.some.inj (hl.symm.trans hspeaks.2)
      exact ⟨htime inv rfl, hne⟩
  rcases Standing.next hb hc htasks hold.1 hold.2 with hs | hnone
  · exact hs
  · exact absurd hl (hnone e he hm)

end Follow

/-! ## Runs -/

/-- A store to start on: distinct davets, and everything is of somebody. -/
structure Kept (db : Registry) : Prop where
  keyed : Keyed db
  owned : Owned db

theorem Call.task_bears (c : Call) : Bears c.task := by
  cases c <;> trivial

theorem load_bound {db : Registry} (ho : Owned db) (membersLost invitesLost : Bool) (l : List Task) :
    Bound (House.load membersLost invitesLost db) l := by
  refine ⟨ho, ?_, ?_, by simp [House.load]⟩
  · intro x hx
    cases membersLost with
    | true => cases hx
    | false => exact ho.members _ (mem_loadMembers.mp hx)
  · intro i hi
    cases invitesLost with
    | true => cases hi
    | false =>
        obtain ⟨r, hr, -, rfl⟩ := mem_loadInvites.mp hi
        exact ho.davets r hr

theorem restart_cast {db : Registry} (ho : Owned db) (membersLost invitesLost : Bool)
    (stale : Invite → Bool) (now : Nat) :
    Cast ⟨(House.load membersLost invitesLost db).clean stale now, []⟩ := by
  have hl := load_bound ho membersLost invitesLost []
  refine ⟨⟨⟨ho.members, ho.revokeDavets _ _⟩, hl.members, fun i hi => ?_, hl.sessions⟩, by simp, List.Pairwise.nil⟩
  exact hl.davets i (mem_removeDavets.mp hi).1

theorem step_cast {h : Digests} {s : Site} (hc : Cast s) {i : HouseInput} (hi : Drawn s i) :
    Cast (Site.step h s i) := by
  cases i with
  | call c =>
      exact hc.spawn ⟨hc.shared.stored, hc.shared.members, hc.shared.davets, hc.shared.sessions⟩ c.task_bears
        fun _ _ => trivial
  | advance k m =>
      simp only [Site.step]
      rcases Sys.Crew.advance_cases (program h) m k s with hsame | ⟨l₁, t, l₂, -, htasks, hfree, hadv⟩
      · rwa [hsame]
      · rw [hadv]
        have ht : t ∈ s.tasks := by rw [htasks]; simp
        refine Sys.Crew.Holds.next (fun _ _ _ => trivial) hc htasks
          (run_bound hc.shared (hc.facts t ht) hi.1) (fun u _ _ hu => hu) fun t' hnext => ?_
        exact ⟨next_bears hc.shared (hc.facts t ht) hi.1 (Prod.ext rfl hnext), fun _ _ _ => trivial⟩
  | desk i =>
      simp only [Site.step]
      split
      · next hr =>
          obtain ⟨stock, requests, hdb⟩ := desk_routine h s.shared.db hr
          rw [hdb]
          refine hc.outside ⟨⟨hc.shared.stored.members, hc.shared.stored.davets⟩, hc.shared.members,
            hc.shared.davets, hc.shared.sessions⟩ fun t ht => ht
      · exact hc
  | restart membersLost invitesLost stale now =>
      exact restart_cast hc.shared.stored membersLost invitesLost stale now

theorem step_followed {h : Digests} {s : Site} (hb : Booked s) (hc : Cast s) (hf : Followed s)
    {i : HouseInput} (hi : Timely s i) : Followed (Site.step h s i) := by
  cases i with
  | call c =>
      intro e he room member hm hl
      refine (hf e he room member hm hl).imp_right fun hany => ?_
      show (s.tasks ++ [c.task]).any _ = true
      rw [List.any_append, hany]
      rfl
  | advance k m =>
      simp only [Site.step]
      rcases Sys.Crew.advance_cases (program h) m k s with hsame | ⟨l₁, t, l₂, hk, htasks, hfree, hadv⟩
      · rwa [hsame]
      · rw [hadv]
        refine Followed.next hb hc hf htasks fun inv hw => hi inv ?_
        rw [hk]
        exact hw
  | desk i =>
      simp only [Site.step]
      split
      · exact hf
      · exact hf
  | restart membersLost invitesLost stale now =>
      intro e he
      cases he

/-- A session that is written too late stays. -/
theorem timely_of_followed {h : Digests} {s : Site} (hc : Cast s) {i : HouseInput}
    (hf : Followed (Site.step h s i)) : Timely s i := by
  cases i with
  | advance k m =>
      intro inv hw
      obtain ⟨t, hk, ht⟩ := Option.bind_eq_some_iff.mp hw
      cases t with
      | sessionInsert inv' st idy =>
          cases ht
          obtain ⟨-, hmem, hloca⟩ := hc.facts _ (List.mem_of_getElem? hk)
          have hstep : Site.step h s (.advance k m) =
              ⟨{ s.shared with sessions := upsert Prod.fst (st, idy) s.shared.sessions }, s.tasks.eraseIdx k⟩ := by
            simp [Site.step, Sys.Crew.advance, hk, program, Task.enters, House.run]
          rw [hstep] at hf
          refine (hf (st, idy) (mem_upsert.mpr (.inr rfl)) _ _ hmem hloca).imp_right fun hany => ?_
          obtain ⟨u, hu, hd⟩ := List.any_eq_true.mp hany
          exact List.any_eq_true.mpr ⟨u, List.mem_of_mem_eraseIdx hu, hd⟩
      | _ => cases ht
  | call c => trivial
  | desk i => trivial
  | restart membersLost invitesLost stale now => trivial

theorem run_followed {h : Digests} {tr : List (HouseInput × Unit)} {s : Site}
    (r : Sys.Run (house h Kept) (fun s i => Drawn s i ∧ Timely s i) tr s) :
    Booked s ∧ Cast s ∧ Followed s := by
  refine Sys.Run.invariant (I := fun s => Booked s ∧ Cast s ∧ Followed s) ?_ ?_ r
  · rintro s ⟨hk, hs⟩
    refine ⟨@run_booked h Kept (fun _ hk => hk.keyed) (fun _ _ => False) (fun _ _ hf => hf.elim) [] s
      (.nil ⟨hk, hs⟩), ?_⟩
    rw [hs]
    exact ⟨⟨load_bound hk.owned false false [], by simp, List.Pairwise.nil⟩, by simp [Followed, House.load]⟩
  · rintro s i ⟨hb, hc, hf⟩ ⟨hd, ht⟩
    exact ⟨step_booked hb hd, step_cast hc hd, step_followed hb hc hf ht⟩

/-- As long as every session is written in time, a session without a davet has a revocation in
flight that will drop it; and a step that is not in time breaks that. -/
theorem sessions_follow_davets (h : Digests) {tr : List (HouseInput × Unit)} {s : Site}
    (r : Sys.Run (house h Kept) (fun s i => Drawn s i ∧ Timely s i) tr s) :
    (∀ e ∈ s.shared.sessions, ∀ room member, e.2.member = some member → e.2.loca = some room →
      (∀ t ∈ s.tasks, t.drops room member = false) →
      ∃ i ∈ s.shared.invites, i.room = room ∧ i.member = member) ∧
    ∀ i, Drawn s i → (Followed (Site.step h s i) ↔ Timely s i) := by
  obtain ⟨hb, hc, hf⟩ := run_followed r
  constructor
  · intro e he room member hm hl hquiet
    rcases standing_iff.mp (hf e he room member hm hl) with hdavet | ⟨t, ht, hd⟩
    · exact hdavet
    · rw [hquiet t ht] at hd
      cases hd
  · intro i _
    exact ⟨timely_of_followed hc, step_followed hb hc hf⟩

/-- One member with a davet for one room. -/
def seatedRegistry : Registry :=
  { addMember plainDigests ⟨"mb_1", "ada", "agent", 1, "master"⟩ {} with
    invites := [⟨⟨"iv_1", "salon", "mb_1", "ada", "agent", 2, "master"⟩, none⟩] }

def seatedSite : Site := ⟨House.load false false seatedRegistry, []⟩

theorem seatedRegistry_kept : Kept seatedRegistry :=
  ⟨by decide, by decide, by decide⟩

/-- One step of the task at `k`, with this token drawn. -/
def visitStep (k : Nat) (token : String) : HouseInput := .advance k ⟨calmStore 5, false, false, token⟩

/-- A session is taken while the davet is in force; then the davet is revoked, up to the last step. -/
def sampleVisit : List HouseInput :=
  [.call (.createSession "iv_1"), visitStep 0 "st_1", visitStep 0 "st_1", visitStep 0 "st_1",
    visitStep 0 "st_1", visitStep 0 "st_1", visitStep 0 "st_1", visitStep 0 "st_1",
    .call (.revokeInvite "iv_1"), visitStep 0 "st_1", visitStep 0 "st_1", visitStep 0 "st_1"]

def sampleVisited : Site := ((house plainDigests Kept).exec sampleVisit [] seatedSite).2

theorem sessions_follow_davets_sample :
    sampleVisited.shared.sessions.length = 1 ∧ sampleVisited.shared.invites = [] ∧
    Followed (Site.step plainDigests sampleVisited (visitStep 0 "st_1")) := by
  refine ⟨by decide +kernel, by decide +kernel, ?_⟩
  have hrun : Sys.Run (house plainDigests Kept) (fun s i => Drawn s i ∧ Timely s i)
      ((house plainDigests Kept).exec sampleVisit [] seatedSite).1 sampleVisited :=
    .exec sampleVisit (by decide +kernel) (.nil ⟨seatedRegistry_kept, rfl⟩)
  exact ((sessions_follow_davets plainDigests hrun).2 _ (by decide +kernel)).mpr (by decide +kernel)

/-- The davet is looked up, then revoked from the first step to the last, and then the session is
written. -/
def sampleLate : List HouseInput :=
  [.call (.createSession "iv_1"), .call (.revokeInvite "iv_1"), visitStep 0 "st_1", visitStep 1 "st_1",
    visitStep 1 "st_1", visitStep 1 "st_1", visitStep 1 "st_1", visitStep 0 "st_1",
    visitStep 0 "st_1", visitStep 0 "st_1", visitStep 0 "st_1", visitStep 0 "st_1",
    visitStep 0 "st_1"]

def sampleOutlived : Site := ((house plainDigests Kept).exec sampleLate [] seatedSite).2

/-- Nothing is in flight, there is no davet, and there is a session for it. -/
theorem session_after_revocation :
    ¬ ∀ (h : Digests) (tr : List (HouseInput × Unit)) (s : Site), Sys.Run (house h Kept) Drawn tr s →
      s.tasks = [] → ∀ e ∈ s.shared.sessions, ∀ room member, e.2.member = some member →
        e.2.loca = some room → s.shared.hasActiveInvite room member = true := by
  intro hall
  have hrun : Sys.Run (house plainDigests Kept) Drawn
      ((house plainDigests Kept).exec sampleLate [] seatedSite).1 sampleOutlived :=
    .exec sampleLate (by decide +kernel) (.nil ⟨seatedRegistry_kept, rfl⟩)
  have hlive := hall plainDigests _ sampleOutlived hrun (by decide +kernel)
    ("st_1", ⟨some "pr_member:mb_1", .member, "ada", .agent, some "salon", some "mb_1", false, 0⟩)
    (by decide +kernel) "salon" "mb_1" rfl rfl
  revert hlive
  decide +kernel

end Loca.Building
