/-
# `Loca.Building.Seats` — at most seven davets a room, at most one a member

`invite_member_to_room` asks for a double davet, counts the room's davets, and only then takes the
lock under which the davet is written.  Two such calls for one room can both pass the two questions
before either writes (`two_invites_overfill`).  `Orderly` is the condition that invitations to the
room do not overlap, with revocations, kicks, releases, bans and lost memberships in any order
around them, and that a start can read the davets.

`Seated` is the invariant: a davet in force in the store is in the hub too, or is about to be, and a
call that is past a question knows its answer as long as no other call invites to the room.
-/
import Mathlib.Data.List.Perm.Subperm
import Loca.Building.Davets

namespace Loca.Building

open Table

/-! ## The invariant -/

/-- Is this task inviting somebody to the room? -/
def Task.invitesTo (room : String) : Task → Bool
  | .inviteCheck _ r _ => r = room
  | .inviteMember _ r _ => r = room
  | .inviteDup _ r _ => r = room
  | .inviteCount _ r _ => r = room
  | .inviteAdd _ r _ => r = room
  | .inviteStore inv => inv.room = room
  | .inviteMirror inv => inv.room = room
  | _ => false

/-- The member has no davet for the room. -/
def Vacant (room member : String) (s : House) : Prop :=
  ∀ i ∈ s.invites, i.room = room → i.member ≠ member

/-- The room has a seat left, and the member none. -/
def Room (room member : String) (s : House) : Prop :=
  Vacant room member s ∧ s.seats room < locaKapasite

structure SeatBook (room : String) (s : House) (tasks : List Task) : Prop where
  bounded : s.seats room ≤ locaKapasite
  single : ∀ i ∈ s.invites, ∀ j ∈ s.invites, i.room = room → j.room = room → i.member = j.member → i = j
  covered : ∀ row ∈ s.db.invites, row.revokedAt = none → row.invite.room = room →
    row.invite ∈ s.invites ∨ Task.inviteMirror row.invite ∈ tasks

/-- What a task has found out about the room. -/
def SeatFact (room : String) (s : House) : Task → Prop
  | .inviteCount x r _ => r = room → Vacant room x.token s
  | .inviteAdd x r _ => r = room → Room room x.token s
  | .inviteStore inv => inv.room = room → Room room inv.member s
  | .inviteMirror inv => inv.room = room → Room room inv.member s
  | _ => True

def SeatApart (room : String) (t u : Task) : Prop :=
  t.invitesTo room = true → u.invitesTo room = true → False

theorem SeatApart.symm {room : String} (t u : Task) (h : SeatApart room t u) : SeatApart room u t :=
  fun hu ht => h ht hu

abbrev Seated (room : String) (c : Site) : Prop :=
  Sys.Crew.Holds (SeatBook room) (SeatFact room) (SeatApart room) c

section Step

variable {h : Digests} {m : Moment} {room : String} {s s' : House} {t u : Task} {l l₁ l₂ : List Task}

theorem seats_mono {s s' : House} (hsub : s'.invites.Sublist s.invites) : s'.seats room ≤ s.seats room :=
  hsub.countP_le

theorem Vacant.mono {member : String} (hv : Vacant room member s)
    (hback : ∀ i ∈ s'.invites, i.room = room → i ∈ s.invites) : Vacant room member s' :=
  fun i hi hr => hv i (hback i hi hr) hr

/-- Unless a davet for this room is being seated, the hub has no more of them than before. -/
theorem DavetStep.seats_le (hs : DavetStep t s s') (hf : BookFact s t)
    (hnot : ∀ inv, t = .inviteMirror inv → inv.room ≠ room) :
    s'.seats room ≤ s.seats room ∧ ∀ i ∈ s'.invites, i.room = room → i ∈ s.invites := by
  refine ⟨?_, ?_⟩
  · cases hs with
    | quiet _ hm => rw [House.seats, hm]; exact le_refl _
    | ended _ _ _ _ hm => rw [House.seats, hm]; exact le_refl _
    | stored _ _ _ hm => rw [House.seats, hm]; exact le_refl _
    | removed davets _ _ hm =>
        refine seats_mono ?_
        rw [hm]
        exact List.filter_sublist
    | seated inv ht _ hm =>
        subst ht
        have hr : inv.room ≠ room := hnot inv rfl
        rw [House.seats, hm, seated_eq hf.2, List.countP_append]
        simp [hr, House.seats]
  · intro i hi hr
    rcases hs.mem_back hi with hi | ht
    · exact hi
    · exact absurd hr (hnot i ht)

theorem Room.mono {member : String} (hr : Room room member s) (hle : s'.seats room ≤ s.seats room)
    (hback : ∀ i ∈ s'.invites, i.room = room → i ∈ s.invites) : Room room member s' :=
  ⟨hr.1.mono hback, lt_of_le_of_lt hle hr.2⟩

theorem takes_ended {davets : List Invite} (ht : t.takes = some davets) (hf : BookFact s t) :
    ∀ d ∈ davets, Ended s.db d := by
  cases t with
  | uninviteRemove inv =>
      cases ht
      intro d hd
      rw [List.mem_singleton.mp hd]
      exact hf
  | unseatRemove d => cases ht; exact hf
  | revokeRemove token d => cases ht; exact hf
  | suspendRemove token d => cases ht; exact hf
  | _ => cases ht

/-- A davet is stored and its task goes on to seat it, or nothing is written. -/
theorem run_inviteStore (h : Digests) (m : Moment) (s : House) (inv : Invite) :
    House.run h m s (.inviteStore inv) = (s, none) ∨
      ∃ db, House.run h m s (.inviteStore inv) = ({ s with db := db }, some (.inviteMirror inv)) := by
  simp only [House.run]
  split
  · exact .inl rfl
  · split
    · exact .inl rfl
    · exact .inr ⟨_, rfl⟩

/-- A davet in force in the store stays with the hub. -/
theorem covered_next {c : Site} (hb : Booked c) (hc : Seated room c) (htasks : c.tasks = l₁ ++ t :: l₂) :
    ∀ row ∈ (House.run h m c.shared t).1.db.invites, row.revokedAt = none → row.invite.room = room →
      row.invite ∈ (House.run h m c.shared t).1.invites ∨
        Task.inviteMirror row.invite ∈ l₁ ++ (House.run h m c.shared t).2.toList ++ l₂ := by
  have hf := hb.facts t (by rw [htasks]; simp)
  -- where a davet that was covered is now
  have hold : ∀ r ∈ c.shared.db.invites, r.revokedAt = none → r.invite.room = room →
      (∀ davets, t.takes = some davets → ∀ d ∈ davets, d.token ≠ r.invite.token) →
      r.invite ∈ (House.run h m c.shared t).1.invites ∨
        Task.inviteMirror r.invite ∈ l₁ ++ (House.run h m c.shared t).2.toList ++ l₂ := by
    intro r hr hlive hroom hkeep
    rcases hc.shared.covered r hr hlive hroom with hmem | hmirror
    · left
      cases run_davets h m c.shared t with
      | quiet _ hm => rw [hm]; exact hmem
      | ended _ _ _ _ hm => rw [hm]; exact hmem
      | stored _ _ _ hm => rw [hm]; exact hmem
      | removed davets ht _ hm =>
          rw [hm]
          exact mem_removeDavets.mpr ⟨hmem, hkeep davets ht⟩
      | seated inv ht _ hm =>
          subst ht
          rw [hm, seated_eq hf.2]
          exact List.mem_append_left _ hmem
    · rw [htasks] at hmirror
      simp only [List.mem_append, List.mem_cons] at hmirror ⊢
      rcases hmirror with hmem | rfl | hmem
      · exact .inr (.inl (.inl hmem))
      · exact .inl (mem_upsert.mpr (.inr rfl))
      · exact .inr (.inr hmem)
  intro row hrow hlive hroom
  have hgone : ∀ r ∈ c.shared.db.invites, r.revokedAt = none →
      ∀ davets, t.takes = some davets → ∀ d ∈ davets, d.token ≠ r.invite.token := by
    intro r hr hl davets ht d hd he
    have := (takes_ended ht hf d hd).2 r hr he.symm
    rw [hl] at this
    cases this
  rcases ((run_davets h m c.shared t).follow hf).back row hrow with ⟨r, hr, hri, hrev⟩ | hnew
  · have hl : r.revokedAt = none := by
      by_contra hne
      have := hrev (Option.isSome_iff_ne_none.mpr hne)
      rw [hlive] at this
      cases this
    have := hold r hr hl (by rw [hri]; exact hroom) (hgone r hr hl)
    rwa [hri] at this
  · -- a new row: the task has just stored it
    have hdb := hrow
    cases run_davets h m c.shared t with
    | quiet hd _ => exact absurd rfl (hnew row (hd ▸ hdb))
    | removed _ _ hd _ => exact absurd rfl (hnew row (hd ▸ hdb))
    | seated _ _ hd _ => exact absurd rfl (hnew row (hd ▸ hdb))
    | ended p now _ hd _ =>
        rw [hd] at hdb
        obtain ⟨r, hr, hri, -⟩ := mem_revokeDavets hdb
        exact absurd (by rw [hri]) (hnew r hr)
    | stored inv ht hd _ =>
        subst ht
        rw [hd, stored_eq hf] at hdb
        rcases List.mem_append.mp hdb with hdb | hdb
        · exact absurd rfl (hnew row hdb)
        · obtain rfl := List.mem_singleton.mp hdb
          rcases run_inviteStore h m c.shared inv with hrun | ⟨db, hrun⟩
          · rw [hrun] at hrow
            exact absurd rfl (hf _ hrow)
          · right
            rw [hrun]
            simp

theorem SeatBook.next {c : Site} (hb : Booked c) (hc : Seated room c) (htasks : c.tasks = l₁ ++ t :: l₂) :
    SeatBook room (House.run h m c.shared t).1 (l₁ ++ (House.run h m c.shared t).2.toList ++ l₂) := by
  have ht : t ∈ c.tasks := by rw [htasks]; simp
  have hf := hb.facts t ht
  have hs := run_davets h m c.shared t
  by_cases hseat : ∃ inv, t = .inviteMirror inv ∧ inv.room = room
  · obtain ⟨inv, rfl, hr⟩ := hseat
    obtain ⟨hvac, hlt⟩ : Room room inv.member c.shared := hc.facts _ ht hr
    have hm : (House.run h m c.shared (.inviteMirror inv)).1.invites = c.shared.invites ++ [inv] :=
      seated_eq hf.2
    refine ⟨?_, ?_, covered_next hb hc htasks⟩
    · rw [House.seats, hm, List.countP_append]
      have : c.shared.seats room < locaKapasite := hlt
      simp only [House.seats] at this
      simp [hr]
      omega
    · intro i hi j hj hir hjr hij
      rw [hm] at hi hj
      simp only [List.mem_append, List.mem_singleton] at hi hj
      rcases hi with hi | rfl
      · rcases hj with hj | rfl
        · exact hc.shared.single i hi j hj hir hjr hij
        · exact absurd hij (hvac i hi hir)
      · rcases hj with hj | rfl
        · exact absurd hij.symm (hvac j hj hjr)
        · rfl
  · have hnot : ∀ inv, t = .inviteMirror inv → inv.room ≠ room :=
      fun inv he hr => hseat ⟨inv, he, hr⟩
    obtain ⟨hle, hback⟩ := hs.seats_le hf hnot
    refine ⟨le_trans hle hc.shared.bounded, ?_, covered_next hb hc htasks⟩
    intro i hi j hj hir hjr hij
    exact hc.shared.single i (hback i hi hir) j (hback j hj hjr) hir hjr hij

/-- What another task knows of the room is not spoiled by one that does not invite to it. -/
theorem SeatFact.stable (hs : DavetStep t s s') (hf : BookFact s t) (hx : SeatApart room t u)
    (hu : SeatFact room s u) : SeatFact room s' u := by
  have hroom : u.invitesTo room = true → s'.seats room ≤ s.seats room ∧
      ∀ i ∈ s'.invites, i.room = room → i ∈ s.invites := by
    intro hur
    refine hs.seats_le hf fun inv ht hr => hx ?_ hur
    rw [ht]
    simpa [Task.invitesTo] using hr
  cases u with
  | inviteCount x r by_ =>
      intro hr
      exact (hu hr).mono (hroom (by simpa [Task.invitesTo] using hr)).2
  | inviteAdd x r by_ =>
      intro hr
      obtain ⟨h₁, h₂⟩ := hroom (by simpa [Task.invitesTo] using hr)
      exact (hu hr).mono h₁ h₂
  | inviteStore inv =>
      intro hr
      obtain ⟨h₁, h₂⟩ := hroom (by simpa [Task.invitesTo] using hr)
      exact (hu hr).mono h₁ h₂
  | inviteMirror inv =>
      intro hr
      obtain ⟨h₁, h₂⟩ := hroom (by simpa [Task.invitesTo] using hr)
      exact (hu hr).mono h₁ h₂
  | _ => trivial

/-- An invitation stays with its room. -/
theorem next_invitesTo {t' : Task} (hr : House.run h m s t = (s', some t'))
    (hi : t'.invitesTo room = true) : t.invitesTo room = true := by
  cases t with
  | revokeSeats token davets => cases davets <;> cases hr <;> cases hi
  | unseatSessions davets =>
      cases davets <;> cases hr
      cases hi
  | suspendCheck reference suspended reason =>
      simp only [House.run] at hr
      split at hr
      · cases hr
      · cases hr
        cases suspended <;> cases hi
  | _ =>
      simp only [House.run] at hr
      (repeat' split at hr) <;> cases hr <;> exact hi

theorem next_seatFact {t' : Task} (hu : SeatFact room s t) (hr : House.run h m s t = (s', some t')) :
    SeatFact room s' t' := by
  cases t with
  | inviteDup x r by_ =>
      simp only [House.run] at hr
      split at hr
      · cases hr
      · next hno =>
          cases hr
          intro hroom i hi hir hm
          refine hno (List.any_eq_true.mpr ⟨i, hi, ?_⟩)
          simp [hir, hroom, hm]
  | inviteCount x r by_ =>
      simp only [House.run] at hr
      split at hr
      · cases hr
      · next hfull =>
          cases hr
          intro hroom
          refine ⟨hu hroom, ?_⟩
          rw [← hroom]
          exact not_le.mp hfull
  | inviteAdd x r by_ =>
      simp only [House.run] at hr
      split at hr
      · cases hr
      · cases hr
        exact hu
  | inviteStore inv =>
      rcases run_inviteStore h m s inv with hrun | ⟨db, hrun⟩
      · rw [hrun] at hr
        cases hr
      · rw [hrun] at hr
        cases hr
        exact hu
  | revokeSeats token davets => cases davets <;> cases hr <;> trivial
  | unseatSessions davets =>
      cases davets <;> cases hr
      trivial
  | suspendCheck reference suspended reason =>
      simp only [House.run] at hr
      split at hr
      · cases hr
      · cases hr
        cases suspended <;> trivial
  | _ =>
      simp only [House.run] at hr
      (repeat' split at hr) <;> cases hr <;> trivial

theorem Seated.next {c : Site} (hb : Booked c) (hc : Seated room c) (htasks : c.tasks = l₁ ++ t :: l₂) :
    Seated room ⟨(House.run h m c.shared t).1, l₁ ++ (House.run h m c.shared t).2.toList ++ l₂⟩ := by
  have ht : t ∈ c.tasks := by rw [htasks]; simp
  have hf := hb.facts t ht
  have hs := run_davets h m c.shared t
  refine Sys.Crew.Holds.next SeatApart.symm hc htasks (SeatBook.next hb hc htasks) ?_ ?_
  · intro u _ hx hu
    exact SeatFact.stable hs hf hx hu
  · intro t' hnext
    have hr : House.run h m c.shared t = ((House.run h m c.shared t).1, some t') := Prod.ext rfl hnext
    refine ⟨next_seatFact (hc.facts t ht) hr, fun u _ hx hi hu => ?_⟩
    exact hx (next_invitesTo hr hi) hu

end Step

/-! ## Restarts -/

/-- What the store holds in force for the room. -/
def liveSeats (room : String) (db : Registry) : List Invite := (loadInvites db).filter fun i => i.room = room

/-- The store's davets of the room in force: seven at most, one a member. -/
structure Within (room : String) (db : Registry) : Prop where
  keyed : Keyed db
  bounded : (liveSeats room db).length ≤ locaKapasite
  single : ∀ i ∈ liveSeats room db, ∀ j ∈ liveSeats room db, i.member = j.member → i = j

theorem mem_liveSeats {room : String} {db : Registry} {i : Invite} :
    i ∈ liveSeats room db ↔ (∃ row ∈ db.invites, row.revokedAt = none ∧ row.invite = i) ∧ i.room = room := by
  simp [liveSeats, mem_loadInvites]

theorem liveSeats_nodup {room : String} {db : Registry} (hk : Keyed db) : (liveSeats room db).Nodup :=
  (List.Nodup.of_map _ (loadInvites_tokens hk)).sublist List.filter_sublist

/-- Every davet in force is in the hub or about to be, so the store is within bounds as well. -/
theorem Seated.within {room : String} {c : Site} (hb : Booked c) (hc : Seated room c) :
    Within room c.shared.db := by
  have hwhere : ∀ i ∈ liveSeats room c.shared.db, i ∈ c.shared.invites ∨ Task.inviteMirror i ∈ c.tasks := by
    intro i hi
    obtain ⟨⟨row, hrow, hlive, rfl⟩, hr⟩ := mem_liveSeats.mp hi
    exact hc.shared.covered row hrow hlive hr
  have hroom : ∀ i ∈ liveSeats room c.shared.db, i.room = room := fun i hi => (mem_liveSeats.mp hi).2
  -- only one task is inside the guarded section
  have hone : ∀ i j, Task.inviteMirror i ∈ c.tasks → Task.inviteMirror j ∈ c.tasks → i = j := by
    intro i j hi hj
    by_contra hne
    exact hb.apart.forall hi hj (fun e => hne (Task.inviteMirror.inj e)) rfl rfl
  have hknow : ∀ i, Task.inviteMirror i ∈ c.tasks → i.room = room → Room room i.member c.shared :=
    fun i hi hr => hc.facts _ hi hr
  refine ⟨hb.shared.keyed, ?_, ?_⟩
  · have hlen : (c.shared.invites.filter fun i => i.room = room).length = c.shared.seats room :=
      (List.countP_eq_length_filter ..).symm
    by_cases hpend : ∃ inv, Task.inviteMirror inv ∈ c.tasks ∧ inv.room = room
    · obtain ⟨inv, hinv, hr⟩ := hpend
      have hsub : liveSeats room c.shared.db ⊆ inv :: c.shared.invites.filter fun i => i.room = room := by
        intro i hi
        rcases hwhere i hi with hmem | hmirror
        · exact List.mem_cons_of_mem _ (List.mem_filter.mpr ⟨hmem, by simpa using hroom i hi⟩)
        · rw [hone i inv hmirror hinv]
          exact List.mem_cons_self
      have hle := (List.subperm_of_subset (liveSeats_nodup hb.shared.keyed) hsub).length_le
      have hlt := (hknow inv hinv hr).2
      rw [List.length_cons, hlen] at hle
      omega
    · have hsub : liveSeats room c.shared.db ⊆ c.shared.invites.filter fun i => i.room = room := by
        intro i hi
        rcases hwhere i hi with hmem | hmirror
        · exact List.mem_filter.mpr ⟨hmem, by simpa using hroom i hi⟩
        · exact absurd ⟨i, hmirror, hroom i hi⟩ hpend
      have hle := (List.subperm_of_subset (liveSeats_nodup hb.shared.keyed) hsub).length_le
      rw [hlen] at hle
      exact le_trans hle hc.shared.bounded
  · intro i hi j hj hij
    rcases hwhere i hi with hmi | hpi
    · rcases hwhere j hj with hmj | hpj
      · exact hc.shared.single i hmi j hmj (hroom i hi) (hroom j hj) hij
      · exact absurd hij ((hknow j hpj (hroom j hj)).1 i hmi (hroom i hi))
    · rcases hwhere j hj with hmj | hpj
      · exact absurd hij.symm ((hknow i hpi (hroom i hi)).1 j hmj (hroom j hj))
      · exact hone i j hpi hpj

/-- A start on a store within bounds. -/
theorem restart_seated {room : String} {db : Registry} (hw : Within room db) (membersLost : Bool)
    (stale : Invite → Bool) (now : Nat) :
    Seated room ⟨(House.load membersLost false db).clean stale now, []⟩ := by
  have hmem : ∀ i ∈ ((House.load membersLost false db).clean stale now).invites, i.room = room →
      i ∈ liveSeats room db := by
    intro i hi hr
    have := (mem_removeDavets.mp hi).1
    exact List.mem_filter.mpr ⟨this, by simpa using hr⟩
  refine ⟨⟨?_, ?_, ?_⟩, by simp, List.Pairwise.nil⟩
  · have hsub : ((House.load membersLost false db).clean stale now).invites.Sublist (loadInvites db) :=
      List.filter_sublist
    refine le_trans hsub.countP_le ?_
    rw [List.countP_eq_length_filter]
    exact hw.bounded
  · intro i hi j hj hir hjr hij
    exact hw.single i (hmem i hi hir) j (hmem j hj hjr) hij
  · intro row hrow hlive hr
    obtain ⟨r, hrm, hri, hrev, hgone⟩ := mem_revokeDavets hrow
    have hl : r.revokedAt = none := by
      by_contra hne
      have := hrev (Option.isSome_iff_ne_none.mpr hne)
      rw [hlive] at this
      cases this
    left
    refine mem_removeDavets.mpr ⟨mem_loadInvites.mpr ⟨r, hrm, hl, hri⟩, fun d hd he => ?_⟩
    have := hgone (List.any_eq_true.mpr ⟨d, hd, by simpa using he⟩)
    rw [hlive] at this
    cases this

/-! ## The law -/

/-- Invitations to the room do not overlap, and a start can read the davets. -/
def Orderly (room : String) (s : Site) : HouseInput → Prop
  | .call c => c.task.invitesTo room = true → ∀ u ∈ s.tasks, u.invitesTo room = false
  | .restart _ invitesLost _ _ => invitesLost = false
  | _ => True

instance (room : String) : ∀ (s : Site) (i : HouseInput), Decidable (Orderly room s i)
  | s, .call _ => inferInstanceAs (Decidable (_ = true → ∀ u ∈ s.tasks, _ = false))
  | _, .restart _ invitesLost _ _ => inferInstanceAs (Decidable (invitesLost = false))
  | _, .advance _ _ => inferInstanceAs (Decidable True)
  | _, .desk _ => inferInstanceAs (Decidable True)

theorem Call.task_seatFact (c : Call) (room : String) (s : House) : SeatFact room s c.task := by
  cases c <;> trivial

theorem step_seated {h : Digests} {room : String} {s : Site} (hb : Booked s) (hc : Seated room s)
    {i : HouseInput} (hi : Orderly room s i) : Seated room (Site.step h s i) := by
  cases i with
  | call c =>
      refine hc.spawn ⟨hc.shared.bounded, hc.shared.single, ?_⟩ (c.task_seatFact _ _) ?_
      · intro row hrow hlive hr
        exact (hc.shared.covered row hrow hlive hr).imp_right (List.mem_append_left _)
      · intro u hu hur hcr
        rw [hi hcr u hu] at hur
        cases hur
  | advance k m =>
      simp only [Site.step]
      rcases Sys.Crew.advance_cases (program h) m k s with hsame | ⟨l₁, t, l₂, -, htasks, hfree, hadv⟩
      · rwa [hsame]
      · rw [hadv]
        exact Seated.next hb hc htasks
  | desk i =>
      simp only [Site.step]
      split
      · next hr =>
          obtain ⟨stock, requests, hdb⟩ := desk_routine h s.shared.db hr
          rw [hdb]
          refine hc.outside ⟨hc.shared.bounded, hc.shared.single, hc.shared.covered⟩ fun t ht => ?_
          cases t <;> exact ht
      · exact hc
  | restart membersLost invitesLost stale now =>
      obtain rfl : invitesLost = false := hi
      exact restart_seated (Seated.within hb hc) membersLost stale now

theorem run_seated {h : Digests} {room : String} {tr : List (HouseInput × Unit)} {s : Site}
    (r : Sys.Run (house h (Within room)) (fun s i => Drawn s i ∧ Orderly room s i) tr s) :
    Booked s ∧ Seated room s := by
  refine Sys.Run.invariant (I := fun s => Booked s ∧ Seated room s) ?_ ?_ r
  · rintro s ⟨hw, hs⟩
    have hb : Booked s := @run_booked h (Within room) (fun _ hw => hw.keyed) (fun _ _ => False)
      (fun _ _ hf => hf.elim) [] s (.nil ⟨hw, hs⟩)
    refine ⟨hb, ?_⟩
    rw [hs]
    refine ⟨⟨?_, ?_, ?_⟩, by simp, List.Pairwise.nil⟩
    · rw [House.seats, List.countP_eq_length_filter]
      exact hw.bounded
    · intro i hi j hj hir hjr hij
      exact hw.single i (List.mem_filter.mpr ⟨hi, by simpa using hir⟩) j
        (List.mem_filter.mpr ⟨hj, by simpa using hjr⟩) hij
    · intro row hrow hlive _
      exact .inl (mem_loadInvites.mpr ⟨row, hrow, hlive, rfl⟩)
  · rintro s i ⟨hb, hc⟩ ⟨hd, ho⟩
    exact ⟨step_booked hb hd, step_seated hb hc ho⟩

/-- Seven davets at most and one a member, in the hub and in the store. -/
theorem seats_bounded (h : Digests) (room : String) {tr : List (HouseInput × Unit)} {s : Site}
    (r : Sys.Run (house h (Within room)) (fun s i => Drawn s i ∧ Orderly room s i) tr s) :
    s.shared.seats room ≤ locaKapasite ∧
    (∀ i ∈ s.shared.invites, ∀ j ∈ s.shared.invites, i.room = room → j.room = room →
      i.member = j.member → i = j) ∧
    Within room s.shared.db := by
  obtain ⟨hb, hc⟩ := run_seated r
  exact ⟨hc.shared.bounded, hc.shared.single, Seated.within hb hc⟩

/-- One member, no davet. -/
def sampleRegistry : Registry :=
  { members := [⟨⟨"mb_1", "ada", "agent", 1, "master"⟩, none⟩] }

def sampleSite : Site := ⟨House.load false false sampleRegistry, []⟩

/-- One step of the task at `k`, with this token drawn. -/
def sampleStep (k : Nat) (token : String) : HouseInput :=
  .advance k ⟨calmStore 5, false, false, token⟩

theorem sampleRegistry_within : Within "salon" sampleRegistry :=
  ⟨by decide, by decide, by decide⟩

/-- An invitation, and a second one for the same member after it. -/
def sampleInvited : List HouseInput :=
  [.call (.inviteMemberToRoom "mb_1" "salon" "master"), sampleStep 0 "iv_1", sampleStep 0 "iv_1",
    sampleStep 0 "iv_1", sampleStep 0 "iv_1", sampleStep 0 "iv_1", sampleStep 0 "iv_2",
    sampleStep 0 "iv_3", .call (.inviteMemberToRoom "mb_1" "salon" "master"), sampleStep 0 "iv_3",
    sampleStep 0 "iv_3", sampleStep 0 "iv_3"]

theorem seats_bounded_sample :
    ((house plainDigests (Within "salon")).exec sampleInvited [] sampleSite).2.shared.seats "salon" = 1 ∧
    ((house plainDigests (Within "salon")).exec sampleInvited [] sampleSite).2.shared.seats "salon" ≤
      locaKapasite :=
  ⟨by decide +kernel,
    (seats_bounded plainDigests "salon" (.exec sampleInvited (by decide +kernel)
      (.nil ⟨sampleRegistry_within, rfl⟩))).1⟩

/-- Two invitations of one member to one room, each past its questions before the other writes. -/
def sampleOverlapping : List HouseInput :=
  [.call (.inviteMemberToRoom "mb_1" "salon" "master"),
    .call (.inviteMemberToRoom "mb_1" "salon" "master"), sampleStep 0 "iv_1", sampleStep 0 "iv_1",
    sampleStep 0 "iv_1", sampleStep 0 "iv_1", sampleStep 1 "iv_1", sampleStep 1 "iv_1",
    sampleStep 1 "iv_1", sampleStep 1 "iv_1", sampleStep 0 "iv_1", sampleStep 0 "iv_2",
    sampleStep 0 "iv_2", sampleStep 0 "iv_2", sampleStep 0 "iv_3", sampleStep 0 "iv_3"]

def sampleDoubled : Site := ((house plainDigests (Within "salon")).exec sampleOverlapping [] sampleSite).2

/-- Both invitations are done and the member holds two davets for the room. -/
theorem two_invites_overfill :
    ¬ ∀ (h : Digests) (room : String) (tr : List (HouseInput × Unit)) (s : Site),
      Sys.Run (house h (Within room)) Drawn tr s →
        s.shared.seats room ≤ locaKapasite ∧
        ∀ i ∈ s.shared.invites, ∀ j ∈ s.shared.invites, i.room = room → j.room = room →
          i.member = j.member → i = j := by
  intro hall
  have hrun : Sys.Run (house plainDigests (Within "salon")) Drawn
      ((house plainDigests (Within "salon")).exec sampleOverlapping [] sampleSite).1 sampleDoubled :=
    .exec sampleOverlapping (by decide +kernel) (.nil ⟨sampleRegistry_within, rfl⟩)
  have hone := hall plainDigests "salon" _ sampleDoubled hrun
  revert hone
  decide +kernel

end Loca.Building
