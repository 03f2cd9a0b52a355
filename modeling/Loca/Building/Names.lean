/-
# `Loca.Building.Names` — live members have distinct names

`admit_member` asks the hub's map for the name, then writes the table, then the map.
`approve_join_request` asks the table and writes it in one transaction, then the map.
`revoke_member` ends the row first and forgets the member last.  Between the question and the
writes the other calls take their steps, so the name can be given twice
(`two_admissions_share_name`).

`Unhurried` is the condition on the steps that ask: no other call is between its question and its
last write with the same name.  A `Role` is what a task means to the names, and the proofs are about
roles: a task that has asked knows that the name is free, a task about to write the map knows that
the row is in force.
-/
import Loca.Building.Davets

namespace Loca.Building

open Table

/-! ## Roles -/

inductive Role
  /-- The name was asked for in the map, and is about to be stored. -/
  | admitting (name : String)
  /-- The row is stored, and about to be mirrored; `asked` when the map was asked. -/
  | entering (x : Membership) (asked : Bool)
  /-- The member is about to be revoked in the store. -/
  | revoking (token : String)
  /-- The member is revoked in the store, and about to be forgotten. -/
  | ending (token : String)
  deriving DecidableEq, Repr

def Task.role : Task → Option Role
  | .admitStore name _ _ => some (.admitting name)
  | .admitMirror x => some (.entering x true)
  | .approveMirror x => some (.entering x false)
  | .revokeStore token => some (.revoking token)
  | .revokeCollect token | .revokeRemove token _ | .revokeSeats token _ | .revokeSessions token
  | .revokeForget token => some (.ending token)
  | _ => none

/-- The name that is being given. -/
def Role.adds : Role → Option String
  | .admitting name => some name
  | .entering x _ => some x.name
  | _ => none

def Role.enters : Role → Option Membership
  | .entering x _ => some x
  | _ => none

def Role.revokes : Role → Option String
  | .revoking token => some token
  | .ending token => some token
  | _ => none

/-- What one step does to the members, and which role comes next. -/
inductive MemberStep (m : Moment) (s : House) (t : Task) : House × Option Task → Prop
  | quiet {s' : House} {next : Option Task} : t.role = none → next.bind Task.role = none →
      s'.db.members = s.db.members → s'.members = s.members → MemberStep m s t (s', next)
  | asked {t' : Task} (name kind by_ : String) : t = .admitCheck name kind by_ →
      t'.role = some (.admitting name) → (∀ x ∈ s.members, x.name ≠ name) → MemberStep m s t (s, some t')
  | admitted {s' : House} {t' : Task} (x : Membership) : t.role = some (.admitting x.name) →
      t'.role = some (.entering x true) → x.token = m.token →
      s'.db.members = upsert (fun r => r.membership.token) ⟨x, none⟩ s.db.members →
      s'.members = s.members → MemberStep m s t (s', some t')
  | approved {s' : House} {t' : Task} (x : Membership) (id by_ : String) (r : JoinRequestRow) :
      t = .approveStore id by_ → t'.role = some (.entering x false) → r ∈ s.db.joinRequests → r.id = id →
      x.name = r.name → x.token = m.token →
      (m.env.fails .checkName = false →
        ∀ row ∈ s.db.members, row.revokedAt = none → row.membership.name ≠ r.name) →
      s'.db.members = s.db.members ++ [⟨x, none⟩] → s'.members = s.members → MemberStep m s t (s', some t')
  | mirrored {s' : House} (x : Membership) (asked : Bool) : t.role = some (.entering x asked) →
      s'.db.members = s.db.members → s'.members = upsert Membership.token x s.members →
      MemberStep m s t (s', none)
  | found {t' : Task} (token : String) : t.role = none → t'.role = some (.revoking token) →
      (∃ x ∈ s.members, x.token = token) → MemberStep m s t (s, some t')
  | failed (token : String) : t.role = some (.revoking token) → MemberStep m s t (s, none)
  | gaveUp (name : String) : t.role = some (.admitting name) → MemberStep m s t (s, none)
  | revoked {s' : House} {t' : Task} (token : String) (now : Nat) : t.role = some (.revoking token) →
      t'.role = some (.ending token) →
      s'.db.members = updateWhere (fun r => r.membership.token = token && r.revokedAt.isNone)
        (fun r => { r with revokedAt := some now }) s.db.members →
      s'.members = s.members → MemberStep m s t (s', some t')
  | ending {s' : House} {t' : Task} (token : String) : t.role = some (.ending token) →
      t'.role = some (.ending token) → s'.db.members = s.db.members → s'.members = s.members →
      MemberStep m s t (s', some t')
  | forgot {s' : House} (token : String) : t.role = some (.ending token) →
      s'.db.members = s.db.members → s'.members = deleteWhere (fun x => x.token = token) s.members →
      MemberStep m s t (s', none)

theorem suspendMember_members {h : Digests} {token reason : String} {now : Nat} {db db' : Registry}
    (hs : suspendMember h token reason now db = some db') : db'.members = db.members := by
  obtain ⟨principal, -, rfl⟩ := Option.map_eq_some_iff.mp hs
  rfl

theorem resumeMember_members {h : Digests} {token : String} {db db' : Registry}
    (hs : resumeMember h token db = some db') : db'.members = db.members := by
  unfold resumeMember at hs
  split at hs
  · cases hs
    rfl
  · cases hs

theorem run_members (h : Digests) (m : Moment) (s : House) (t : Task) :
    MemberStep m s t (House.run h m s t) := by
  cases t with
  | admitCheck name kind by_ =>
      simp only [House.run]
      split
      · exact .quiet rfl rfl rfl rfl
      · next hno =>
          refine .asked name kind by_ rfl rfl fun x hx hn => hno ?_
          exact List.any_eq_true.mpr ⟨x, hx, by simpa using hn⟩
  | admitStore name kind by_ =>
      simp only [House.run]
      split
      · exact .gaveUp name rfl
      · exact .admitted ⟨m.token, name, kind, m.now, by_⟩ rfl rfl rfl rfl rfl
  | admitMirror x => exact .mirrored x true rfl rfl rfl
  | approveStore id by_ =>
      simp only [House.run, approveJoinRequestAtomic]
      cases ha : approveTx h m.env id m.token by_ s.db with
      | error e => cases e <;> exact .quiet rfl rfl rfl rfl
      | ok p =>
          obtain ⟨x, db⟩ := p
          obtain ⟨r, hr, hid, hname, htoken, -, hfree, hmembers⟩ := approveTx_members ha
          exact .approved x id by_ r rfl rfl hr hid hname htoken hfree hmembers rfl
  | approveMirror x => exact .mirrored x false rfl rfl rfl
  | revokeCheck token =>
      simp only [House.run]
      split
      · next hany => exact .found token rfl rfl (by simpa using hany)
      · exact .quiet rfl rfl rfl rfl
  | revokeStore token =>
      simp only [House.run]
      split
      · exact .failed token rfl
      · exact .revoked token m.now rfl rfl rfl rfl
  | revokeCollect token => exact .ending token rfl rfl rfl rfl
  | revokeRemove token davets => exact .ending token rfl rfl rfl rfl
  | revokeSeats token davets => cases davets <;> exact .ending token rfl rfl rfl rfl
  | revokeSessions token => exact .ending token rfl rfl rfl rfl
  | revokeForget token => exact .forgot token rfl rfl rfl
  | suspendCheck reference suspended reason =>
      simp only [House.run]
      split
      · exact .quiet rfl rfl rfl rfl
      · cases suspended <;> exact .quiet rfl rfl rfl rfl
  | suspendStore token reason =>
      simp only [House.run]
      split
      · exact .quiet rfl rfl rfl rfl
      · split
        · exact .quiet rfl rfl rfl rfl
        · next hs => exact .quiet rfl rfl (suspendMember_members hs) rfl
  | resumeStore token =>
      simp only [House.run]
      split
      · exact .quiet rfl rfl rfl rfl
      · split
        · exact .quiet rfl rfl rfl rfl
        · next hs => exact .quiet rfl rfl (resumeMember_members hs) rfl
  | inviteStore inv =>
      simp only [House.run]
      split
      · exact .quiet rfl rfl rfl rfl
      · split
        · exact .quiet rfl rfl rfl rfl
        · next hs =>
            rw [insertInvite_some hs]
            exact .quiet rfl rfl rfl rfl
  | unseatSessions davets => cases davets <;> exact .quiet rfl rfl rfl rfl
  | _ =>
      simp only [House.run]
      (repeat' split) <;> exact .quiet rfl rfl rfl rfl

/-! ## The invariant -/

/-- The member's row is in force. -/
def InForce (db : Registry) (x : Membership) : Prop := (⟨x, none⟩ : MemberRow) ∈ db.members

structure NameBook (s : House) (tasks : List Task) : Prop where
  keyed : (s.db.members.map fun r => r.membership.token).Nodup
  single : ∀ x y, InForce s.db x → InForce s.db y → x.name = y.name → x = y
  distinct : (s.members.map Membership.token).Nodup
  names : ∀ x ∈ s.members, ∀ y ∈ s.members, x.name = y.name → x = y
  recorded : ∀ x ∈ s.members, ∃ r ∈ s.db.members, r.membership = x
  covered : ∀ x, InForce s.db x → x ∈ s.members ∨ ∃ t ∈ tasks, t.role.bind Role.enters = some x
  stale : ∀ x ∈ s.members, InForce s.db x ∨ ∃ t ∈ tasks, t.role = some (.ending x.token)

/-- The token is of a member, in force or not. -/
def Known (db : Registry) (token : String) : Prop := ∃ r ∈ db.members, r.membership.token = token

/-- What a task in this role knows. -/
def RoleFact (s : House) : Role → Prop
  | .admitting name => (∀ x, InForce s.db x → x.name ≠ name) ∧ ∀ x ∈ s.members, x.name ≠ name
  | .entering x asked => InForce s.db x ∧ (∀ y ∈ s.members, y.token ≠ x.token) ∧
      (asked = true → ∀ y ∈ s.members, y.name ≠ x.name)
  | .revoking token => Known s.db token
  | .ending token => Known s.db token ∧ ∀ x, InForce s.db x → x.token ≠ token

def NameFact (s : House) (t : Task) : Prop := ∀ a, t.role = some a → RoleFact s a

/-- No name is being given twice, and nobody is revoked before they have entered. -/
structure Role.Apart (a b : Role) : Prop where
  names : ∀ name, a.adds = some name → b.adds ≠ some name
  enters : ∀ x, a.enters = some x → b.revokes ≠ some x.token
  revokes : ∀ x, b.enters = some x → a.revokes ≠ some x.token

def NameApart (t u : Task) : Prop := ∀ a b, t.role = some a → u.role = some b → a.Apart b

theorem NameApart.symm (t u : Task) (h : NameApart t u) : NameApart u t := by
  intro a b ha hb
  have hx := h b a hb ha
  exact ⟨fun name h₁ h₂ => hx.names name h₂ h₁, hx.revokes, hx.enters⟩

abbrev Named (c : Site) : Prop := Sys.Crew.Holds NameBook NameFact NameApart c

/-- A step that asks for a name, or mirrors one the map was not asked for. -/
def Task.unhurried (s : Site) (m : Moment) : Task → Prop
  | .admitCheck name _ _ => ∀ u ∈ s.tasks, u.role.bind Role.adds ≠ some name
  | .approveStore id _ => m.env.fails .checkName = false ∧
      ∀ r ∈ s.shared.db.joinRequests, r.id = id → ∀ u ∈ s.tasks, u.role ≠ some (.admitting r.name)
  | .approveMirror x => ∀ y ∈ s.shared.members, y.name = x.name →
      ∀ u ∈ s.tasks, u.role ≠ some (.ending y.token)
  | _ => True

instance (s : Site) (m : Moment) (t : Task) : Decidable (t.unhurried s m) := by
  cases t <;> dsimp only [Task.unhurried] <;> infer_instance

/-- The condition on an input. -/
def Unhurried (s : Site) : HouseInput → Prop
  | .advance k m => ∀ t ∈ s.tasks[k]?, t.unhurried s m
  | .restart membersLost _ _ _ => membersLost = false
  | _ => True

instance : ∀ (s : Site) (i : HouseInput), Decidable (Unhurried s i)
  | s, .advance k m => inferInstanceAs (Decidable (∀ t ∈ s.tasks[k]?, t.unhurried s m))
  | _, .restart membersLost _ _ _ => inferInstanceAs (Decidable (membersLost = false))
  | _, .call _ => inferInstanceAs (Decidable True)
  | _, .desk _ => inferInstanceAs (Decidable True)

section Names

variable {m : Moment} {s s' : House} {t u : Task} {a b : Role} {x : Membership} {l : List Task}

/-- A new member comes last. -/
theorem enrolled_eq {rows : List MemberRow} (hnew : ∀ row ∈ rows, row.membership.token ≠ x.token) :
    upsert (fun r => r.membership.token) (⟨x, none⟩ : MemberRow) rows = rows ++ [⟨x, none⟩] :=
  upsert_new hnew

theorem inForce_congr {db db' : Registry} (hd : db'.members = db.members) : InForce db' x ↔ InForce db x := by
  unfold InForce
  rw [hd]

theorem known_congr {db db' : Registry} {token : String} (hd : db'.members = db.members)
    (hk : Known db token) : Known db' token := by
  unfold Known
  rw [hd]
  exact hk

/-- The members are as they were, but for some the hub forgot. -/
theorem RoleFact.fewer (hd : s'.db.members = s.db.members) (hm : ∀ x ∈ s'.members, x ∈ s.members)
    (hf : RoleFact s a) : RoleFact s' a := by
  cases a with
  | admitting name =>
      exact ⟨fun x hx => hf.1 x ((inForce_congr hd).mp hx), fun x hx => hf.2 x (hm x hx)⟩
  | entering x asked =>
      exact ⟨(inForce_congr hd).mpr hf.1, fun y hy => hf.2.1 y (hm y hy), fun ha y hy => hf.2.2 ha y (hm y hy)⟩
  | revoking token => exact known_congr hd hf
  | ending token => exact ⟨known_congr hd hf.1, fun x hx => hf.2 x ((inForce_congr hd).mp hx)⟩

theorem RoleFact.congr (hd : s'.db.members = s.db.members) (hm : s'.members = s.members)
    (hf : RoleFact s a) : RoleFact s' a :=
  hf.fewer hd fun _ hx => hm ▸ hx

/-- A member is stored. -/
theorem RoleFact.enrolled (hd : s'.db.members = s.db.members ++ [⟨x, none⟩]) (hm : s'.members = s.members)
    (hnew : ∀ row ∈ s.db.members, row.membership.token ≠ x.token) (hother : a ≠ .admitting x.name)
    (hf : RoleFact s a) : RoleFact s' a := by
  have hback : ∀ y, InForce s'.db y → InForce s.db y ∨ y = x := by
    intro y hy
    have hy : (⟨y, none⟩ : MemberRow) ∈ s'.db.members := hy
    rw [hd] at hy
    rcases List.mem_append.mp hy with hy | hy
    · exact .inl hy
    · exact .inr (congrArg MemberRow.membership (List.mem_singleton.mp hy))
  have hknown : ∀ token, Known s.db token → Known s'.db token := by
    rintro token ⟨r, hr, ht⟩
    exact ⟨r, by rw [hd]; exact List.mem_append_left _ hr, ht⟩
  cases a with
  | admitting name =>
      refine ⟨fun y hy => ?_, fun y hy => hf.2 y (hm ▸ hy)⟩
      rcases hback y hy with hy | rfl
      · exact hf.1 y hy
      · exact fun hn => hother (by rw [hn])
  | entering y asked =>
      refine ⟨?_, fun z hz => hf.2.1 z (hm ▸ hz), fun ha z hz => hf.2.2 ha z (hm ▸ hz)⟩
      show _ ∈ s'.db.members
      rw [hd]
      exact List.mem_append_left _ hf.1
  | revoking token => exact hknown token hf
  | ending token =>
      refine ⟨hknown token hf.1, fun y hy => ?_⟩
      rcases hback y hy with hy | rfl
      · exact hf.2 y hy
      · obtain ⟨r, hr, ht⟩ := hf.1
        exact fun he => hnew r hr (ht.trans he.symm)

/-- A member enters the map. -/
theorem RoleFact.mirrored (hb : NameBook s l) (hd : s'.db.members = s.db.members)
    (hm : s'.members = upsert Membership.token x s.members) (hx : InForce s.db x)
    (hother : a.adds ≠ some x.name) (hf : RoleFact s a) : RoleFact s' a := by
  have hback : ∀ y ∈ s'.members, y ∈ s.members ∨ y = x := by
    intro y hy
    rw [hm] at hy
    exact (mem_upsert.mp hy).imp_left And.left
  cases a with
  | admitting name =>
      refine ⟨fun y hy => hf.1 y ((inForce_congr hd).mp hy), fun y hy => ?_⟩
      rcases hback y hy with hy | rfl
      · exact hf.2 y hy
      · exact fun hn => hother (by rw [hn]; rfl)
  | entering z asked =>
      refine ⟨(inForce_congr hd).mpr hf.1, fun y hy => ?_, fun ha y hy => ?_⟩
      · rcases hback y hy with hy | rfl
        · exact hf.2.1 y hy
        · -- two rows with one token are one row
          intro ht
          obtain ⟨rfl⟩ := eq_of_key hb.keyed hx hf.1 ht
          exact hother rfl
      · rcases hback y hy with hy | rfl
        · exact hf.2.2 ha y hy
        · exact fun hn => hother (by rw [hn]; rfl)
  | revoking token => exact known_congr hd hf
  | ending token => exact ⟨known_congr hd hf.1, fun y hy => hf.2 y ((inForce_congr hd).mp hy)⟩

/-- The rows in force after a member is revoked are the others that were. -/
theorem inForce_revoked {token : String} {now : Nat} {db db' : Registry}
    (hd : db'.members = updateWhere (fun r => r.membership.token = token && r.revokedAt.isNone)
      (fun r => { r with revokedAt := some now }) db.members) :
    InForce db' x ↔ InForce db x ∧ x.token ≠ token := by
  show _ ∈ db'.members ↔ _
  rw [hd, mem_updateWhere]
  constructor
  · rintro ⟨r, hr, he⟩
    split at he
    · cases he
    · next hn =>
        subst he
        exact ⟨hr, by simpa using hn⟩
  · rintro ⟨hr, hn⟩
    exact ⟨_, hr, by simp [hn]⟩

theorem known_revoked {token other : String} {now : Nat} {db db' : Registry}
    (hd : db'.members = updateWhere (fun r => r.membership.token = token && r.revokedAt.isNone)
      (fun r => { r with revokedAt := some now }) db.members) (hk : Known db other) : Known db' other := by
  obtain ⟨r, hr, ht⟩ := hk
  refine ⟨_, by rw [hd]; exact mem_updateWhere.mpr ⟨r, hr, rfl⟩, ?_⟩
  split <;> exact ht

/-- A member is revoked in the store. -/
theorem RoleFact.revoked {token : String} {now : Nat}
    (hd : s'.db.members = updateWhere (fun r => r.membership.token = token && r.revokedAt.isNone)
      (fun r => { r with revokedAt := some now }) s.db.members)
    (hm : s'.members = s.members) (hother : ∀ y, a.enters = some y → y.token ≠ token)
    (hf : RoleFact s a) : RoleFact s' a := by
  cases a with
  | admitting name =>
      exact ⟨fun y hy => hf.1 y ((inForce_revoked hd).mp hy).1, fun y hy => hf.2 y (hm ▸ hy)⟩
  | entering y asked =>
      exact ⟨(inForce_revoked hd).mpr ⟨hf.1, hother y rfl⟩, fun z hz => hf.2.1 z (hm ▸ hz),
        fun ha z hz => hf.2.2 ha z (hm ▸ hz)⟩
  | revoking other => exact known_revoked hd hf
  | ending other =>
      exact ⟨known_revoked hd hf.1, fun y hy => hf.2 y ((inForce_revoked hd).mp hy).1⟩

/-- A task beside the one that steps stays; the one that steps is looked at apart. -/
theorem exists_next {P : Task → Prop} {l₁ l₂ next : List Task} (hu : ∃ u ∈ l₁ ++ t :: l₂, P u) :
    (∃ u ∈ l₁ ++ next ++ l₂, P u) ∨ P t := by
  obtain ⟨u, hu, hp⟩ := hu
  simp only [List.mem_append, List.mem_cons] at hu
  rcases hu with hu | rfl | hu
  · exact .inl ⟨u, by simp [hu], hp⟩
  · exact .inr hp
  · exact .inl ⟨u, by simp [hu], hp⟩

section Book

variable {l₁ l₂ next : List Task} {t' : Task}

/-- The members are as they were. -/
theorem NameBook.same (hb : NameBook s (l₁ ++ t :: l₂)) (hd : s'.db.members = s.db.members)
    (hm : s'.members = s.members) (henter : t.role.bind Role.enters = none)
    (hend : ∀ token, t.role = some (.ending token) → ∃ u ∈ next, u.role = some (.ending token)) :
    NameBook s' (l₁ ++ next ++ l₂) := by
  have hf := fun x => @inForce_congr x _ _ hd
  refine ⟨by rw [hd]; exact hb.keyed, fun x y hx hy => hb.single x y ((hf x).mp hx) ((hf y).mp hy),
    by rw [hm]; exact hb.distinct, by rw [hm]; exact hb.names, by rw [hm, hd]; exact hb.recorded, ?_, ?_⟩
  · intro x hx
    rw [hm]
    rcases hb.covered x ((hf x).mp hx) with hmem | htask
    · exact .inl hmem
    · rcases exists_next htask with hu | ht
      · exact .inr hu
      · rw [henter] at ht
        cases ht
  · intro x hx
    rw [hm] at hx
    rw [hf]
    refine (hb.stale x hx).imp_right fun htask => ?_
    rcases exists_next htask with hu | ht
    · exact hu
    · obtain ⟨u, hu, hr⟩ := hend _ ht
      exact ⟨u, by simp [hu], hr⟩

/-- A member is stored, and its task goes on to mirror it. -/
theorem NameBook.enrolled (hb : NameBook s (l₁ ++ t :: l₂)) {asked : Bool}
    (hd : s'.db.members = s.db.members ++ [⟨x, none⟩]) (hm : s'.members = s.members)
    (hnew : ∀ row ∈ s.db.members, row.membership.token ≠ x.token)
    (hfree : ∀ y, InForce s.db y → y.name ≠ x.name) (henter : t.role.bind Role.enters = none)
    (hend : ∀ token, t.role ≠ some (.ending token)) (ht' : t'.role = some (.entering x asked)) :
    NameBook s' (l₁ ++ [t'] ++ l₂) := by
  have hf : ∀ y, InForce s'.db y ↔ InForce s.db y ∨ y = x := by
    intro y
    unfold InForce
    rw [hd]
    simp
  refine ⟨by rw [hd]; exact nodup_append_new hb.keyed hnew, ?_, by rw [hm]; exact hb.distinct,
    by rw [hm]; exact hb.names, ?_, ?_, ?_⟩
  · intro y z hy hz hn
    rcases (hf y).mp hy with hy | rfl
    · rcases (hf z).mp hz with hz | rfl
      · exact hb.single y z hy hz hn
      · exact absurd hn (hfree y hy)
    · rcases (hf z).mp hz with hz | rfl
      · exact absurd hn.symm (hfree z hz)
      · rfl
  · intro y hy
    obtain ⟨r, hr, he⟩ := hb.recorded y (hm ▸ hy)
    exact ⟨r, by rw [hd]; exact List.mem_append_left _ hr, he⟩
  · intro y hy
    rw [hm]
    rcases (hf y).mp hy with hy | rfl
    · rcases hb.covered y hy with hmem | htask
      · exact .inl hmem
      · rcases exists_next htask with hu | ht
        · exact .inr hu
        · rw [henter] at ht
          cases ht
    · exact .inr ⟨t', by simp, by rw [ht']; rfl⟩
  · intro y hy
    rw [hm] at hy
    rcases hb.stale y hy with hlive | htask
    · exact .inl ((hf y).mpr (.inl hlive))
    · rcases exists_next htask with hu | ht
      · exact .inr hu
      · exact absurd ht (hend _)

/-- A member enters the map. -/
theorem NameBook.mirrored (hb : NameBook s (l₁ ++ t :: l₂)) {asked : Bool}
    (hd : s'.db.members = s.db.members) (hm : s'.members = upsert Membership.token x s.members)
    (hx : InForce s.db x) (hnew : ∀ y ∈ s.members, y.token ≠ x.token)
    (hfree : ∀ y ∈ s.members, y.name ≠ x.name) (ht : t.role = some (.entering x asked)) :
    NameBook s' (l₁ ++ [] ++ l₂) := by
  have hf := fun y => @inForce_congr y _ _ hd
  have hmem : ∀ y, y ∈ s'.members ↔ y ∈ s.members ∨ y = x := by
    intro y
    rw [hm, mem_upsert]
    exact ⟨Or.imp_left And.left, Or.imp_left fun hy => ⟨hy, hnew y hy⟩⟩
  refine ⟨by rw [hd]; exact hb.keyed, fun y z hy hz => hb.single y z ((hf y).mp hy) ((hf z).mp hz),
    by rw [hm]; exact nodup_upsert hb.distinct, ?_, ?_, ?_, ?_⟩
  · intro y hy z hz hn
    rcases (hmem y).mp hy with hy | rfl
    · rcases (hmem z).mp hz with hz | rfl
      · exact hb.names y hy z hz hn
      · exact absurd hn (hfree y hy)
    · rcases (hmem z).mp hz with hz | rfl
      · exact absurd hn.symm (hfree z hz)
      · rfl
  · intro y hy
    rw [hd]
    rcases (hmem y).mp hy with hy | rfl
    · exact hb.recorded y hy
    · exact ⟨_, hx, rfl⟩
  · intro y hy
    rcases hb.covered y ((hf y).mp hy) with hmem' | htask
    · exact .inl ((hmem y).mpr (.inl hmem'))
    · rcases exists_next htask with hu | hr
      · exact .inr hu
      · rw [ht] at hr
        exact .inl ((hmem y).mpr (.inr (Option.some.inj hr).symm))
  · intro y hy
    rw [hf]
    rcases (hmem y).mp hy with hy | rfl
    · rcases hb.stale y hy with hlive | htask
      · exact .inl hlive
      · rcases exists_next htask with hu | hr
        · exact .inr hu
        · rw [ht] at hr
          cases hr
    · exact .inl hx

/-- A member is revoked in the store, and its task goes on to end it. -/
theorem NameBook.revoked (hb : NameBook s (l₁ ++ t :: l₂)) {token : String} {now : Nat}
    (hd : s'.db.members = updateWhere (fun r => r.membership.token = token && r.revokedAt.isNone)
      (fun r => { r with revokedAt := some now }) s.db.members)
    (hm : s'.members = s.members) (ht : t.role = some (.revoking token))
    (ht' : t'.role = some (.ending token)) : NameBook s' (l₁ ++ [t'] ++ l₂) := by
  have hf := fun y => @inForce_revoked y token now _ _ hd
  have hold : ∀ y, InForce s'.db y → InForce s.db y := fun y hy => ((hf y).mp hy).1
  refine ⟨?_, fun y z hy hz => hb.single y z (hold y hy) (hold z hz), by rw [hm]; exact hb.distinct,
    by rw [hm]; exact hb.names, ?_, ?_, ?_⟩
  · rw [hd, map_key_updateWhere]
    · exact hb.keyed
    · intro r
      rfl
  · intro y hy
    obtain ⟨r, hr, rfl⟩ := hb.recorded y (hm ▸ hy)
    refine ⟨_, by rw [hd]; exact mem_updateWhere.mpr ⟨r, hr, rfl⟩, ?_⟩
    split <;> rfl
  · intro y hy
    rw [hm]
    rcases hb.covered y (hold y hy) with hmem | htask
    · exact .inl hmem
    · rcases exists_next htask with hu | hr
      · exact .inr hu
      · rw [ht] at hr
        cases hr
  · intro y hy
    rw [hm] at hy
    rcases hb.stale y hy with hlive | htask
    · by_cases htok : y.token = token
      · exact .inr ⟨t', by simp, by rw [ht', htok]⟩
      · exact .inl ((hf y).mpr ⟨hlive, htok⟩)
    · rcases exists_next htask with hu | hr
      · exact .inr hu
      · rw [ht] at hr
        cases hr

/-- The hub forgets a member whose row has ended. -/
theorem NameBook.forgot (hb : NameBook s (l₁ ++ t :: l₂)) {token : String}
    (hd : s'.db.members = s.db.members) (hm : s'.members = deleteWhere (fun x => x.token = token) s.members)
    (hdead : ∀ y, InForce s.db y → y.token ≠ token) (ht : t.role = some (.ending token)) :
    NameBook s' (l₁ ++ [] ++ l₂) := by
  have hf := fun y => @inForce_congr y _ _ hd
  have hmem : ∀ y, y ∈ s'.members ↔ y ∈ s.members ∧ y.token ≠ token := by
    intro y
    rw [hm, mem_deleteWhere]
    simp
  refine ⟨by rw [hd]; exact hb.keyed, fun y z hy hz => hb.single y z ((hf y).mp hy) ((hf z).mp hz),
    by rw [hm]; exact nodup_deleteWhere hb.distinct, ?_, ?_, ?_, ?_⟩
  · intro y hy z hz
    exact hb.names y ((hmem y).mp hy).1 z ((hmem z).mp hz).1
  · intro y hy
    rw [hd]
    exact hb.recorded y ((hmem y).mp hy).1
  · intro y hy
    have hy := (hf y).mp hy
    rcases hb.covered y hy with hin | htask
    · exact .inl ((hmem y).mpr ⟨hin, hdead y hy⟩)
    · rcases exists_next htask with hu | hr
      · exact .inr hu
      · rw [ht] at hr
        cases hr
  · intro y hy
    rw [hf]
    obtain ⟨hin, hne⟩ := (hmem y).mp hy
    rcases hb.stale y hin with hlive | htask
    · exact .inl hlive
    · rcases exists_next htask with hu | hr
      · exact .inr hu
      · rw [ht] at hr
        cases hr
        exact absurd rfl hne

end Book

/-! ## A step -/

/-- Who enters with a new token is apart from everybody who gives another name. -/
theorem apart_entering {asked : Bool} (hnew : ∀ row ∈ s.db.members, row.membership.token ≠ x.token)
    (hf : RoleFact s b) (hnames : b.adds ≠ some x.name) : (Role.entering x asked).Apart b := by
  constructor
  · rintro _ ⟨rfl⟩
    exact hnames
  · rintro _ ⟨rfl⟩ hr
    have hk : Known s.db x.token := by
      cases b with
      | revoking token => cases hr; exact hf
      | ending token => cases hr; exact hf.1
      | _ => cases hr
    obtain ⟨r, hmem, he⟩ := hk
    exact hnew r hmem he
  · intro y _ he
    cases he

variable {h : Digests} {c : Site} {l₁ l₂ : List Task}

/-- The name was asked for, with nobody else about to give it. -/
theorem asked_fact (hb : NameBook s l) {name : String} (hno : ∀ x ∈ s.members, x.name ≠ name)
    (hcond : ∀ u ∈ l, u.role.bind Role.adds ≠ some name) : RoleFact s (.admitting name) := by
  refine ⟨fun x hx hn => ?_, hno⟩
  rcases hb.covered x hx with hmem | ⟨u, hu, he⟩
  · exact hno x hmem hn
  · refine hcond u hu ?_
    obtain ⟨a, ha, hx⟩ := Option.bind_eq_some_iff.mp he
    rw [ha]
    cases a with
    | entering y asked =>
        cases hx
        exact congrArg some hn
    | _ => cases hx

/-- The map has no member of the name of one who enters. -/
theorem entering_free {asked : Bool} (hb : NameBook s l) (hf : RoleFact s (.entering x asked))
    (hcond : asked = false → ∀ y ∈ s.members, y.name = x.name → ∀ u ∈ l, u.role ≠ some (.ending y.token)) :
    ∀ y ∈ s.members, y.name ≠ x.name := by
  intro y hy hn
  cases asked with
  | true => exact hf.2.2 rfl y hy hn
  | false =>
      rcases hb.stale y hy with hlive | ⟨u, hu, hr⟩
      · exact hf.2.1 y hy (by rw [hb.single y x hlive hf.1 hn])
      · exact hcond rfl y hy hn u hu hr

/-- A member is stored under a name that nobody else gives; its task goes on to mirror it. -/
theorem Named.enrols {s' : House} {t' : Task} {asked : Bool} (hc : Named c)
    (htasks : c.tasks = l₁ ++ t :: l₂) (hd : s'.db.members = c.shared.db.members ++ [⟨x, none⟩])
    (hm : s'.members = c.shared.members)
    (hnew : ∀ row ∈ c.shared.db.members, row.membership.token ≠ x.token)
    (hfree : ∀ y, InForce c.shared.db y → y.name ≠ x.name)
    (hmap : asked = true → ∀ y ∈ c.shared.members, y.name ≠ x.name)
    (henter : t.role.bind Role.enters = none) (hend : ∀ token, t.role ≠ some (.ending token))
    (hrole' : t'.role = some (.entering x asked))
    (hnobody : ∀ u ∈ l₁ ++ l₂, NameApart t u → ∀ b, u.role = some b → b.adds ≠ some x.name) :
    Named ⟨s', l₁ ++ [t'] ++ l₂⟩ := by
  have hb : NameBook c.shared (l₁ ++ t :: l₂) := htasks ▸ hc.shared
  show Named ⟨s', l₁ ++ (some t').toList ++ l₂⟩
  refine Sys.Crew.Holds.next NameApart.symm hc htasks
    (hb.enrolled hd hm hnew hfree henter hend hrole') ?_ ?_
  · intro u hu hx hfu a ha
    refine (hfu a ha).enrolled hd hm hnew ?_
    rintro rfl
    exact hnobody u hu hx _ ha rfl
  · rintro _ ⟨rfl⟩
    refine ⟨fun a ha => ?_, fun u hu hx a b ha hb' => ?_⟩
    · rw [hrole'] at ha
      cases ha
      refine ⟨by unfold InForce; rw [hd]; simp, fun y hy he => ?_, fun ha y hy => hmap ha y (hm ▸ hy)⟩
      obtain ⟨r, hr, rfl⟩ := hb.recorded y (hm ▸ hy)
      exact hnew r hr he
    · rw [hrole'] at ha
      cases ha
      have humem : u ∈ c.tasks := by
        rw [htasks]
        simp only [List.mem_append, List.mem_cons] at hu ⊢
        tauto
      exact apart_entering hnew (hc.facts u humem b hb') (hnobody u hu hx b hb')

theorem Named.next (hc : Named c) (htasks : c.tasks = l₁ ++ t :: l₂)
    (hunused : ∀ row ∈ c.shared.db.members, row.membership.token ≠ m.token) (hcond : t.unhurried c m) :
    Named ⟨(House.run h m c.shared t).1, l₁ ++ (House.run h m c.shared t).2.toList ++ l₂⟩ := by
  have ht : t ∈ c.tasks := by rw [htasks]; simp
  have hsub : ∀ u ∈ l₁ ++ l₂, u ∈ c.tasks := by
    intro u hu
    rw [htasks]
    simp only [List.mem_append, List.mem_cons] at hu ⊢
    tauto
  have hb : NameBook c.shared (l₁ ++ t :: l₂) := htasks ▸ hc.shared
  have hf := hc.facts t ht
  have hs := run_members h m c.shared t
  generalize House.run h m c.shared t = p at hs ⊢
  cases hs with
  | quiet hrole hnext hd hm =>
      refine Sys.Crew.Holds.next NameApart.symm hc htasks (hb.same hd hm (by rw [hrole]; rfl) ?_)
        (fun u _ _ hu a ha => (hu a ha).congr hd hm) ?_
      · intro token he
        rw [hrole] at he
        cases he
      · rintro t' rfl
        have hnone : t'.role = none := hnext
        refine ⟨fun a ha => ?_, fun u _ _ a b ha => ?_⟩
        · rw [hnone] at ha
          cases ha
        · rw [hnone] at ha
          cases ha
  | @asked t' name kind by_ he hrole hno =>
      subst he
      refine Sys.Crew.Holds.next NameApart.symm hc htasks (hb.same rfl rfl rfl (by simp [Task.role])) (fun u _ _ hu => hu) ?_
      rintro _ ⟨rfl⟩
      refine ⟨fun a ha => ?_, fun u hu _ a b ha hb' => ?_⟩
      · rw [hrole] at ha
        cases ha
        exact asked_fact hc.shared hno hcond
      · rw [hrole] at ha
        cases ha
        refine ⟨?_, by simp [Role.enters], by simp [Role.revokes]⟩
        rintro _ ⟨rfl⟩ hadds
        exact hcond u (hsub u hu) (by rw [hb']; exact hadds)
  | @admitted s' t' x hrole hrole' htoken hd hm =>
      have hfact : RoleFact c.shared (.admitting x.name) := hf _ hrole
      have hnew : ∀ row ∈ c.shared.db.members, row.membership.token ≠ x.token := htoken ▸ hunused
      rw [enrolled_eq hnew] at hd
      exact Named.enrols hc htasks hd hm hnew hfact.1 (fun _ => hfact.2) (by rw [hrole]; rfl)
        (by simp [hrole]) hrole' fun u _ hx b hb' => (hx _ _ hrole hb').names _ rfl
  | @approved s' t' x id by_ r he hrole' hr hid hname htoken hcheck hd hm =>
      subst he
      have hnew : ∀ row ∈ c.shared.db.members, row.membership.token ≠ x.token := htoken ▸ hunused
      have hfree : ∀ y, InForce c.shared.db y → y.name ≠ x.name := by
        intro y hy
        rw [hname]
        exact hcheck hcond.1 _ hy rfl
      refine Named.enrols hc htasks hd hm hnew hfree (by simp) rfl (by simp [Task.role]) hrole' ?_
      intro u hu _ b hb' hadds
      cases b with
      | admitting name =>
          cases hadds
          rw [hname] at hb'
          exact hcond.2 r hr hid u (hsub u hu) hb'
      | entering y asked => exact hfree y (hc.facts u (hsub u hu) _ hb').1 (Option.some.inj hadds)
      | _ => cases hadds
  | @mirrored s' x asked hrole hd hm =>
      have hfact : RoleFact c.shared (.entering x asked) := hf _ hrole
      have hfree : ∀ y ∈ c.shared.members, y.name ≠ x.name := by
        refine entering_free hc.shared hfact fun hasked => ?_
        subst hasked
        cases t with
        | approveMirror y =>
            cases hrole
            exact hcond
        | _ => cases hrole
      refine Sys.Crew.Holds.next NameApart.symm hc htasks (hb.mirrored hd hm hfact.1 hfact.2.1 hfree hrole) ?_ (by simp)
      intro u _ hx hu a ha
      exact (hu a ha).mirrored hb hd hm hfact.1 ((hx _ _ hrole ha).names _ rfl)
  | @found t' token hrole hrole' hin =>
      obtain ⟨x, hx, htok⟩ := hin
      refine Sys.Crew.Holds.next NameApart.symm hc htasks (hb.same rfl rfl (by rw [hrole]; rfl) (by simp [hrole]))
        (fun u _ _ hu => hu) ?_
      rintro _ ⟨rfl⟩
      refine ⟨fun a ha => ?_, fun u hu _ a b ha hb' => ?_⟩
      · rw [hrole'] at ha
        cases ha
        obtain ⟨r, hr, rfl⟩ := hb.recorded x hx
        exact ⟨r, hr, htok⟩
      · rw [hrole'] at ha
        cases ha
        refine ⟨by simp [Role.adds], by simp [Role.enters], fun y hy he => ?_⟩
        have hfu := hc.facts u (hsub u hu) b hb'
        cases b with
        | entering z asked =>
            cases hy
            exact hfu.2.1 x hx (htok.trans (Option.some.inj he))
        | _ => cases hy
  | failed token hrole =>
      exact Sys.Crew.Holds.next NameApart.symm hc htasks (hb.same rfl rfl (by rw [hrole]; rfl) (by simp [hrole]))
        (fun u _ _ hu => hu) (by simp)
  | gaveUp name hrole =>
      exact Sys.Crew.Holds.next NameApart.symm hc htasks (hb.same rfl rfl (by rw [hrole]; rfl) (by simp [hrole]))
        (fun u _ _ hu => hu) (by simp)
  | @revoked s' t' token now hrole hrole' hd hm =>
      refine Sys.Crew.Holds.next NameApart.symm hc htasks (hb.revoked hd hm hrole hrole') ?_ ?_
      · intro u _ hx hu a ha
        refine (hu a ha).revoked hd hm fun y hy he => ?_
        exact (hx _ _ hrole ha).revokes y hy (congrArg some he.symm)
      · rintro _ ⟨rfl⟩
        refine ⟨fun a ha => ?_, fun u _ hx a b ha hb' => ?_⟩
        · rw [hrole'] at ha
          cases ha
          exact ⟨known_revoked hd (hf _ hrole), fun y hy => ((inForce_revoked hd).mp hy).2⟩
        · rw [hrole'] at ha
          cases ha
          have hx := hx _ _ hrole hb'
          exact ⟨by simp [Role.adds], by simp [Role.enters], hx.revokes⟩
  | @ending s' t' token hrole hrole' hd hm =>
      refine Sys.Crew.Holds.next NameApart.symm hc htasks (hb.same hd hm (by rw [hrole]; rfl) ?_)
        (fun u _ _ hu a ha => (hu a ha).congr hd hm) ?_
      · intro tok he
        rw [hrole] at he
        exact ⟨t', by simp, hrole'.trans he⟩
      · rintro _ ⟨rfl⟩
        rw [← hrole'] at hrole
        refine ⟨fun a ha => (hf a (hrole.trans ha)).congr hd hm, fun u _ hx a b ha hb' => ?_⟩
        exact hx a b (hrole.trans ha) hb'
  | @forgot s' token hrole hd hm =>
      have hfact : RoleFact c.shared (.ending token) := hf _ hrole
      refine Sys.Crew.Holds.next NameApart.symm hc htasks (hb.forgot hd hm hfact.2 hrole) ?_ (by simp)
      intro u _ _ hu a ha
      refine (hu a ha).fewer hd fun y hy => ?_
      rw [hm] at hy
      exact (mem_deleteWhere.mp hy).1

end Names

/-! ## Runs -/

/-- A store to start on: distinct tokens, and distinct names among the members in force. -/
structure Listed (db : Registry) : Prop where
  keyed : (db.members.map fun r => r.membership.token).Nodup
  single : ∀ x ∈ loadMembers db, ∀ y ∈ loadMembers db, x.name = y.name → x = y

theorem loadMembers_tokens {db : Registry} (hk : (db.members.map fun r => r.membership.token).Nodup) :
    ((loadMembers db).map Membership.token).Nodup := by
  have hsub : ((db.members.filter fun r => r.revokedAt.isNone).map fun r => r.membership.token).Nodup :=
    List.Nodup.sublist (List.filter_sublist.map _) hk
  simpa [loadMembers, List.map_map, Function.comp_def] using hsub

/-- The members a start reads are those in force. -/
theorem load_named {s : House} (hl : Listed s.db) (hs : s.members = loadMembers s.db) : Named ⟨s, []⟩ := by
  refine ⟨⟨hl.keyed, fun x y hx hy => ?_, by rw [hs]; exact loadMembers_tokens hl.keyed,
    by rw [hs]; exact hl.single, fun x hx => ?_, fun x hx => ?_, fun x hx => ?_⟩, by simp, List.Pairwise.nil⟩
  · exact hl.single x (mem_loadMembers.mpr hx) y (mem_loadMembers.mpr hy)
  · exact ⟨_, mem_loadMembers.mp (hs ▸ hx), rfl⟩
  · rw [hs]
    exact .inl (mem_loadMembers.mpr hx)
  · exact .inl (mem_loadMembers.mp (hs ▸ hx))

theorem Named.listed {c : Site} (hc : Named c) : Listed c.shared.db := by
  refine ⟨hc.shared.keyed, fun x hx y hy => ?_⟩
  exact hc.shared.single x y (mem_loadMembers.mp hx) (mem_loadMembers.mp hy)

theorem Call.task_role (c : Call) : c.task.role = none := by
  cases c <;> rfl

theorem step_named {h : Digests} {s : Site} (hc : Named s) {i : HouseInput} (hd : Drawn s i)
    (hi : Unhurried s i) : Named (Site.step h s i) := by
  cases i with
  | call c =>
      have hb := hc.shared
      refine hc.spawn ⟨hb.keyed, hb.single, hb.distinct, hb.names, hb.recorded, ?_, ?_⟩ ?_ ?_
      · intro x hx
        exact (hb.covered x hx).imp_right fun ⟨u, hu, he⟩ => ⟨u, List.mem_append_left _ hu, he⟩
      · intro x hx
        exact (hb.stale x hx).imp_right fun ⟨u, hu, he⟩ => ⟨u, List.mem_append_left _ hu, he⟩
      · intro a ha
        rw [c.task_role] at ha
        cases ha
      · intro u _ a b _ hb'
        rw [c.task_role] at hb'
        cases hb'
  | advance k m =>
      simp only [Site.step]
      rcases Sys.Crew.advance_cases (program h) m k s with hsame | ⟨l₁, t, l₂, hk, htasks, hfree, hadv⟩
      · rwa [hsame]
      · rw [hadv]
        exact Named.next hc htasks hd.2.2 (hi t hk)
  | desk i =>
      simp only [Site.step]
      split
      · next hr =>
          obtain ⟨stock, requests, hdb⟩ := desk_routine h s.shared.db hr
          rw [hdb]
          have hb := hc.shared
          exact hc.outside ⟨hb.keyed, hb.single, hb.distinct, hb.names, hb.recorded, hb.covered, hb.stale⟩
            fun t ht a ha => (ht a ha).congr rfl rfl
      · exact hc
  | restart membersLost invitesLost stale now =>
      obtain rfl : membersLost = false := hi
      refine load_named ⟨hc.listed.keyed, ?_⟩ rfl
      exact hc.listed.single

theorem run_named {h : Digests} {tr : List (HouseInput × Unit)} {s : Site}
    (r : Sys.Run (house h Listed) (fun s i => Drawn s i ∧ Unhurried s i) tr s) : Named s := by
  refine Sys.Run.invariant (I := Named) ?_ (fun s i hc hi => step_named hc hi.1 hi.2) r
  rintro s ⟨hl, hs⟩
  have hnamed := @load_named (House.load false false s.shared.db) hl rfl
  rwa [hs]

/-- Live members have distinct names, in the hub and in the store. -/
theorem live_names_unique (h : Digests) {tr : List (HouseInput × Unit)} {s : Site}
    (r : Sys.Run (house h Listed) (fun s i => Drawn s i ∧ Unhurried s i) tr s) :
    (s.shared.members.map Membership.name).Nodup ∧ ((loadMembers s.shared.db).map Membership.name).Nodup := by
  have hc := run_named r
  constructor
  · exact (List.Nodup.of_map _ hc.shared.distinct).map_on hc.shared.names
  · exact (List.Nodup.of_map _ (loadMembers_tokens hc.shared.keyed)).map_on hc.listed.single

/-- One step of the task at `k`, with this token drawn. -/
def nameStep (k : Nat) (token : String) : HouseInput := .advance k ⟨calmStore 5, false, false, token⟩

def emptySite : Site := ⟨House.load false false {}, []⟩

theorem empty_listed : Listed {} := ⟨by decide, by decide⟩

/-- Two admissions under one name, the second after the first. -/
def sampleAdmissions : List HouseInput :=
  [.call (.admitMember "ada" "agent" "master"), nameStep 0 "mb_1", nameStep 0 "mb_1", nameStep 0 "mb_2",
    .call (.admitMember "ada" "agent" "master"), nameStep 0 "mb_2"]

def sampleAdmittedOnce : Site := ((house plainDigests Listed).exec sampleAdmissions [] emptySite).2

theorem live_names_unique_sample :
    sampleAdmittedOnce.tasks = [] ∧ sampleAdmittedOnce.shared.members.length = 1 ∧
    (sampleAdmittedOnce.shared.members.map Membership.name).Nodup ∧
    ((loadMembers sampleAdmittedOnce.shared.db).map Membership.name).Nodup := by
  have hrun : Sys.Run (house plainDigests Listed) (fun s i => Drawn s i ∧ Unhurried s i)
      ((house plainDigests Listed).exec sampleAdmissions [] emptySite).1 sampleAdmittedOnce :=
    .exec sampleAdmissions (by decide +kernel) (.nil ⟨empty_listed, rfl⟩)
  exact ⟨by decide +kernel, by decide +kernel, live_names_unique plainDigests hrun⟩

/-- Two admissions under one name, each past its question before the other writes. -/
def sampleHurried : List HouseInput :=
  [.call (.admitMember "ada" "agent" "master"), .call (.admitMember "ada" "agent" "master"),
    nameStep 0 "mb_1", nameStep 1 "mb_1", nameStep 0 "mb_1", nameStep 0 "mb_2", nameStep 0 "mb_2",
    nameStep 0 "mb_3"]

def sampleNamesakes : Site := ((house plainDigests Listed).exec sampleHurried [] emptySite).2

/-- Both admissions are done, and two live members have one name. -/
theorem two_admissions_share_name :
    ¬ ∀ (h : Digests) (tr : List (HouseInput × Unit)) (s : Site), Sys.Run (house h Listed) Drawn tr s →
      (s.shared.members.map Membership.name).Nodup ∧
      ((loadMembers s.shared.db).map Membership.name).Nodup := by
  intro hall
  have hrun : Sys.Run (house plainDigests Listed) Drawn
      ((house plainDigests Listed).exec sampleHurried [] emptySite).1 sampleNamesakes :=
    .exec sampleHurried (by decide +kernel) (.nil ⟨empty_listed, rfl⟩)
  have hone := hall plainDigests _ sampleNamesakes hrun
  revert hone
  decide +kernel

end Loca.Building
