/-
# `Loca.Building.Eviction` — a lost membership cuts all access

Once a membership is revoked, or while it is suspended, nothing that was handed out for it opens a
door: no davet, no session, no key of the member's principal.  What was handed out before the cut
stays dead after a resume; only the keys that are not revoked come back.

With an empty admin key the server takes every caller for the operator, so `Locks.Closed` asks for a
key.  A session that is taken while the store cannot be read may come out bound to nobody, and so may
one taken after a start that could not read the members; `Steady` leaves those out.
-/
import Loca.Building.Tenure

namespace Loca.Building

open Stamp Table

section

variable {k : Locks} {h : Digests} {P : Past} {s s' : Residence}

/-! ## A start -/

theorem insertUnless_old {ρ : Type} {clash : ρ → Bool} {r x : ρ} {t : List ρ} (hx : x ∈ t) (hc : clash x = true) :
    insertUnless clash r t = t :=
  if_pos (List.any_eq_true.mpr ⟨x, hx, hc⟩)

/-- A row whose identity is there is migrated already. -/
theorem migrateRow_vouched {db : Registry} {role : BuildingRole} {token : String}
    (hv : Vouched h db role token (principalIdOf h role token)) (name kind label : String) (at_ : Nat)
    (revokedAt : Option Nat) : Residence.migrateRow h role token name kind label at_ revokedAt db = db := by
  obtain ⟨⟨c, hc, hid, -, -⟩, p, hp, hpid, -⟩ := hv
  dsimp only [Residence.migrateRow]
  rw [insertUnless_old hp (decide_eq_true hpid), insertUnless_old hc]
  simp [CredentialRow.clashes, credentialRow, hid, credentialIdFor]

theorem migrateLegacyPrincipals_ids {db : Registry} (hi : Ids h k db) :
    Residence.migrateLegacyPrincipals h db = db := by
  have hmembers : ∀ rows : List MemberRow, (∀ r ∈ rows, r ∈ db.members) →
      rows.foldl (fun db r => Residence.migrateRow h .member r.membership.token r.membership.name r.membership.kind
        "Legacy member access" r.membership.joinedAt r.revokedAt db) db = db := by
    intro rows
    induction rows with
    | nil => exact fun _ => rfl
    | cons r rows ih =>
        intro hsub
        rw [List.foldl_cons, migrateRow_vouched (hi.members r (hsub r (by simp)))]
        exact ih fun x hx => hsub x (by simp [hx])
  have hsmasters : ∀ rows : List SmasterRow, (∀ r ∈ rows, r ∈ db.smasters) →
      rows.foldl (fun db r => Residence.migrateRow h .smaster r.token r.name "user" "Legacy Smaster access"
        r.issuedAt r.revokedAt db) db = db := by
    intro rows
    induction rows with
    | nil => exact fun _ => rfl
    | cons r rows ih =>
        intro hsub
        rw [List.foldl_cons, migrateRow_vouched (hi.smasters r (hsub r (by simp)))]
        exact ih fun x hx => hsub x (by simp [hx])
  dsimp only [Residence.migrateLegacyPrincipals]
  rw [hmembers db.members fun r hr => hr]
  exact hsmasters db.smasters fun r hr => hr

/-- What a start makes of the root key: a principal at most, and other root keys end. -/
theorem ensureMasterPrincipal_some {db db' : Registry} {now : Nat} (hi : Ids h k db)
    (hs : Residence.ensureMasterPrincipal k h now db = some db') :
    ∃ (p : PrincipalRow) (credentials : List CredentialRow) (rows : List SessionRow),
      p.buildingRole = .master ∧ Ages SameCredential db.credentials credentials ∧ Ages SameRow db.sessions rows ∧
      (db' = db ∨ db' = { db with
        principals := insertIgnore PrincipalRow.id p db.principals, credentials := credentials, sessions := rows }) := by
  have hsame : Ages SameCredential db.credentials db.credentials := .refl (fun _ => ⟨rfl, rfl, rfl, rfl⟩) _
  have hrows : Ages SameRow db.sessions db.sessions := .refl (fun _ => ⟨rfl, rfl, fun hr => hr⟩) _
  unfold Residence.ensureMasterPrincipal at hs
  split at hs
  · cases hs
    exact ⟨⟨"", "", "", .master, 0, none⟩, _, _, rfl, hsame, hrows, .inl rfl⟩
  · dsimp only at hs
    have hformer : ∀ id, Ages SameCredential db.credentials
        (updateWhere (Residence.formerRoot k h id) (fun c => { c with revokedAt := c.revokedAt.or (some now) })
          db.credentials) :=
      fun id => .update (fun _ => ⟨rfl, rfl, rfl, rfl⟩) (fun _ => ⟨rfl, rfl, rfl, rfl⟩) _
    split at hs
    · cases hs
      refine ⟨_, _, _, rfl, (hformer _).trans ?_ (.update ?_ ?_ _), revokeSessions_ages _ _ _, .inr rfl⟩
      · exact fun _ _ _ h₁ h₂ => ⟨h₂.1.trans h₁.1, h₂.2.1.trans h₁.2.1, h₂.2.2.1.trans h₁.2.2.1,
          h₂.2.2.2.trans h₁.2.2.2⟩
      · exact fun _ => ⟨rfl, rfl, rfl, rfl⟩
      · exact fun _ => ⟨rfl, rfl, rfl, rfl⟩
    · next hno =>
        -- the root key has its credential, so this is not the first start
        obtain ⟨p, ⟨c, hc, hid, -, -⟩, -⟩ := hi.root
        obtain ⟨c', hc', hsame⟩ := (hformer (((activeMasterPrincipal db).map PrincipalRow.id).getD
          (h.hashedId "pr_" (identityText .master k.adminToken)))).keeps hc
        exact absurd (hasKey_iff.mpr ⟨c', hc', hsame.1.trans hid⟩) hno

theorem loadInvites_live {db : Registry} {i : Invite} (hi : i ∈ loadInvites db) :
    (⟨i, none⟩ : InviteRow) ∈ db.invites := by
  obtain ⟨row, hrow, hlive, rfl⟩ := mem_loadInvites.mp hi
  rw [← hlive]
  exact hrow

/-- The tables after a start: more principals of rank at most, and ends. -/
structure Reread (db db' : Registry) : Prop where
  members : db'.members = db.members
  suspensions : db'.suspensions = db.suspensions
  smasters : db'.smasters = db.smasters
  invites : db'.invites = db.invites
  principals : ∃ p : PrincipalRow, p.buildingRole ≠ .member ∧
    (db'.principals = db.principals ∨ db'.principals = insertIgnore PrincipalRow.id p db.principals)
  credentials : Ages SameCredential db.credentials db'.credentials
  rows : Ages SameRow db.sessions db'.sessions

theorem Reread.ids {db db' : Registry} (hr : Reread db db') (hi : Ids h k db) : Ids h k db' := by
  obtain ⟨p, hrole, hp⟩ := hr.principals
  have hbase : Ids h k { db with principals := db'.principals } := by
    rcases hp with hp | hp
    · rw [hp]
      exact hi
    · rw [hp]
      exact hi.newPrincipal hrole
  refine hbase.ages (.refl (fun _ => ⟨rfl, rfl⟩) _) hr.credentials ?_ ?_ ?_ ?_
  · rw [hr.members]; exact .refl (fun _ => ⟨rfl, fun hr => hr⟩) _
  · rw [hr.smasters]; exact .refl (fun r => (rfl : SameSmaster r r)) _
  · rw [hr.invites]; exact .refl (fun _ => ⟨rfl, fun hr => hr⟩) _
  · rw [hr.suspensions]; exact hi.enlisted

/-- A principal with a member's rank was there before. -/
theorem Reread.member {db db' : Registry} (hr : Reread db db') {p' : PrincipalRow} (hp' : p' ∈ db'.principals)
    (hrole : p'.buildingRole = .member) : p' ∈ db.principals := by
  obtain ⟨p, hne, hp | hp⟩ := hr.principals
  · exact hp ▸ hp'
  · rw [hp] at hp'
    rcases mem_insertIgnore.mp hp' with hp' | ⟨rfl, -⟩
    · exact hp'
    · exact absurd hrole hne

theorem boot_reread {t : Occasion} {db : Registry} (hi : Ids h k s.db)
    (hs : (if t.refuses .boot then none
      else Residence.ensureMasterPrincipal k h t.now (Residence.migrateLegacyPrincipals h s.db)) = some db) :
    Reread s.db db := by
  split at hs
  · cases hs
  · rw [migrateLegacyPrincipals_ids hi] at hs
    obtain ⟨p, credentials, rows, hrole, hc, hr, hdb⟩ := ensureMasterPrincipal_some hi hs
    have hrank : p.buildingRole ≠ .member := by simp [hrole]
    obtain rfl | rfl := hdb
    · exact ⟨rfl, rfl, rfl, rfl, ⟨p, hrank, .inl rfl⟩,
        .refl (fun _ => ⟨rfl, rfl, rfl, rfl⟩) _, .refl (fun _ => ⟨rfl, rfl, fun hr => hr⟩) _⟩
    · exact ⟨rfl, rfl, rfl, rfl, ⟨p, hrank, .inr rfl⟩, hc, hr⟩

theorem Tenure.restart (ht : Tenure k h P s) {t : Occasion} (hread : t.fails .members = false) (stale : Invite → Bool) :
    Tenure k h P (s.restart k h t stale) := by
  unfold Residence.restart
  split
  · exact ht
  · next db hboot =>
      have hre := boot_reread ht.ids hboot
      dsimp only
      -- the tables the start leaves: as read, with sessions and davets ended
      have hdavets := revokeDavets_ages (fun i => ((if t.fails .invites then [] else loadInvites db).filter stale).any
        fun d => d.token = i.token) t.now db
      have hids := hre.ids ht.ids
      have hids' : Ids h k (revokeDavets (fun i => ((if t.fails .invites then [] else loadInvites db).filter stale).any
          fun d => d.token = i.token) t.now (revokeSessions (fun r => (if t.fails .admins then []
            else s.admins.filter fun a => t.now < a.2).any fun a =>
              (Residence.restorable h t.now db a).isNone && r.id = h.secretHash a.1) t.now db)) :=
        hids.ages (.refl (fun _ => ⟨rfl, rfl⟩) _) (.refl (fun _ => ⟨rfl, rfl, rfl, rfl⟩) _)
          (.refl (fun _ => ⟨rfl, fun hr => hr⟩) _) (.refl (fun r => (rfl : SameSmaster r r)) _) hdavets hids.enlisted
      have hcut : ∀ m, Cut db m ↔ Cut s.db m := fun m => cut_congr hre.members hre.suspensions
      have hadmins : ∀ {a}, a ∈ (if t.fails .admins then [] else s.admins.filter fun a => t.now < a.2) →
          a ∈ s.admins := by
        intro a ha
        split at ha
        · cases ha
        · exact (List.mem_filter.mp ha).1
      have hlive : ∀ i ∈ (if t.fails .invites then [] else loadInvites db), (⟨i, none⟩ : InviteRow) ∈ db.invites := by
        intro i hi
        split at hi
        · cases hi
        · exact loadInvites_live hi
      refine ht.moves ?_ hids' ?_ ⟨fun x => ?_, ?_, fun e he => ?_⟩ fun m hc => .inl ((hcut m).mp hc)
      · refine ⟨fun p hp hrole => .inl ⟨p, hre.member hp hrole, rfl, rfl⟩, fun c hc => .inl (hre.credentials.back hc),
          fun c hc => hre.credentials.keeps hc, fun r hr => ⟨r, ?_, rfl, fun hrev => hrev⟩, fun i hi => ?_,
          fun i hi hrev => davets_stay hdavets (hre.invites.symm ▸ hi) hrev, fun r hr => ?_, fun e he => .inr ?_, fun a ha => ?_, rfl⟩
        · exact hre.members.symm ▸ hr
        · obtain ⟨i', hi', hsame⟩ := hdavets.back hi
          exact .inl ⟨i', hre.invites ▸ hi', hsame.1⟩
        · obtain ⟨r₁, hr₁, h₁⟩ := (revokeSessions_ages _ t.now db).back hr
          obtain ⟨r₀, hr₀, h₀⟩ := hre.rows.back hr₁
          exact ⟨r₀, hr₀, h₁.1.trans h₀.1, h₁.2.1.trans h₀.2.1, fun hrev => h₁.2.2 (h₀.2.2 hrev)⟩
        · obtain ⟨a, ha, hsome⟩ := List.mem_filterMap.mp he
          obtain ⟨p, -, rfl⟩ := Option.map_eq_some_iff.mp hsome
          exact ⟨⟨a, hadmins (List.mem_filter.mp ha).1, rfl⟩, rfl, rfl⟩
        · dsimp only at ha
          split at ha
          · exact ha
          · exact (List.mem_filter.mp (List.mem_filter.mp ha).1).1
      · refine ht.barred.keep hids' (fun m => (hcut m).mp) (fun m => (hcut m).mpr) (fun r hr => ⟨r, hre.members ▸ hr, rfl⟩)
          (fun p hp hrole => ⟨p, hre.member hp hrole, rfl, rfl⟩) ?_
        rw [← hre.invites]
        exact hdavets
      · dsimp only
        rw [hread]
        exact mem_loadMembers
      · refine @seats_live _ t.now (revokeSessions _ t.now db) _ _ hlive ?_
        intro i hi hp
        obtain ⟨d, hd, he⟩ := List.any_eq_true.mp hp
        exact ⟨d, hd, of_decide_eq_true he⟩
      · dsimp only at he
        split at he
        · cases he
        · obtain ⟨r, hr, rfl⟩ := List.mem_map.mp he
          exact ⟨r, (List.mem_filter.mp hr).1, rfl⟩

/-! ## A new session -/

/-- A session that is drawn: no one's who is cut off, and bound to whoever it was drawn for. -/
structure Issue (h : Digests) (s : Residence) (x : Mint) : Prop where
  seats : ∀ inv, x.seat = some inv → x.identity.member = some inv.member
  bound : ∀ m, x.identity.member = some m → ∀ p, x.identity.principalId = some p → p = principalIdOf h .member m
  keys : ∀ c, x.key = some c → ∃ row ∈ s.db.credentials, row.secretHash = h.secretHash c ∧
    ∀ p ∈ s.db.principals, p.id = row.principalId → p.buildingRole = .member → x.identity.principalId = some p.id
  standing : ∀ m, Cut s.db m → ¬Belongs h m x.identity

theorem Tenure.mint (ht : Tenure k h P s) {x : Mint} (hf : Unseen h s x.token) (hd : Issue h s x)
    {admins : List (String × Nat)} {rows : List SessionRow} {sessions : List (String × SessionIdentity)}
    (hadm : ∀ a ∈ admins, a ∈ s.admins ∨ a.1 = x.token)
    (hrows : ∀ r ∈ rows, r ∈ s.db.sessions ∨
      r.id = h.secretHash x.token ∧ x.identity.principalId = some r.principalId)
    (hsess : ∀ e ∈ sessions, e ∈ s.sessions ∨ e = (x.token, x.identity)) :
    Tenure k h P { s with
      db := { s.db with sessions := rows }, admins := admins, sessions := sessions, minted := s.minted ++ [x] } := by
  have hcase : ∀ {y}, y ∈ s.minted ++ [x] → y ∈ s.minted ∨ y = x := by
    intro y hy
    simpa using hy
  have hold : ∀ {P : Mint → Prop}, (∃ y ∈ s.minted, P y) → ∃ y ∈ s.minted ++ [x], P y :=
    fun ⟨y, hy, hP⟩ => ⟨y, List.mem_append_left _ hy, hP⟩
  have hspent : ∀ {y}, y ∈ s.minted → Spent h s y.token → Spent h { s with
      db := { s.db with sessions := rows }, admins := admins, sessions := sessions, minted := s.minted ++ [x] } y.token := by
    rintro y hy ⟨hin, hrow⟩
    refine ⟨fun e he htok => ?_, fun r hr hid => ?_⟩
    · rcases hsess e he with he | rfl
      · exact hin e he htok
      · exact absurd (congrArg h.secretHash htok.symm) (hf.minted y hy)
    · rcases hrows r hr with hr | ⟨hrid, -⟩
      · exact hrow r hr hid
      · exact absurd (hid.symm.trans hrid) (hf.minted y hy)
  refine ⟨ht.ids.congr rfl rfl rfl rfl rfl rfl, ⟨ht.barred.disabled, ht.barred.davets⟩,
    ⟨ht.mapped.members, ht.mapped.invites, ht.mapped.smasters⟩, ?_, fun m hc y hy hb => ?_, fun y hy => ?_, ht.known, ht.lost⟩
  · constructor
    · intro y hy
      rcases hcase hy with hy | rfl
      · exact ht.spoken.secret y hy
      · exact ⟨hf.new.secret, fun r hr => hf.new.davet hr⟩
    · exact nodup_append_new ht.spoken.distinct fun y hy he => hf.minted y hy (by rw [he])
    · intro e he
      rcases hsess e he with he | rfl
      · exact hold (ht.spoken.drawn e he)
      · exact ⟨x, by simp, rfl, .inl rfl⟩
    · intro a ha
      rcases hadm a ha with ha | ha
      · exact hold (ht.spoken.stored a ha)
      · exact ⟨x, by simp, ha.symm⟩
    · intro r hr y hy hid
      rcases hrows r hr with hin | ⟨hrid, hp⟩ <;> rcases hcase hy with hy | rfl
      · exact ht.spoken.rows r hin y hy hid
      · exact absurd hid (hf.new.sessions r hin)
      · exact absurd (hid.symm.trans hrid) (hf.minted y hy)
      · exact hp
    · intro y hy
      rcases hcase hy with hy | rfl
      · exact ht.spoken.seats y hy
      · exact hd.seats
    · intro y hy
      rcases hcase hy with hy | rfl
      · exact ht.spoken.bound y hy
      · exact hd.bound
    · intro y hy
      rcases hcase hy with hy | rfl
      · exact ht.spoken.keys y hy
      · exact hd.keys
  · rcases hcase hy with hy | rfl
    · exact hspent hy (ht.spent m hc y hy hb)
    · exact absurd hb (hd.standing m hc)
  · rcases ht.dead y hy with ⟨⟨z, hz, rfl⟩, hs⟩ | hdavet
    · exact .inl ⟨⟨z, List.mem_append_left _ hz, rfl⟩, hspent hz hs⟩
    · exact .inr hdavet

/-- What `create_session_scoped` leaves behind, with the session already in the books. -/
theorem Tenure.createSessionScoped (ht : Tenure k h P s) {t : Occasion} (hf : Unseen h s t.token) {name : String}
    {kind : Option SenderType} {davet : Option Invite} {grant : Option AdminSessionGrant} {key : Option String}
    (hd : Issue h s ⟨t.token, davet, key, s.sessionOf h t name kind davet grant⟩) :
    Tenure k h P (Residence.createSessionScoped h t
      { s with minted := s.minted ++ [⟨t.token, davet, key, s.sessionOf h t name kind davet grant⟩] }
      name kind davet grant).2 := by
  have hadm : ∀ {n} {a : String × Nat}, a ∈ upsert Prod.fst (t.token, n) s.admins → a ∈ s.admins ∨ a.1 = t.token := by
    intro n a ha
    rcases mem_upsert.mp ha with ⟨ha, -⟩ | rfl
    · exact .inl ha
    · exact .inr rfl
  have hsess : ∀ {idy} {e : String × SessionIdentity}, e ∈ upsert Prod.fst (t.token, idy) s.sessions →
      e ∈ s.sessions ∨ e = (t.token, idy) := by
    intro idy e he
    rcases mem_upsert.mp he with ⟨he, -⟩ | he
    · exact .inl he
    · exact .inr he
  -- the admin row may have been written before the call gives up
  have hadmins : ∀ a ∈ (if (s.sessionOf h t name kind davet grant).admin then
      upsert Prod.fst (t.token, (s.sessionOf h t name kind davet grant).expiresAt) s.admins else s.admins),
      a ∈ s.admins ∨ a.1 = t.token := by
    intro a ha
    split at ha
    · exact hadm ha
    · exact .inl ha
  have hmint := @Tenure.mint k h P s ht _ hf hd
  generalize hidy : s.sessionOf h t name kind davet grant = idy at hmint hadmins ⊢
  have hidy' : Residence.sessionOf h t { s with minted := s.minted ++ [⟨t.token, davet, key, idy⟩] } name kind davet grant = idy :=
    hidy
  unfold Residence.createSessionScoped
  rw [hidy']
  dsimp only
  split
  · exact hmint (fun a ha => .inl ha) (fun r hr => .inl hr) fun e he => .inl he
  · have hs₁ : (if idy.admin then { s with
        admins := upsert Prod.fst (t.token, idy.expiresAt) s.admins
        minted := s.minted ++ [⟨t.token, davet, key, idy⟩] }
        else { s with minted := s.minted ++ [⟨t.token, davet, key, idy⟩] }) = ({ s with
        admins := if idy.admin then upsert Prod.fst (t.token, idy.expiresAt) s.admins else s.admins
        minted := s.minted ++ [⟨t.token, davet, key, idy⟩] } : Residence) := by
      split <;> rfl
    rw [hs₁]
    split
    · next p c hp hc =>
        split
        · exact hmint hadmins (fun r hr => .inl hr) fun e he => .inl he
        · refine hmint hadmins (fun r hr => ?_) fun e he => hsess he
          rcases mem_upsert.mp hr with ⟨hr, -⟩ | rfl
          · exact .inl hr
          · exact .inr ⟨rfl, hp⟩
    · exact hmint hadmins (fun r hr => .inl hr) fun e he => hsess he

/-- A secret that resolves has a credential in force, and so is the principal behind it. -/
theorem principalForCredential_some {x : String} {db : Registry} {p : PrincipalRow}
    (hs : principalForCredential h x db = some p) : x ≠ "" ∧ ∃ c ∈ db.credentials, c.secretHash = h.secretHash x ∧
      c.revokedAt = none ∧ p ∈ db.principals ∧ p.id = c.principalId ∧ p.disabledAt = none := by
  unfold principalForCredential at hs
  split at hs
  · cases hs
  · next hne =>
      obtain ⟨⟨c, q⟩, hact, rfl⟩ := Option.map_eq_some_iff.mp hs
      simp only [activeCredential, Option.bind_eq_bind, Option.bind_eq_some_iff, Option.pure_def,
        Option.some.injEq, Prod.mk.injEq] at hact
      obtain ⟨c', hc, q', hq, rfl, rfl⟩ := hact
      have hcf := List.find?_some hc
      have hqf := List.find?_some hq
      simp only [Bool.and_eq_true, decide_eq_true_eq, Option.isNone_iff_eq_none] at hcf hqf
      exact ⟨hne, c', List.mem_of_find?_eq_some hc, hcf.1, hcf.2, List.mem_of_find?_eq_some hq, hqf.1, hqf.2⟩

/-- A principal in force is not that of a member who is cut off. -/
theorem Tenure.standing (ht : Tenure k h P s) {p : PrincipalRow} (hp : p ∈ s.db.principals) (hon : p.disabledAt = none)
    {m : String} (hc : Cut s.db m) : p.id ≠ principalIdOf h .member m := by
  intro hid
  obtain ⟨r, hr, rfl⟩ := ht.ids.cut_member hc
  have := (ht.barred.disabled r hr p hp hid).mpr hc
  rw [hon] at this
  cases this

/-- What a secret in the admin header is worth, when the store can be read. -/
theorem resolveAuthority_cases (hk : k.Closed) {t : Occasion} (hread : t.fails .principal = false) (x : String) :
    (∃ p, principalForCredential h x s.db = some p ∧ s.resolveAuthority k h t (some x) none = authorityFromPrincipal p) ∨
    (principalForCredential h x s.db = none ∧ (s.resolveAuthority k h t (some x) none).principalId = none ∧
      (s.resolveAuthority k h t (some x) none = .nobody ∨ x = k.adminToken ∨ ∃ e ∈ s.smasters, e.1 = x)) := by
  unfold Residence.resolveAuthority Residence.sessionIdentity
  dsimp only
  by_cases hx : x = ""
  · refine .inr ⟨by simp [principalForCredential, hx], ?_⟩
    have hnone : (some x).filter (fun y => decide (y ≠ "")) = none := by simp [hx]
    rw [hnone]
    dsimp only
    rw [if_neg hk.host]
    exact ⟨rfl, .inl rfl⟩
  · rw [Option.filter_some, if_pos (by simpa using hx)]
    dsimp only [Residence.principalOf]
    rw [hread]
    cases hp : principalForCredential h x s.db with
    | some p => exact .inl ⟨p, rfl, rfl⟩
    | none =>
        refine .inr ⟨rfl, ?_⟩
        simp only [Bool.false_eq_true, if_false]
        split
        · next hm =>
            simp only [Residence.isMaster, hk.host, decide_false, Bool.false_or, decide_eq_true_eq,
              Option.some.injEq] at hm
            exact ⟨rfl, .inr (.inl hm)⟩
        · split
          · next hs =>
              simp only [Residence.smasterName, hx, if_false, Option.isSome_map] at hs
              obtain ⟨e, he⟩ := Option.isSome_iff_exists.mp hs
              exact ⟨rfl, .inr (.inr ⟨e, List.mem_of_find?_eq_some he, by simpa using List.find?_some he⟩)⟩
          · exact ⟨rfl, .inl rfl⟩

/-- The root key and the smasters' keys are no member's. -/
theorem Tenure.ranked_key (ht : Tenure k h P s) {x : String} (hx : x = k.adminToken ∨ ∃ e ∈ s.smasters, e.1 = x) :
    ∃ row ∈ s.db.credentials, row.secretHash = h.secretHash x ∧
      ∀ p ∈ s.db.principals, p.id = row.principalId → p.buildingRole ≠ .member := by
  have hv : ∃ role, role ≠ .member ∧ ∃ q, Vouched h s.db role x q := by
    rcases hx with rfl | ⟨e, he, rfl⟩
    · exact ⟨.master, by simp, ht.ids.root⟩
    · obtain ⟨r, hr, htok⟩ := ht.mapped.smasters e he
      exact ⟨.smaster, by simp, _, htok ▸ ht.ids.smasters r hr⟩
  obtain ⟨role, hrole, q, ⟨c, hc, -, hh, hq⟩, p', hp', hid', hr'⟩ := hv
  refine ⟨c, hc, hh, fun p hp hid => ?_⟩
  rw [eq_of_key ht.ids.ids hp hp' (hid.trans (hq.trans hid'.symm)), hr']
  exact hrole

/-- Whoever holds a member's key is found among the members. -/
theorem Tenure.memberForCredential (ht : Tenure k h P s) {t : Occasion} (hread : t.fails .principal = false)
    (hrec : t.fails .memberRecord = false) {x : String} {p : PrincipalRow}
    (hp : principalForCredential h x s.db = some p) (hrole : p.buildingRole = .member) :
    (s.memberForCredential h t (some x)).isSome := by
  obtain ⟨-, c, -, -, -, hpm, -, hon⟩ := principalForCredential_some hp
  obtain ⟨r, hr, hid⟩ := ht.ids.ranked p hpm hrole
  have hin : r.revokedAt = none := by
    have hno : ¬Cut s.db r.membership.token := fun hc => ht.standing hpm hon hc hid
    cases hrev : r.revokedAt with
    | none => rfl
    | some at_ => exact absurd (.inl ⟨r, hr, rfl, by rw [hrev]; rfl⟩) hno
  have hmem : r.membership ∈ s.members := by
    rw [ht.mapped.members, ← hin]
    exact hr
  -- the member's record leads back to the principal
  have hrecord : principalIdForMemberRecord h r.membership.token s.db = some p.id := by
    obtain ⟨⟨c', hc', hsrc⟩, hall⟩ := ht.ids.sourced r hr
    unfold principalIdForMemberRecord
    cases hfind : s.db.credentials.find? fun c =>
        c.legacySource = some (identityText .member (h.secretHash r.membership.token)) with
    | none => exact absurd (decide_eq_true hsrc) (List.find?_eq_none.mp hfind c' hc')
    | some c₀ =>
        have hsrc₀ := List.find?_some hfind
        rw [Option.map_some, hall c₀ (List.mem_of_find?_eq_some hfind) (of_decide_eq_true hsrc₀), hid]
  unfold Residence.memberForCredential
  rw [Option.bind_some, Residence.principalOf, hread, if_neg Bool.false_ne_true, hp]
  dsimp only
  rw [if_neg (by simp [hrole]), List.find?_isSome]
  exact ⟨r.membership, hmem, by simp [hrec, hrecord]⟩

/-- A principal in force, behind an authority. -/
def Backed (s : Residence) (a : RequestAuthority) : Prop :=
  ∀ q, a.principalId = some q → ∃ p ∈ s.db.principals, p.id = q ∧ p.disabledAt = none

theorem authorityFromPrincipal_backed {p : PrincipalRow} (hp : p ∈ s.db.principals) (hon : p.disabledAt = none) :
    Backed s (authorityFromPrincipal p) := by
  intro q hq
  exact ⟨p, hp, Option.some.inj hq, hon⟩

theorem resolveAuthority_none (hk : k.Closed) (t : Occasion) : s.resolveAuthority k h t none none = .nobody := by
  simp [Residence.resolveAuthority, Residence.sessionIdentity, hk.host]

theorem resolveAuthority_backed (hk : k.Closed) {t : Occasion} (hread : t.fails .principal = false)
    (x : Option String) : Backed s (s.resolveAuthority k h t x none) := by
  cases x with
  | none =>
      rw [resolveAuthority_none hk]
      exact fun q hq => nomatch hq
  | some x =>
      rcases @resolveAuthority_cases k h s hk t hread x with ⟨p, hp, he⟩ | ⟨-, hnone, -⟩
      · obtain ⟨-, c, -, -, -, hpm, -, hon⟩ := principalForCredential_some hp
        rw [he]
        exact authorityFromPrincipal_backed hpm hon
      · intro q hq
        rw [hnone] at hq
        cases hq

theorem masterPairingGrant_backed (t : Occasion) (ttl : Nat) : Backed s (s.masterPairingGrant k h t ttl).authority := by
  unfold Residence.masterPairingGrant
  dsimp only
  split
  · exact fun q hq => nomatch hq
  · cases hm : activeMasterPrincipal s.db with
    | none => exact fun q hq => nomatch hq
    | some p =>
        have hf := List.find?_some hm
        simp only [Bool.and_eq_true, decide_eq_true_eq, Option.isNone_iff_eq_none] at hf
        exact authorityFromPrincipal_backed (List.mem_of_find?_eq_some hm) hf.2

/-- The session of a davet's holder. -/
theorem Tenure.issue_seat (ht : Tenure k h P s) (t : Occasion) {inv : Invite} (hin : inv ∈ s.invites) (name : String)
    (kind : Option SenderType) (grant : Option AdminSessionGrant) :
    Issue h s ⟨t.token, some inv, none, s.sessionOf h t name kind (some inv) grant⟩ := by
  have hrow := ht.mapped.invites inv hin
  obtain ⟨r, hr, htok⟩ := ht.ids.housed _ hrow
  have hprincipal : ∀ q, (s.sessionOf h t name kind (some inv) grant).principalId = some q →
      q = principalIdOf h .member inv.member ∧ ∃ p ∈ s.db.principals, p.id = q ∧ p.disabledAt = none := by
    intro q hq
    obtain ⟨p, hp, rfl⟩ := Option.map_eq_some_iff.mp hq
    unfold Residence.principalOf at hp
    split at hp
    · cases hp
    · obtain ⟨-, c, hc, hh, -, hpm, hid, hon⟩ := principalForCredential_some hp
      refine ⟨?_, p, hpm, rfl, hon⟩
      rw [hid, ← htok]
      exact ht.ids.member_credential hr hc (by rw [htok]; exact hh)
  refine ⟨fun i hi => ?_, fun m hm q hq => ?_, fun c hc => (nomatch hc), fun m hc hb => ?_⟩
  · obtain rfl := Option.some.inj hi
    rfl
  · obtain rfl : inv.member = m := Option.some.inj hm
    exact (hprincipal q hq).1
  · rcases hb with hm | hp
    · have := ht.barred.davets m hc _ hrow (Option.some.inj hm)
      cases this
    · obtain ⟨-, p, hpm, hid, hon⟩ := hprincipal _ hp
      exact ht.standing hpm hon hc hid

/-- The session of a key. -/
theorem Tenure.issue_grant (ht : Tenure k h P s) (t : Occasion) {grant : Option AdminSessionGrant} {key : Option String}
    (hon : ∀ g, grant = some g → Backed s g.authority)
    (hkey : ∀ c, key = some c → ∃ row ∈ s.db.credentials, row.secretHash = h.secretHash c ∧
      ∀ p ∈ s.db.principals, p.id = row.principalId → p.buildingRole = .member →
        ∃ g, grant = some g ∧ g.authority.principalId = some p.id)
    (name : String) (kind : Option SenderType) : Issue h s ⟨t.token, none, key, s.sessionOf h t name kind none grant⟩ := by
  refine ⟨fun i hi => (nomatch hi), fun m hm => (nomatch hm), fun c hc => ?_, fun m hc hb => ?_⟩
  · obtain ⟨row, hrow, hh, hall⟩ := hkey c hc
    refine ⟨row, hrow, hh, fun p hp hid hrole => ?_⟩
    obtain ⟨g, rfl, hg⟩ := hall p hp hid hrole
    exact hg
  · rcases hb with hm | hp
    · cases hm
    · cases grant with
      | none => cases hp
      | some g =>
          obtain ⟨p, hpm, hid, hoff⟩ := hon g rfl _ hp
          exact ht.standing hpm hoff hc hid

/-- The key behind a session, when its grant was taken for it. -/
theorem Tenure.key_grant (ht : Tenure k h P s) (hk : k.Closed) {t : Occasion} (hread : ∀ call, t.fails call = false)
    {x : String} {ttl : Nat}
    (hworth : (s.resolveAuthority k h t (some x) none).principalId.isSome ∨
      (s.resolveAuthority k h t (some x) none).isBuildingAdmin = true) :
    ∃ row ∈ s.db.credentials, row.secretHash = h.secretHash x ∧ ∀ p ∈ s.db.principals, p.id = row.principalId →
      p.buildingRole = .member → ∃ g, s.adminSessionGrant k h t (some x) ttl = some g ∧ g.authority.principalId = some p.id := by
  rcases @resolveAuthority_cases k h s hk t (hread .principal) x with ⟨p, hp, he⟩ | ⟨-, hnone, hrest⟩
  · obtain ⟨-, c, hc, hh, -, hpm, hid, -⟩ := principalForCredential_some hp
    refine ⟨c, hc, hh, fun p' hp' hid' _ => ?_⟩
    have hsame : p'.id = p.id := hid'.trans hid.symm
    refine ⟨⟨ttl, (some x).bind (s.credentialIdOf h t), s.resolveAuthority k h t (some x) none⟩, ?_, ?_⟩
    · unfold Residence.adminSessionGrant
      dsimp only
      rw [if_pos (by rw [he]; rfl)]
    · rw [he, hsame]
      rfl
  · rcases hrest with he | hranked
    · rw [he] at hworth
      rcases hworth with hw | hw
      · cases hw
      · cases hw
    · obtain ⟨row, hrow, hh, hall⟩ := ht.ranked_key hranked
      exact ⟨row, hrow, hh, fun p hp hid hrole => absurd hrole (hall p hp hid)⟩

theorem adminSessionGrant_backed (hk : k.Closed) {t : Occasion} (hread : t.fails .principal = false)
    {x : Option String} {ttl : Nat} {g : AdminSessionGrant} (hg : s.adminSessionGrant k h t x ttl = some g) :
    Backed s g.authority := by
  unfold Residence.adminSessionGrant at hg
  dsimp only at hg
  split at hg
  · cases hg
    exact resolveAuthority_backed hk hread x
  · cases hg

theorem inviteByToken_mem {t : Occasion} {x : String} {inv : Invite} (hi : s.inviteByToken t x = some inv) :
    inv ∈ s.invites ∧ inv.token = x := by
  unfold Residence.inviteByToken at hi
  split at hi
  · cases hi
  · next inv' hfind =>
      split at hi
      · cases hi
      · cases hi
        exact ⟨List.mem_of_find?_eq_some hfind, by simpa using List.find?_some hfind⟩

theorem isMember_closed (hk : k.Closed) {x : String} (hm : Residence.isMember k (some x) = true) : x = k.adminToken := by
  simp only [Residence.isMember, hk.noKey, hk.invites, if_true, Bool.not_true, Bool.false_or, Bool.and_eq_true,
    decide_eq_true_eq, Option.some.injEq] at hm
  exact hm.2

theorem isMember_none (hk : k.Closed) : Residence.isMember k none = false := by
  simp [Residence.isMember, hk.noKey, hk.invites]

/-- The key behind a session that was taken without a davet and without an admin header. -/
theorem Tenure.own_key (ht : Tenure k h P s) (hk : k.Closed) {t : Occasion} (hread : ∀ call, t.fails call = false)
    {x : String}
    (hdoor : ¬(!Residence.isMember k (some x) && (s.memberForCredential h t (some x)).isNone && true &&
      RequestAuthority.nobody.principalId.isNone && (s.resolveAuthority k h t (some x) none).principalId.isNone) = true) :
    ∃ row ∈ s.db.credentials, row.secretHash = h.secretHash x ∧ ∀ p ∈ s.db.principals, p.id = row.principalId →
      p.buildingRole = .member → ∃ g, (if (s.memberForCredential h t (some x)).isSome ||
          decide ((s.resolveAuthority k h t (some x) none).buildingRole = some .smaster) then
        s.adminSessionGrant k h t (some x) adminSessionTtlMs else none) = some g ∧ g.authority.principalId = some p.id := by
  cases hp : principalForCredential h x s.db with
  | some p =>
      have hworth : (s.resolveAuthority k h t (some x) none).principalId.isSome := by
        rcases @resolveAuthority_cases k h s hk t (hread .principal) x with ⟨q, -, he⟩ | ⟨hnone, -, -⟩
        · rw [he]
          rfl
        · rw [hp] at hnone
          cases hnone
      obtain ⟨row, hrow, hh, hall⟩ := @Tenure.key_grant k h P s ht hk t hread x adminSessionTtlMs (.inl hworth)
      refine ⟨row, hrow, hh, fun q hq hid hrole => ?_⟩
      -- the holder of a member's key is found, so the grant is made
      obtain ⟨-, c, hc, hh', -, hpm, hpid, -⟩ := principalForCredential_some hp
      have hsame : q = p := by
        refine eq_of_key ht.ids.ids hq hpm ?_
        rw [hid, hpid, eq_of_key ht.ids.hashes hrow hc (hh.trans hh'.symm)]
      have hfound := ht.memberForCredential (hread .principal) (hread .memberRecord) hp (hsame ▸ hrole)
      rw [if_pos (by simp [hfound])]
      exact hall q hq hid hrole
  | none =>
      have hno : s.memberForCredential h t (some x) = none := by
        unfold Residence.memberForCredential
        rw [Option.bind_some, Residence.principalOf, hread, if_neg Bool.false_ne_true, hp]
      have hid : (s.resolveAuthority k h t (some x) none).principalId = none := by
        rcases @resolveAuthority_cases k h s hk t (hread .principal) x with ⟨q, hq, -⟩ | ⟨-, hnone, -⟩
        · rw [hp] at hq
          cases hq
        · exact hnone
      have hroot : x = k.adminToken := by
        refine isMember_closed hk ?_
        by_contra hm
        exact hdoor (by simp [hno, hid, hm, RequestAuthority.nobody])
      obtain ⟨row, hrow, hh, hall⟩ := ht.ranked_key (.inl hroot)
      exact ⟨row, hrow, hh, fun p hp hid hrole => absurd hrole (hall p hp hid)⟩

theorem Tenure.createSession (ht : Tenure k h P s) (hk : k.Closed) {t : Occasion} (hf : Unseen h s t.token)
    (hread : ∀ call, t.fails call = false) (paired : Option Nat) (admin davet : Option String) (name : String)
    (kind : Option SenderType) : Tenure k h P (s.createSession k h t paired admin davet name kind).2 := by
  unfold Residence.createSession
  cases paired with
  | some ttl =>
      simp only [Option.isSome_some, if_true, Option.isNone_some, Bool.false_and, Bool.false_eq_true, if_false,
        Bool.true_or, Option.bind_none]
      split
      · exact ht
      · split
        · exact ht
        · refine ht.createSessionScoped hf (ht.issue_grant t (fun g hg => ?_) (fun c hc => ?_) name kind)
          · -- a pairing code stands for itself
            cases hg
            exact masterPairingGrant_backed t ttl
          · cases hc
  | none =>
      simp only [Option.isSome_none, Bool.false_eq_true, if_false, Bool.false_or, Option.isNone_none, Bool.true_and]
      split
      · exact ht
      · next hgate =>
          cases hseat : davet.bind (s.inviteByToken t) with
          | some inv =>
              simp only [Option.isNone_some, Bool.and_false, Bool.false_and, Bool.false_eq_true, if_false,
                Option.isSome_some, if_true]
              obtain ⟨x, -, hi⟩ := Option.bind_eq_some_iff.mp hseat
              exact ht.createSessionScoped hf (ht.issue_seat t (inviteByToken_mem hi).1 name kind _)
          | none =>
              simp only [Option.isNone_none, Option.isSome_none, Bool.false_eq_true, if_false, Bool.true_and]
              split
              · exact ht
              · next hdoor =>
                  cases admin with
                  | some x =>
                      simp only [Option.isSome_some, if_true]
                      split
                      · exact ht
                      · refine ht.createSessionScoped hf (ht.issue_grant t
                          (fun g hg => adminSessionGrant_backed hk (hread .principal) hg) (fun c hc => ?_) name kind)
                        obtain rfl : x = c := Option.some.inj hc
                        refine ht.key_grant hk hread ?_
                        by_contra hno
                        rw [not_or] at hno
                        exact hgate (by simp_all)
                  | none =>
                      simp only [Option.isSome_none, Bool.false_eq_true, if_false]
                      rw [resolveAuthority_none hk] at hdoor
                      generalize hgrant : (if ((s.memberForCredential h t davet).isSome ||
                          decide ((s.resolveAuthority k h t davet none).buildingRole = some .smaster)) = true then
                        s.adminSessionGrant k h t davet adminSessionTtlMs else none) = grant
                      split
                      · exact ht
                      · refine ht.createSessionScoped hf (ht.issue_grant t (fun g hg => ?_) (fun c hc => ?_) name kind)
                        · rw [hg] at hgrant
                          split at hgrant
                          · exact adminSessionGrant_backed hk (hread .principal) hgrant
                          · cases hgrant
                        · obtain rfl : davet = some c := hc
                          rw [← hgrant]
                          exact ht.own_key hk hread hdoor

/-! ## What opens no door -/

/-- No session, no key in force, no davet that the hub holds, not the root key and no smaster's. -/
structure Void (k : Locks) (h : Digests) (s : Residence) (x : String) : Prop where
  session : ∀ t, s.sessionIdentity h t (some x) = none
  key : principalForCredential h x s.db = none
  seat : ∀ i ∈ s.invites, i.token ≠ x
  host : x ≠ k.adminToken
  staff : ∀ e ∈ s.smasters, e.1 ≠ x

theorem sessionIdentity_none {x : String} (t : Occasion) (hno : ∀ e ∈ s.sessions, e.1 = x → s.standing h t x e.2 = none) :
    s.sessionIdentity h t (some x) = none := by
  unfold Residence.sessionIdentity
  dsimp only
  cases hfind : s.sessions.find? fun e => e.1 = x with
  | none => rfl
  | some e => exact hno e (List.mem_of_find?_eq_some hfind) (by simpa using List.find?_some hfind)

/-- A secret that is no credential is neither the root key nor a smaster's. -/
theorem Tenure.no_rank (ht : Tenure k h P s) {x : String} (hno : ∀ c ∈ s.db.credentials, c.secretHash ≠ h.secretHash x) :
    principalForCredential h x s.db = none ∧ x ≠ k.adminToken ∧ ∀ e ∈ s.smasters, e.1 ≠ x := by
  refine ⟨?_, fun he => ?_, fun e he htok => ?_⟩
  · cases hp : principalForCredential h x s.db with
    | none => rfl
    | some p =>
        obtain ⟨-, c, hc, hh, -⟩ := principalForCredential_some hp
        exact absurd hh (hno c hc)
  · obtain ⟨row, hrow, hh, -⟩ := ht.ranked_key (.inl he)
    exact hno row hrow hh
  · obtain ⟨row, hrow, hh, -⟩ := ht.ranked_key (.inr ⟨e, he, htok⟩)
    exact hno row hrow hh

theorem Tenure.void_davet (ht : Tenure k h P s) {i : InviteRow} (hi : i ∈ s.db.invites) (hrev : i.revokedAt.isSome) :
    Void k h s i.invite.token := by
  obtain ⟨hkey, hhost, hstaff⟩ := ht.no_rank fun c hc => ht.ids.plain i hi c hc
  refine ⟨fun t => sessionIdentity_none t fun e he htok => ?_, hkey, fun j hj he => ?_, hhost, hstaff⟩
  · obtain ⟨y, hy, hyt, -⟩ := ht.spoken.drawn e he
    exact absurd (htok.symm.trans hyt.symm) ((ht.spoken.secret y hy).2 i hi)
  · have hsame := eq_of_key ht.ids.davets (ht.mapped.invites j hj) hi he
    rw [← hsame] at hrev
    cases hrev

theorem Tenure.void_session (ht : Tenure k h P s) {y : Mint} (hy : y ∈ s.minted) (hs : Spent h s y.token) :
    Void k h s y.token := by
  obtain ⟨hkey, hhost, hstaff⟩ := ht.no_rank (ht.spoken.secret y hy).1
  refine ⟨fun t => sessionIdentity_none t fun e he htok => ?_, hkey, fun j hj he => ?_, hhost, hstaff⟩
  · -- its row is revoked, or belongs to a principal that is gone
    have hoff : principalSessionActive h y.token t.now s.db = false := by
      refine Bool.eq_false_iff.mpr fun hact => ?_
      unfold principalSessionActive at hact
      rw [Bool.and_eq_true, List.any_eq_true] at hact
      obtain ⟨-, r, hr, hforce⟩ := hact
      simp only [SessionRow.inForce, Bool.and_eq_true, decide_eq_true_eq, List.any_eq_true,
        Option.isNone_iff_eq_none] at hforce
      obtain ⟨hid, ⟨⟨hlive, -⟩, -⟩, p, hp, hpid, hon⟩ := hforce
      rcases hs.2 r hr hid with hrev | ⟨m, hm, hrev, hpm⟩
      · rw [hlive] at hrev
        cases hrev
      · exact ht.standing hp hon (.inl ⟨m, hm, rfl, hrev⟩) (hpid.trans hpm)
    unfold Residence.standing
    rw [if_pos (by simp [hs.1 e he htok, hoff])]
  · exact (ht.spoken.secret y hy).2 _ (ht.mapped.invites j hj) he

theorem Tenure.void_key (ht : Tenure k h P s) {x : String} {c : CredentialRow} (hc : c ∈ s.db.credentials)
    (hh : c.secretHash = h.secretHash x) {r : MemberRow} (hr : r ∈ s.db.members)
    (hp : c.principalId = principalIdOf h .member r.membership.token)
    (hdead : c.revokedAt.isSome ∨ Cut s.db r.membership.token) : Void k h s x := by
  have hmine : ∀ {c'}, c' ∈ s.db.credentials → c'.secretHash = h.secretHash x → c' = c :=
    fun hc' hh' => eq_of_key ht.ids.hashes hc' hc (hh'.trans hh.symm)
  obtain ⟨-, q, hq, hqid, hqrole⟩ := ht.ids.members r hr
  have hrank : ¬(x = k.adminToken ∨ ∃ e ∈ s.smasters, e.1 = x) := by
    intro hx
    obtain ⟨row, hrow, hh', hall⟩ := ht.ranked_key hx
    exact hall q hq (by rw [hmine hrow hh', hp, hqid]) hqrole
  refine ⟨fun t => sessionIdentity_none t fun e he htok => ?_, ?_, fun j hj he => ?_, fun he => hrank (.inl he),
    fun e he htok => hrank (.inr ⟨e, he, htok⟩)⟩
  · obtain ⟨y, hy, hyt, -⟩ := ht.spoken.drawn e he
    exact absurd hh (by rw [← htok, ← hyt]; exact (ht.spoken.secret y hy).1 c hc)
  · cases hprin : principalForCredential h x s.db with
    | none => rfl
    | some p =>
        obtain ⟨-, c', hc', hh', hlive, hpm, hid, hon⟩ := principalForCredential_some hprin
        rw [hmine hc' hh'] at hlive hid
        rcases hdead with hrev | hcut
        · rw [hlive] at hrev
          cases hrev
        · exact absurd (hid.trans hp) (ht.standing hpm hon hcut)
  · exact ht.ids.plain _ (ht.mapped.invites j hj) c hc (by rw [he]; exact hh)

/-- A request that gets nothing: no identity, no rank, no seat, no door, no session. -/
structure Shut (k : Locks) (h : Digests) (t : Occasion) (s : Residence) (admin davet session : Option String) : Prop where
  identity : s.sessionIdentity h t session = none
  authority : s.resolveAuthority k h t admin session = .nobody
  member : s.memberForCredential h t davet = none
  seat : davet.bind (s.inviteByToken t) = none
  door : ∀ room door hint,
    s.enterDecision k h t room door admin davet (s.sessionIdentity h t session) hint ≠ .allowed
  fresh : ∀ name kind, s.createSession k h t none admin davet name kind = (.refused, s)

theorem Void.principalOf {x : String} (hv : Void k h s x) (t : Occasion) : s.principalOf h t x = none := by
  unfold Residence.principalOf
  split
  · rfl
  · exact hv.key

theorem Void.resolveAuthority (hk : k.Closed) {t : Occasion} {admin session : Option String}
    (ha : ∀ x, admin = some x → Void k h s x) (hs : s.sessionIdentity h t session = none) :
    s.resolveAuthority k h t admin session = .nobody := by
  unfold Residence.resolveAuthority
  rw [hs]
  dsimp only
  cases hf : admin.filter (· ≠ "") with
  | none => exact if_neg hk.host
  | some x =>
      obtain ⟨rfl, hne⟩ := Option.filter_eq_some_iff.mp hf
      have hv := ha x rfl
      have hname : s.smasterName (some x) = none := by
        unfold Residence.smasterName
        dsimp only
        split
        · rfl
        · rw [List.find?_eq_none.mpr fun e he => by simpa using hv.staff e he]
          rfl
      dsimp only
      rw [hv.principalOf]
      simp [Residence.isMaster, hk.host, hv.host, hname]

theorem Void.memberForCredential {t : Occasion} {davet : Option String} (hd : ∀ x, davet = some x → Void k h s x) :
    s.memberForCredential h t davet = none := by
  unfold Residence.memberForCredential
  cases davet with
  | none => rfl
  | some x => rw [Option.bind_some, (hd x rfl).principalOf]

theorem Void.inviteByToken {t : Occasion} {davet : Option String} (hd : ∀ x, davet = some x → Void k h s x) :
    davet.bind (s.inviteByToken t) = none := by
  cases davet with
  | none => rfl
  | some x =>
      rw [Option.bind_some]
      unfold Residence.inviteByToken
      rw [List.find?_eq_none.mpr fun i hi => by simpa using (hd x rfl).seat i hi]

theorem Void.isMember (hk : k.Closed) {davet : Option String} (hd : ∀ x, davet = some x → Void k h s x) :
    Residence.isMember k davet = false := by
  cases davet with
  | none => exact isMember_none hk
  | some x => exact Bool.eq_false_iff.mpr fun hm => (hd x rfl).host (isMember_closed hk hm)

theorem Void.mayEnter (hk : k.Closed) {t : Occasion} {davet : Option String} (hd : ∀ x, davet = some x → Void k h s x)
    (room : String) : s.mayEnter k h t room davet = false := by
  unfold Residence.mayEnter Residence.inviteFor
  rw [Void.inviteByToken hd, Option.filter_none]
  cases davet with
  | none => exact isMember_none hk
  | some x =>
      dsimp only
      rw [Void.memberForCredential hd]
      simp [Void.isMember hk hd]

/-- Whoever presents dead secrets only is shut out. -/
theorem Void.shut (hk : k.Closed) {t : Occasion} {admin davet session : Option String}
    (ha : ∀ x, admin = some x → Void k h s x) (hd : ∀ x, davet = some x → Void k h s x)
    (hs : ∀ x, session = some x → Void k h s x) : Shut k h t s admin davet session := by
  have hid : s.sessionIdentity h t session = none := by
    cases session with
    | none => rfl
    | some x => exact (hs x rfl).session t
  have hauth : s.resolveAuthority k h t admin none = .nobody := Void.resolveAuthority hk ha rfl
  have hmember := @Void.memberForCredential k h s t davet hd
  have hseat := @Void.inviteByToken k h s t davet hd
  refine ⟨hid, Void.resolveAuthority hk ha hid, hmember, hseat, fun room door hint => ?_, fun name kind => ?_⟩
  · unfold Residence.enterDecision
    rw [hid, hauth, hseat, Void.mayEnter hk hd]
    simp only [RequestAuthority.nobody, RequestAuthority.isBuildingAdmin, Option.map_none, Option.bind_none,
      Option.getD_none, Bool.false_eq_true, if_false]
    split
    · next hbad => simp at hbad
    · split
      · exact fun he => nomatch he
      · simp
  · unfold Residence.createSession
    dsimp only [Option.isSome_none, Option.isNone_none]
    have hpersonal : s.resolveAuthority k h t davet none = .nobody := Void.resolveAuthority hk hd rfl
    rw [if_neg Bool.false_ne_true, hauth, hpersonal, hmember, hseat, Void.isMember hk hd]
    cases admin <;> simp [RequestAuthority.nobody, RequestAuthority.isBuildingAdmin]

/-! ## Runs -/

/-- A session is taken with a store that can be read; a start reads the members. -/
def ResidenceInput.Readable (t : Occasion) : ResidenceInput → Prop
  | .createSession _ _ _ _ _ => ∀ call, t.fails call = false
  | .restart _ => t.fails .members = false
  | _ => True

structure Steady (h : Digests) (s : Residence) (i : Occasion × ResidenceInput) : Prop where
  fresh : Unseen h s i.1.token
  readable : i.2.Readable i.1

theorem step_tenure (hk : k.Closed) (ht : Tenure k h P s) {i : Occasion × ResidenceInput} (hi : Steady h s i) :
    Tenure k h P (s.step k h i.1 i.2).2 := by
  obtain ⟨t, i⟩ := i
  cases i with
  | admitMember name kind by_ => exact ht.admitMember hi.fresh name kind by_
  | approveJoinRequest id by_ => exact ht.approveJoinRequest hi.fresh id by_
  | revokeMember token => exact ht.revokeMember t token
  | setMemberSuspended reference suspended reason => exact ht.setMemberSuspended t reference suspended reason
  | inviteMemberToRoom member room by_ => exact ht.inviteMemberToRoom hi.fresh member room by_
  | revokeInvite token => exact ht.revokeInvite t token
  | revokeInvitesFor room name => exact ht.revokeInvitesFor t room name
  | createSession paired admin davet name kind =>
      exact ht.createSession hk hi.fresh hi.readable paired admin davet name kind
  | lookUp st => exact ht.lookUp t st
  | revokeSession st => exact ht.revokeSession t st
  | createCredential principal label => exact ht.createCredential hi.fresh principal label
  | revokeCredential principal id => exact ht.revokeCredential t principal id
  | addSmaster name => exact ht.addSmaster hi.fresh name
  | revokeSmaster token => exact ht.revokeSmaster t token
  | desk i =>
      simp only [Residence.step]
      split
      · next hr =>
          obtain ⟨stock, requests, hdb⟩ := desk_routine h s.db hr
          rw [hdb]
          exact ht.desk
      · exact ht
  | restart stale => exact ht.restart hi.readable stale

theorem approveJoinRequestAtomic_suspensions (env : StoreEnv) (id mb by_ : String) (db : Registry) :
    (approveJoinRequestAtomic h env id mb by_ db).2.suspensions = db.suspensions := by
  unfold approveJoinRequestAtomic
  split
  · next hok =>
      simp only [approveTx, Check.bind_ok, Check.require_ok, Check.pure_ok, exists_const, Prod.mk.injEq] at hok
      obtain ⟨-, db₁, h₁, r', -, _, -, db₂, h₄, db₃, h₅, db₄, h₆, -, -, rfl⟩ := hok
      obtain ⟨-, rfl⟩ := claimRequest_ok h₁
      obtain ⟨right, -, -, -, rfl⟩ := consumeRight_ok h₄
      obtain ⟨-, rfl⟩ := enrolMember_ok h₅
      obtain rfl := finishRequest_ok h₆
      rfl
  · rfl

theorem createSessionScoped_suspensions (t : Occasion) (name : String) (kind : Option SenderType) (davet : Option Invite)
    (grant : Option AdminSessionGrant) :
    (s.createSessionScoped h t name kind davet grant).2.db.suspensions = s.db.suspensions := by
  unfold Residence.createSessionScoped
  dsimp only
  repeat' split
  all_goals rfl

theorem createSession_suspensions {t : Occasion} (paired : Option Nat) (admin davet : Option String) (name : String)
    (kind : Option SenderType) :
    (s.createSession k h t paired admin davet name kind).2.db.suspensions = s.db.suspensions := by
  unfold Residence.createSession
  dsimp only
  repeat' split
  all_goals first
    | rfl
    | exact createSessionScoped_suspensions _ _ _ _ _

/-- A resumption that took place. -/
def Resumes (m : String) (e : (Occasion × ResidenceInput) × Residence.ResidenceAnswer) : Prop :=
  (∃ reference reason, e.1.2 = .setMemberSuspended reference false reason) ∧ e.2 = .member (some m)

/-- A suspension ends by a resumption only. -/
theorem step_suspended (ht : Tenure k h P s) (i : Occasion × ResidenceInput) {m : String}
    (hs : memberSuspended m s.db = true) :
    memberSuspended m (s.step k h i.1 i.2).2.db = true ∨ Resumes m (i, (s.step k h i.1 i.2).1) := by
  obtain ⟨t, i⟩ := i
  -- every other call leaves the table as it is
  have hsame : ∀ {db : Registry}, db.suspensions = s.db.suspensions →
      memberSuspended m db = true ∨ Resumes m ((t, i), (s.step k h t i).1) := by
    intro db hdb
    rw [memberSuspended, hdb]
    exact .inl hs
  cases i with
  | admitMember name kind by_ =>
      refine hsame ?_
      simp only [Residence.step, Residence.admitMember]
      repeat' split
      all_goals rfl
  | approveJoinRequest id by_ =>
      refine hsame ?_
      have hkeep := @approveJoinRequestAtomic_suspensions h t.env id t.token by_ s.db
      simp only [Residence.step, Residence.approveJoinRequest]
      split
      · next ha => rw [ha] at hkeep; exact hkeep
      · next ha => rw [ha] at hkeep; exact hkeep
  | revokeMember token =>
      refine hsame ?_
      simp only [Residence.step, Residence.revokeMember]
      repeat' split
      all_goals rfl
  | setMemberSuspended reference suspended reason =>
      simp only [Residence.step, Residence.setMemberSuspended]
      split
      · exact .inl hs
      · split
        · simp only [Residence.suspend]
          split
          · exact .inl hs
          · split
            · exact .inl hs
            · next db hsus =>
                obtain ⟨r, -, -, rfl⟩ := ht.ids.suspendMember_some hsus
                obtain ⟨x, hx, he⟩ := memberSuspended_iff.mp hs
                exact .inl (memberSuspended_iff.mpr ⟨x, mem_insertIgnore.mpr (.inl hx), he⟩)
        · next x _ hsus =>
            simp only [Residence.resume]
            split
            · exact .inl hs
            · split
              · exact .inl hs
              · next db hres =>
                  by_cases hm : x.token = m
                  · refine .inr ⟨⟨reference, reason, ?_⟩, by rw [hm]⟩
                    rw [Bool.eq_false_iff.mpr hsus]
                  · obtain ⟨-, -, rfl⟩ := resumeMember_some hres
                    obtain ⟨y, hy, rfl⟩ := memberSuspended_iff.mp hs
                    refine .inl (memberSuspended_iff.mpr ⟨y, mem_deleteWhere.mpr ⟨hy, ?_⟩, rfl⟩)
                    simpa using fun he => hm (Eq.symm he)
  | inviteMemberToRoom member room by_ =>
      refine hsame ?_
      simp only [Residence.step, Residence.inviteMemberToRoom]
      repeat' split
      all_goals first
        | rfl
        | next hins => obtain rfl := insertInvite_some hins; rfl
  | revokeInvite token =>
      refine hsame ?_
      simp only [Residence.step, Residence.revokeInvite]
      repeat' split
      all_goals rfl
  | revokeInvitesFor room name =>
      refine hsame ?_
      simp only [Residence.step, Residence.revokeInvitesFor]
      repeat' split
      all_goals rfl
  | createSession paired admin davet name kind =>
      refine hsame ?_
      exact createSession_suspensions paired admin davet name kind
  | lookUp st =>
      refine hsame ?_
      simp only [Residence.step, Residence.lookUp]
      repeat' split
      all_goals rfl
  | revokeSession st =>
      refine hsame ?_
      simp only [Residence.step, Residence.revokeSession]
      repeat' split
      all_goals rfl
  | createCredential principal label =>
      refine hsame ?_
      simp only [Residence.step, Residence.createCredential]
      repeat' split
      all_goals rfl
  | revokeCredential principal id =>
      refine hsame ?_
      simp only [Residence.step, Residence.revokeCredential]
      repeat' split
      all_goals rfl
  | addSmaster name =>
      refine hsame ?_
      simp only [Residence.step, Residence.addSmaster]
      repeat' split
      all_goals rfl
  | revokeSmaster token =>
      refine hsame ?_
      simp only [Residence.step, Residence.revokeSmaster]
      repeat' split
      all_goals rfl
  | desk i =>
      refine hsame ?_
      simp only [Residence.step]
      split
      · next hr =>
          obtain ⟨stock, requests, hdb⟩ := desk_routine h s.db hr
          rw [hdb]
      · rfl
  | restart stale =>
      refine hsame ?_
      simp only [Residence.step, Residence.restart]
      split
      · rfl
      · next hboot => exact (boot_reread ht.ids hboot).suspensions

theorem exec_suspended (hk : k.Closed) {good : Registry → Prop} {m : String} {is : List (Occasion × ResidenceInput)}
    (hadm : (residence k h good).Admits (Steady h) is s)
    (tr : List ((Occasion × ResidenceInput) × Residence.ResidenceAnswer)) (ht : Tenure k h P s)
    (hs : memberSuspended m s.db = true) :
    memberSuspended m ((residence k h good).exec is tr s).2.db = true ∨
      ∃ e ∈ ((residence k h good).exec is tr s).1, Resumes m e := by
  induction is generalizing s tr with
  | nil => exact .inl hs
  | cons i is ih =>
      rcases step_suspended ht i hs with hs' | hres
      · exact ih hadm.2 _ (step_tenure hk ht hadm.1) hs'
      · exact .inr ⟨_, Sys.Machine.mem_exec is (by exact List.mem_cons_self), hres⟩

/-- The tables a server starts on. -/
structure Sound (k : Locks) (h : Digests) (db : Registry) : Prop where
  ids : Ids h k db
  barred : Barred h db

def Past.none : Past := ⟨fun _ => False, fun _ => False, fun _ => False⟩

theorem load_tenure {db : Registry} (hs : Sound k h db) : Tenure k h .none (Residence.load db) := by
  refine ⟨hs.ids, hs.barred, ⟨fun x => mem_loadMembers, fun i hi => loadInvites_live hi, fun e he => ?_⟩, ?_,
    fun m _ x hx => (nomatch hx), fun x hx => hx.elim, fun m hm => hm.elim, fun m hm => hm.elim⟩
  · obtain ⟨r, hr, rfl⟩ := List.mem_map.mp he
    exact ⟨r, (List.mem_filter.mp hr).1, rfl⟩
  · exact ⟨fun x hx => (nomatch hx), List.nodup_nil, fun e he => (nomatch he), fun a ha => (nomatch ha),
      fun r _ x hx => (nomatch hx), fun x hx => (nomatch hx), fun x hx => (nomatch hx), fun x hx => (nomatch hx)⟩

theorem run_tenure (hk : k.Closed) {tr : List ((Occasion × ResidenceInput) × Residence.ResidenceAnswer)}
    (r : Sys.Run (residence k h (Sound k h)) (Steady h) tr s) : Tenure k h .none s := by
  refine Sys.Run.invariant (I := Tenure k h .none) ?_ (fun s i ht hi => step_tenure hk ht hi) r
  rintro s ⟨hs, he⟩
  rw [he]
  exact load_tenure hs

/-! ## The cut, and what follows -/

/-- A revocation or a suspension that took place. -/
def Cuts (m : String) (i : Occasion × ResidenceInput) (o : Residence.ResidenceAnswer) : Prop :=
  (i.2 = .revokeMember m ∨ ∃ reference reason, i.2 = .setMemberSuspended reference true reason) ∧
    o = .member (some m)

theorem revokeMember_lost (ht : Tenure k h P s) {t : Occasion} {m : String}
    (ho : (s.revokeMember h t m).1 = .member (some m)) :
    ∃ r ∈ (s.revokeMember h t m).2.db.members, r.membership.token = m ∧ r.revokedAt.isSome := by
  unfold Residence.revokeMember at ho ⊢
  split at ho
  · cases ho
  · next hin =>
      split at ho
      · cases ho
      · next hw =>
          rw [if_neg hin, if_neg hw]
          simp only [Bool.not_eq_true, Bool.not_eq_false', List.any_eq_true, decide_eq_true_eq] at hin
          obtain ⟨x, hx, rfl⟩ := hin
          have hrow := (ht.mapped.members x).mp hx
          exact ⟨⟨x, some t.now⟩, mem_updateWhere.mpr ⟨_, hrow, by simp⟩, rfl, rfl⟩

theorem setMemberSuspended_suspended (ht : Tenure k h P s) {t : Occasion} {reference reason m : String}
    (ho : (s.setMemberSuspended h t reference true reason).1 = .member (some m)) :
    memberSuspended m (s.setMemberSuspended h t reference true reason).2.db = true := by
  unfold Residence.setMemberSuspended at ho ⊢
  cases hfind : s.members.find? fun x => House.managementId h x.token = reference with
  | none => rw [hfind] at ho; cases ho
  | some x =>
      rw [hfind] at ho
      simp only [if_true, Residence.suspend] at ho ⊢
      split at ho
      · cases ho
      · next hw =>
          rw [if_neg hw]
          cases hsus : suspendMember h x.token reason t.now s.db with
          | none => rw [hsus] at ho; cases ho
          | some db =>
              rw [hsus] at ho
              obtain rfl : x.token = m := by
                injection ho with ho
                exact Option.some.inj ho
              obtain ⟨r, -, -, rfl⟩ := ht.ids.suspendMember_some hsus
              refine memberSuspended_iff.mpr ?_
              by_cases hold : ∃ y ∈ s.db.suspensions, y.memberToken = x.token
              · obtain ⟨y, hy, he⟩ := hold
                exact ⟨y, mem_insertIgnore.mpr (.inl hy), he⟩
              · exact ⟨⟨x.token, t.now, reason⟩,
                  mem_insertIgnore.mpr (.inr ⟨rfl, fun y hy he => hold ⟨y, hy, he⟩⟩), rfl⟩

/-- A session that was taken with a davet of this member, or with a key of the member's principal. -/
def From (h : Digests) (db : Registry) (m : String) (y : Mint) : Prop :=
  (∃ inv, y.seat = some inv ∧ inv.member = m) ∨
  ∃ x, y.key = some x ∧ ∃ c ∈ db.credentials, c.secretHash = h.secretHash x ∧ c.principalId = principalIdOf h .member m

/-- A davet that was issued to this member, or a session that was taken from one. -/
inductive Issued (h : Digests) (s : Residence) (m : String) : String → Prop
  | davet {i : InviteRow} : i ∈ s.db.invites → i.invite.member = m → Issued h s m i.invite.token
  | session {y : Mint} : y ∈ s.minted → From h s.db m y → Issued h s m y.token

/-- The credential that makes `x` a key of this member's principal. -/
structure KeyOf (h : Digests) (s : Residence) (m x : String) (c : CredentialRow) : Prop where
  row : c ∈ s.db.credentials
  secret : c.secretHash = h.secretHash x
  owner : c.principalId = principalIdOf h .member m

theorem Tenure.belongs (ht : Tenure k h P s) {m : String} (hm : ∃ r ∈ s.db.members, r.membership.token = m) {y : Mint}
    (hy : y ∈ s.minted) (hf : From h s.db m y) : Belongs h m y.identity := by
  rcases hf with ⟨inv, hseat, rfl⟩ | ⟨x, hkey, c, hc, hh, hp⟩
  · exact .inl (ht.spoken.seats y hy inv hseat)
  · obtain ⟨row, hrow, hh', hall⟩ := ht.spoken.keys y hy x hkey
    obtain ⟨r, hr, rfl⟩ := hm
    obtain ⟨-, p, hpm, hpid, hrole⟩ := ht.ids.members r hr
    have hsame : row = c := eq_of_key ht.ids.hashes hrow hc (hh'.trans hh.symm)
    have := hall p hpm (by rw [hsame, hp, hpid]) hrole
    exact .inr (by rw [this, hpid])

theorem Tenure.issued_over (ht : Tenure k h P s) {m : String} (hc : Cut s.db m) {x : String} (hx : Issued h s m x) :
    Over h s x := by
  cases hx with
  | davet hi he => exact .inr ⟨_, hi, rfl, ht.barred.davets m hc _ hi he⟩
  | session hy hf => exact .inl ⟨⟨_, hy, rfl⟩, ht.spent m hc _ hy (ht.belongs (ht.ids.cut_member hc) hy hf)⟩

theorem Tenure.over_void (ht : Tenure k h P s) {x : String} (hx : Over h s x) : Void k h s x := by
  rcases hx with ⟨⟨y, hy, rfl⟩, hs⟩ | ⟨i, hi, rfl, hrev⟩
  · exact ht.void_session hy hs
  · exact ht.void_davet hi hrev

theorem Tenure.keyOf_void (ht : Tenure k h P s) {m x : String} (hm : ∃ r ∈ s.db.members, r.membership.token = m)
    {c : CredentialRow} (hc : KeyOf h s m x c) (hdead : c.revokedAt.isSome ∨ Cut s.db m) : Void k h s x := by
  obtain ⟨r, hr, rfl⟩ := hm
  exact ht.void_key hc.row hc.secret hr hc.owner hdead

/-- A key that is not revoked resolves while the member is in good standing. -/
theorem Tenure.keyOf_works (ht : Tenure k h P s) {m x : String} (hm : ∃ r ∈ s.db.members, r.membership.token = m)
    (hin : ¬Cut s.db m) {c : CredentialRow} (hc : KeyOf h s m x c) (hlive : c.revokedAt = none) (hx : x ≠ "") :
    ∃ p, principalForCredential h x s.db = some p ∧ p.id = principalIdOf h .member m := by
  obtain ⟨r, hr, rfl⟩ := hm
  obtain ⟨-, p, hp, hpid, -⟩ := ht.ids.members r hr
  have hon : p.disabledAt = none := by
    cases hdis : p.disabledAt with
    | none => rfl
    | some at_ => exact absurd ((ht.barred.disabled r hr p hp hpid).mp (by rw [hdis]; rfl)) hin
  have hcf : s.db.credentials.find? (fun c => c.secretHash = h.secretHash x && c.revokedAt.isNone) = some c := by
    cases hfind : s.db.credentials.find? (fun c => c.secretHash = h.secretHash x && c.revokedAt.isNone) with
    | none => exact absurd (by simp [hc.secret, hlive]) (List.find?_eq_none.mp hfind c hc.row)
    | some c' =>
        have hmatch := List.find?_some hfind
        simp only [Bool.and_eq_true, decide_eq_true_eq] at hmatch
        rw [eq_of_key ht.ids.hashes (List.mem_of_find?_eq_some hfind) hc.row (hmatch.1.trans hc.secret.symm)]
  have hpf : s.db.principals.find? (fun q => q.id = c.principalId && q.disabledAt.isNone) = some p := by
    cases hfind : s.db.principals.find? (fun q => q.id = c.principalId && q.disabledAt.isNone) with
    | none => exact absurd (by simp [hc.owner, hpid, hon]) (List.find?_eq_none.mp hfind p hp)
    | some q =>
        have hmatch := List.find?_some hfind
        simp only [Bool.and_eq_true, decide_eq_true_eq] at hmatch
        rw [eq_of_key ht.ids.ids (List.mem_of_find?_eq_some hfind) hp (hmatch.1.trans (hc.owner.trans hpid.symm))]
  refine ⟨p, ?_, hpid⟩
  simp [principalForCredential, hx, activeCredential, hcf, hpf]

end

/-- A request that presents nothing but secrets of this kind is shut out. -/
def Locked (k : Locks) (h : Digests) (s : Residence) (bad : String → Prop) : Prop :=
  ∀ t admin davet session, (∀ x, admin = some x ∨ davet = some x ∨ session = some x → bad x) →
    Shut k h t s admin davet session

theorem locked_of_void {k : Locks} {h : Digests} {s : Residence} (hk : k.Closed) {bad : String → Prop}
    (hv : ∀ x, bad x → Void k h s x) : Locked k h s bad := fun _ _ _ _ hall =>
  Void.shut hk (fun x hx => hv x (hall x (.inl hx))) (fun x hx => hv x (hall x (.inr (.inl hx))))
    fun x hx => hv x (hall x (.inr (.inr hx)))

/-- After a revocation or a suspension of `m`, and any calls after it: for ever, or until a resumption,
no davet, no session and no key of `m` gets anybody anything; the davets and the sessions from before
the cut never do again, nor does a key that is revoked; and once `m` is back in good standing, the keys
that are not revoked are `m`'s again. -/
theorem lost_membership_cuts_access {k : Locks} (hk : k.Closed) (h : Digests)
    {tr : List ((Occasion × ResidenceInput) × Residence.ResidenceAnswer)} {s : Residence}
    (r : Sys.Run (residence k h (Sound k h)) (Steady h) tr s) {i : Occasion × ResidenceInput} (hi : Steady h s i)
    {m : String} (hcut : Cuts m i (s.step k h i.1 i.2).1) {is : List (Occasion × ResidenceInput)}
    (hadm : (residence k h (Sound k h)).Admits (Steady h) is (s.step k h i.1 i.2).2) :
    let s₁ := (s.step k h i.1 i.2).2
    let later := (residence k h (Sound k h)).exec is [] s₁
    (i.2 = .revokeMember m ∨ (∀ e ∈ later.1, ¬Resumes m e) →
      Locked k h later.2 fun x => Issued h later.2 m x ∨ ∃ c, KeyOf h later.2 m x c) ∧
    (Locked k h later.2 fun x => Issued h s₁ m x ∨ ∃ c, KeyOf h later.2 m x c ∧ c.revokedAt.isSome) ∧
    (¬Cut later.2.db m → ∀ x c, KeyOf h later.2 m x c → c.revokedAt = none → x ≠ "" →
      ∃ p, principalForCredential h x later.2.db = some p ∧ p.id = principalIdOf h .member m) := by
  intro s₁ later
  have ht := run_tenure hk r
  have ht₁ : Tenure k h .none s₁ := step_tenure hk ht hi
  -- the cut itself
  have hcut₁ : Cut s₁.db m := by
    obtain ⟨t, i⟩ := i
    obtain ⟨rfl | ⟨reference, reason, rfl⟩, ho⟩ := hcut
    · exact .inl (revokeMember_lost ht ho)
    · exact .inr (setMemberSuspended_suspended ht ho)
  let past : Past := ⟨fun x => Issued h s₁ m x, fun y => ∃ row ∈ s₁.db.members, row.membership.token = y,
    fun y => ∃ row ∈ s₁.db.members, row.membership.token = y ∧ row.revokedAt.isSome⟩
  have hpast : Tenure k h past s₁ :=
    ⟨ht₁.ids, ht₁.barred, ht₁.mapped, ht₁.spoken, ht₁.spent, fun x hx => ht₁.issued_over hcut₁ hx,
      fun y hy => hy, fun y hy => hy⟩
  have ht₂ : Tenure k h past later.2 := hadm.invariant (fun s i hs hi => step_tenure hk hs hi) [] hpast
  have hmember : ∃ row ∈ later.2.db.members, row.membership.token = m :=
    ht₂.known m (ht₁.ids.cut_member hcut₁)
  refine ⟨fun hstill => locked_of_void hk ?_, locked_of_void hk ?_, fun hin x c hc hlive hx => ?_⟩
  · have hcut₂ : Cut later.2.db m := by
      rcases hstill with hrev | hno
      · have hlost : past.lost m := by
          obtain ⟨t, i⟩ := i
          obtain rfl : i = .revokeMember m := hrev
          exact revokeMember_lost ht hcut.2
        exact .inl (ht₂.lost m hlost)
      · rcases hcut₁ with hrow | hsus
        · exact .inl (ht₂.lost m hrow)
        · rcases exec_suspended hk hadm [] ht₁ hsus with hsus | ⟨e, he, hres⟩
          · exact .inr hsus
          · exact absurd hres (hno e he)
    rintro x (hx | ⟨c, hc⟩)
    · exact ht₂.over_void (ht₂.issued_over hcut₂ hx)
    · exact ht₂.keyOf_void hmember hc (.inr hcut₂)
  · rintro x (hx | ⟨c, hc, hrev⟩)
    · exact ht₂.over_void (ht₂.dead x hx)
    · exact ht₂.keyOf_void hmember hc (.inl hrev)
  · exact ht₂.keyOf_works hmember hin hc hlive hx

instance (p : BuildingRole → Prop) [DecidablePred p] : Decidable (∀ role, p role) :=
  decidable_of_iff (p .master ∧ p .smaster ∧ p .member)
    ⟨fun ⟨h₁, h₂, h₃⟩ role => by cases role <;> assumption, fun h => ⟨h _, h _, h _⟩⟩

instance (h : Digests) (db : Registry) (token : String) : Decidable (New h db token) :=
  decidable_of_iff ((∀ c ∈ db.credentials, c.secretHash ≠ h.secretHash token) ∧
      (∀ c ∈ db.credentials, (∀ role, c.id ≠ credentialIdFor h role token) ∧
        c.id ≠ h.hashedId "cr_" ("credential:" ++ token)) ∧
      (∀ c ∈ db.credentials, ∀ role, c.legacySource ≠ sourceOf h role token) ∧
      (∀ p ∈ db.principals, ∀ role, p.id ≠ principalIdOf h role token) ∧
      (∀ r ∈ db.invites, h.secretHash r.invite.token ≠ h.secretHash token) ∧
      ∀ r ∈ db.sessions, r.id ≠ h.secretHash token)
    ⟨fun ⟨h₁, h₂, h₃, h₄, h₅, h₆⟩ => ⟨h₁, h₂, h₃, h₄, h₅, h₆⟩,
      fun hn => ⟨hn.secret, hn.rows, hn.sources, hn.principals, hn.davets, hn.sessions⟩⟩

instance (h : Digests) (s : Residence) (token : String) : Decidable (Unseen h s token) :=
  decidable_of_iff (New h s.db token ∧ ∀ x ∈ s.minted, h.secretHash x.token ≠ h.secretHash token)
    ⟨fun ⟨h₁, h₂⟩ => ⟨h₁, h₂⟩, fun hf => ⟨hf.new, hf.minted⟩⟩

/-- A moment at which everything works, with this token drawn. -/
def calmOccasion (now : Nat) (token : String) : Occasion := ⟨calmStore now, fun _ => false, false, token⟩

theorem readable_calm (now : Nat) (token : String) (i : ResidenceInput) : i.Readable (calmOccasion now token) := by
  cases i <;> first | trivial | rfl | exact fun _ => rfl

/-- The inputs, each at a calm moment of its own. -/
def calmly (is : List (Nat × String × ResidenceInput)) : List (Occasion × ResidenceInput) :=
  is.map fun i => (calmOccasion i.1 i.2.1, i.2.2)

/-- Every token of the list is new where it is drawn. -/
def Unseens (k : Locks) (h : Digests) : List (Nat × String × ResidenceInput) → Residence → Prop
  | [], _ => True
  | i :: is, s => Unseen h s i.2.1 ∧ Unseens k h is (s.step k h (calmOccasion i.1 i.2.1) i.2.2).2

instance decidableUnseens (k : Locks) (h : Digests) :
    ∀ (is : List (Nat × String × ResidenceInput)) (s : Residence), Decidable (Unseens k h is s)
  | [], _ => inferInstanceAs (Decidable True)
  | i :: is, s =>
      @instDecidableAnd (Unseen h s i.2.1) _ _
        (decidableUnseens k h is (s.step k h (calmOccasion i.1 i.2.1) i.2.2).2)

theorem calmly_admitted {k : Locks} {h : Digests} {good : Registry → Prop} {is : List (Nat × String × ResidenceInput)}
    {s : Residence} (hu : Unseens k h is s) : (residence k h good).Admits (Steady h) (calmly is) s := by
  induction is generalizing s with
  | nil => trivial
  | cons i is ih => exact ⟨⟨hu.1, readable_calm _ _ _⟩, ih hu.2⟩

def closedLocks : Locks := ⟨"", "root", true, "master"⟩

theorem closedLocks_closed : closedLocks.Closed := ⟨rfl, rfl, by decide⟩

/-- The store of a building that has been started once. -/
def foundedRegistry : Registry :=
  { principals := [⟨"pr_master:root", "master", "human", .master, 1, none⟩]
    credentials := [⟨"cr_master:root", "pr_master:root", "Root recovery", "h:root", 1, none, none, some "admin:h:root"⟩] }

example : Residence.ensureMasterPrincipal closedLocks plainDigests 1 (Residence.migrateLegacyPrincipals plainDigests {}) =
    some foundedRegistry := by rfl

theorem founded_sound : Sound closedLocks plainDigests foundedRegistry where
  ids := {
    hashes := by decide
    ids := by decide
    owned := by decide
    members := fun r hr => (nomatch hr)
    smasters := fun r hr => (nomatch hr)
    root := ⟨"pr_master:root", ⟨_, List.mem_singleton.mpr rfl, rfl, rfl, rfl⟩,
      _, List.mem_singleton.mpr rfl, rfl, rfl⟩
    ranked := by decide
    sourced := fun r hr => (nomatch hr)
    keyed := by decide
    apart := fun r hr => (nomatch hr)
    enlisted := fun x hx => (nomatch hx)
    davets := by decide
    housed := fun r hr => (nomatch hr)
    plain := fun r hr => (nomatch hr) }
  barred := ⟨fun r hr => (nomatch hr), fun m _ i hi => (nomatch hi)⟩

/-- Ada is admitted, takes a davet and two sessions, one with the davet and one with her key. -/
def sampleStay : List (Nat × String × ResidenceInput) :=
  [(2, "mb_1", .admitMember "ada" "agent" "master"), (3, "dv_1", .inviteMemberToRoom "mb_1" "lab" "master"),
    (4, "st_1", .createSession none none (some "dv_1") "" none),
    (5, "st_2", .createSession none none (some "mb_1") "" none)]

def sampleStayed : Residence :=
  ((residence closedLocks plainDigests (Sound closedLocks plainDigests)).exec (calmly sampleStay) []
    (Residence.load foundedRegistry)).2

/-- Ada is suspended. -/
def sampleSuspension : Occasion × ResidenceInput :=
  (calmOccasion 6 "t_6", .setMemberSuspended "mbid_member:mb_1" true "")

def sampleSuspended : Residence :=
  (sampleStayed.step closedLocks plainDigests sampleSuspension.1 sampleSuspension.2).2

/-- The server starts again, and Ada is let in again. -/
def sampleReturn : List (Nat × String × ResidenceInput) :=
  [(7, "t_7", .restart fun _ => false), (8, "t_8", .setMemberSuspended "mbid_member:mb_1" false "")]

def sampleReturned : Residence :=
  ((residence closedLocks plainDigests (Sound closedLocks plainDigests)).exec (calmly sampleReturn) []
    sampleSuspended).2

/-- Ada's key opens again, her old davet and her old sessions do not. -/
theorem lost_membership_cuts_access_sample :
    (sampleStayed.sessions.map Prod.fst = ["st_1", "st_2"] ∧ sampleStayed.invites.map Invite.token = ["dv_1"]) ∧
    Shut closedLocks plainDigests (calmOccasion 9 "t_9") sampleReturned none (some "dv_1") (some "st_1") ∧
    Shut closedLocks plainDigests (calmOccasion 9 "t_9") sampleReturned none none (some "st_2") ∧
    ∃ p, principalForCredential plainDigests "mb_1" sampleReturned.db = some p ∧ p.id = "pr_member:mb_1" := by
  have hrun : Sys.Run (residence closedLocks plainDigests (Sound closedLocks plainDigests)) (Steady plainDigests)
      ((residence closedLocks plainDigests (Sound closedLocks plainDigests)).exec (calmly sampleStay) []
        (Residence.load foundedRegistry)).1 sampleStayed :=
    .exec (calmly sampleStay) (calmly_admitted (by decide +kernel)) (.nil ⟨founded_sound, rfl⟩)
  have hmain := lost_membership_cuts_access closedLocks_closed plainDigests hrun
    (⟨by decide +kernel, readable_calm _ _ _⟩ : Steady plainDigests sampleStayed sampleSuspension)
    (m := "mb_1") ⟨.inr ⟨_, _, rfl⟩, by decide +kernel⟩
    (@calmly_admitted closedLocks plainDigests _ sampleReturn _ (by decide +kernel))
  obtain ⟨-, hold, hkeys⟩ := hmain
  have hdv : Issued plainDigests sampleSuspended "mb_1" "dv_1" :=
    @Issued.davet _ _ _ ⟨⟨"dv_1", "lab", "mb_1", "ada", "agent", 3, "master"⟩, some 6⟩ (by decide +kernel) rfl
  have hst₁ : Issued plainDigests sampleSuspended "mb_1" "st_1" := by
    refine @Issued.session _ _ _ ⟨"st_1", some ⟨"dv_1", "lab", "mb_1", "ada", "agent", 3, "master"⟩, none,
      ⟨some "pr_member:mb_1", .member, "ada", .agent, some "lab", some "mb_1", false, 0⟩⟩ (by decide +kernel) ?_
    exact .inl ⟨_, rfl, rfl⟩
  have hst₂ : Issued plainDigests sampleSuspended "mb_1" "st_2" := by
    refine @Issued.session _ _ _ ⟨"st_2", none, some "mb_1",
      ⟨some "pr_member:mb_1", .member, "ada", .agent, none, none, false, 43200005⟩⟩ (by decide +kernel) ?_
    exact .inr ⟨_, rfl, by decide +kernel⟩
  refine ⟨by decide +kernel, hold _ none (some "dv_1") (some "st_1") ?_, hold _ none none (some "st_2") ?_, ?_⟩
  · rintro x (hx | hx | hx)
    · cases hx
    · exact .inl (Option.some.inj hx ▸ hdv)
    · exact .inl (Option.some.inj hx ▸ hst₁)
  · rintro x (hx | hx | hx)
    · cases hx
    · cases hx
    · exact .inl (Option.some.inj hx ▸ hst₂)
  · refine hkeys ?_ "mb_1" ⟨"cr_member:mb_1", "pr_member:mb_1", "Member access", "h:mb_1", 2, none, none, some "member:h:mb_1"⟩
      ⟨by decide +kernel, by decide +kernel, by decide +kernel⟩ rfl (by decide)
    rintro (hrow | hsus)
    · revert hrow
      decide +kernel
    · revert hsus
      decide +kernel

/-- Invites are required, but no admin key is set. -/
def keylessLocks : Locks := ⟨"", "", true, "master"⟩

def sampleEntry : List (Nat × String × ResidenceInput) := [(2, "mb_1", .admitMember "ada" "agent" "master")]

def sampleKeyless : Residence :=
  ((residence keylessLocks plainDigests fun db => db = {}).exec (calmly sampleEntry) [] (Residence.load {})).2

/-- Ada's membership is revoked; whoever presents her dead key as an admin token is the operator. -/
theorem dead_key_passes_for_operator :
    ¬ ∀ (k : Locks) (h : Digests) (tr : List ((Occasion × ResidenceInput) × Residence.ResidenceAnswer)) (s : Residence),
      k.roomToken = "" → k.requireInvite = true → Sys.Run (residence k h fun db => db = {}) (Steady h) tr s →
      ∀ (i : Occasion × ResidenceInput) (m : String), Steady h s i → Cuts m i (s.step k h i.1 i.2).1 →
      ∀ (t : Occasion) (x : String) (c : CredentialRow), KeyOf h (s.step k h i.1 i.2).2 m x c →
        (s.step k h i.1 i.2).2.resolveAuthority k h t (some x) none = .nobody ∧
        ∀ room door hint, (s.step k h i.1 i.2).2.enterDecision k h t room door (some x) none none hint ≠ .allowed := by
  intro hall
  have hrun : Sys.Run (residence keylessLocks plainDigests fun db => db = {}) (Steady plainDigests)
      ((residence keylessLocks plainDigests fun db => db = {}).exec (calmly sampleEntry) [] (Residence.load {})).1
      sampleKeyless :=
    .exec (calmly sampleEntry) (calmly_admitted (by decide +kernel)) (.nil ⟨rfl, rfl⟩)
  have hdead := hall keylessLocks plainDigests _ sampleKeyless rfl rfl hrun (calmOccasion 3 "t_3", .revokeMember "mb_1")
    "mb_1" ⟨by decide +kernel, readable_calm _ _ _⟩ ⟨.inl rfl, by decide +kernel⟩ (calmOccasion 4 "t_4") "mb_1"
    ⟨"cr_member:mb_1", "pr_member:mb_1", "Member access", "h:mb_1", 2, none, some 3, some "member:h:mb_1"⟩
    ⟨by decide +kernel, by decide +kernel, by decide +kernel⟩
  refine hdead.2 "lab" ⟨fun _ => false, none⟩ none ?_
  decide +kernel

end Loca.Building
