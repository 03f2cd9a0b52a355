/-
# `Loca.Building.Recovery` — one Master, whatever the root key is

`ensure_master_principal` runs on every start with the root key that is configured.  It finds the Master
by rank or makes one, ends the recovery credentials of every other key together with their sessions, and
puts the key's own credential back in force.  Sessions, device keys and their revocation go on in between.

The row of a former key stays, revoked, under an id that its key gives; so a key that comes back finds its
credential, and the sessions of its first life stay ended because their own rows are (`Crowned.sessions`,
`SessionOver`).  A key is refused where another credential than a recovery credential has its secret: that is how
the operator learns that a device key was configured as the root key.
-/
import Loca.Building.Access

namespace Loca.Building

open Table
open Residence (ResidenceAnswer)

/-! ## Calls -/

/-- The tables, and the keys that are configured. -/
structure Recovery where
  db : Registry
  locks : Locks

inductive RecoveryInput
  /-- `ensure_master_principal`, at a start with this root key. -/
  | rotate (root name : String)
  | createSession (paired : Option Nat) (admin davet : Option String) (name : String) (kind : Option SenderType)
  | createCredential (principal label : String)
  | revokeCredential (principal id : String)

namespace Recovery

variable (h : Digests) (t : Occasion) (s : Recovery)

/-- The hub that a start makes of the tables. -/
def hub : Residence := Residence.load s.db

/-- A call of the hub, as far as the tables go. -/
def call (f : Residence → ResidenceAnswer × Residence) : ResidenceAnswer × Recovery :=
  ((f s.hub).1, { s with db := (f s.hub).2.db })

def rotate (root name : String) : ResidenceAnswer × Recovery :=
  let locks := { s.locks with adminToken := root, masterName := name }
  match if t.refuses .boot then none else Residence.ensureMasterPrincipal locks h t.now s.db with
  | none => (.failed, s)
  | some db => (.done, ⟨db, locks⟩)

def step : RecoveryInput → ResidenceAnswer × Recovery
  | .rotate root name => s.rotate h t root name
  | .createSession paired admin davet name kind =>
      s.call fun r => r.createSession s.locks h t paired admin davet name kind
  | .createCredential principal label => s.call fun r => r.createCredential h t principal label
  | .revokeCredential principal id => s.call fun r => r.revokeCredential h t principal id

end Recovery

/-- The principals that have the Master's rank in force. -/
def masters (db : Registry) : List PrincipalRow :=
  db.principals.filter fun p => p.buildingRole = .master && p.disabledAt.isNone

/-- The recovery credentials in force. -/
def liveRoots (db : Registry) : List CredentialRow := db.credentials.filter fun c => c.isRoot && c.revokedAt.isNone

/-! ## Secrets -/

/-- What the digests tell apart, of the secrets that are used. -/
structure SecretsApart (h : Digests) (used : String → Prop) : Prop where
  secrets : ∀ x y, used x → used y → h.secretHash x = h.secretHash y → x = y
  roots : ∀ x y, used x → used y → credentialIdFor h .master x = credentialIdFor h .master y → x = y
  devices : ∀ x y, used x → used y → credentialIdFor h .master x ≠ h.hashedId "cr_" ("credential:" ++ y)

/-- The constraints of the tables, and whose ids the credentials have. -/
structure Keyring (h : Digests) (used : String → Prop) (db : Registry) : Prop where
  principals : (db.principals.map PrincipalRow.id).Nodup
  ids : (db.credentials.map CredentialRow.id).Nodup
  hashes : (db.credentials.map CredentialRow.secretHash).Nodup
  sessions : (db.sessions.map SessionRow.id).Nodup
  owned : ∀ c ∈ db.credentials, ∃ p ∈ db.principals, p.id = c.principalId
  plain : ∀ c ∈ db.credentials, c.isRoot = false → ∀ x, used x → c.id ≠ credentialIdFor h .master x
  roots : ∀ c ∈ db.credentials, c.isRoot = true → ∃ x, used x ∧ c.id = credentialIdFor h .master x ∧
    c.secretHash = h.secretHash x ∧ c.legacySource = some ("admin:" ++ h.secretHash x)

/-- Before the first root key: nobody has the Master's rank, and no credential is a recovery credential. -/
structure Unclaimed (h : Digests) (used : String → Prop) (s : Recovery) : Prop where
  key : s.locks.adminToken = ""
  ranks : ∀ p ∈ s.db.principals, p.buildingRole ≠ .master
  sources : ∀ c ∈ s.db.credentials, c.isRoot = false
  free : ∀ p ∈ s.db.principals, ∀ x, used x → p.id ≠ principalIdOf h .master x

/-- From then on: the Master is `p`, and only the current key's credential and its sessions are in force. -/
structure Crowned (h : Digests) (used : String → Prop) (p : PrincipalRow) (s : Recovery) : Prop where
  key : s.locks.adminToken ≠ ""
  given : used s.locks.adminToken
  masters : masters s.db = [p]
  owner : ∀ c ∈ s.db.credentials, c.isRoot = true → c.principalId = p.id
  current : ∃ c ∈ s.db.credentials, c.isRoot = true ∧ c.secretHash = h.secretHash s.locks.adminToken ∧ c.revokedAt = none
  former : ∀ c ∈ s.db.credentials, c.isRoot = true → c.secretHash ≠ h.secretHash s.locks.adminToken → c.revokedAt.isSome
  sessions : ∀ r ∈ s.db.sessions, ∀ c ∈ s.db.credentials, c.id = r.credentialId → c.isRoot = true →
    c.secretHash ≠ h.secretHash s.locks.adminToken → r.revokedAt.isSome

section

variable {h : Digests} {used : String → Prop} {t : Occasion} {s : Recovery} {db : Registry} {p : PrincipalRow}

/-- The recovery credential in force is one, the current key's. -/
theorem Crowned.liveRoots (hk : Keyring h used s.db) (hc : Crowned h used p s) :
    ∃ c, liveRoots s.db = [c] ∧ c.secretHash = h.secretHash s.locks.adminToken := by
  obtain ⟨c, hmem, hroot, hhash, hlive⟩ := hc.current
  refine ⟨c, ?_, hhash⟩
  obtain ⟨l₁, l₂, hsplit⟩ := List.append_of_mem hmem
  have hother : ∀ d ∈ l₁ ++ l₂, (d.isRoot && d.revokedAt.isNone) = false := by
    intro d hd
    have hmem' : d ∈ s.db.credentials := by
      rw [hsplit]
      rcases List.mem_append.mp hd with hd | hd
      · exact List.mem_append_left _ hd
      · exact List.mem_append_right _ (List.mem_cons_of_mem _ hd)
    have hne : d.secretHash ≠ c.secretHash := by
      have hnodup := hk.hashes
      rw [hsplit, List.map_append, List.map_cons] at hnodup
      have hnot := (List.nodup_middle.mp hnodup).notMem
      rw [← List.map_append] at hnot
      exact fun he => hnot (he ▸ List.mem_map_of_mem hd)
    cases hr : d.isRoot with
    | false => rfl
    | true =>
        have hgone := hc.former d hmem' hr fun he => hne (he.trans hhash.symm)
        obtain ⟨at_, hat⟩ := Option.isSome_iff_exists.mp hgone
        rw [hat]
        rfl
  have hnil : ∀ l : List CredentialRow, (∀ d ∈ l, (d.isRoot && d.revokedAt.isNone) = false) →
      l.filter (fun d => d.isRoot && d.revokedAt.isNone) = [] := by
    intro l hl
    refine List.filter_eq_nil_iff.mpr fun d hd => ?_
    rw [hl d hd]
    exact Bool.false_ne_true
  unfold Building.liveRoots
  rw [hsplit, List.filter_append, List.filter_cons, hnil l₁ fun d hd => hother d (List.mem_append_left _ hd),
    hnil l₂ fun d hd => hother d (List.mem_append_right _ hd), if_pos (by rw [hroot, hlive]; rfl)]
  rfl

/-! ## What the calls write -/

theorem createCredential_db (r : Residence) (t : Occasion) (principal label : String) :
    (r.createCredential h t principal label).2.db = r.db ∨
      (∀ c ∈ r.db.credentials, (Residence.deviceRow h principal label t.token t.now).clashes c = false) ∧
      (∃ p ∈ r.db.principals, p.id = principal) ∧
      (r.createCredential h t principal label).2.db =
        { r.db with credentials := r.db.credentials ++ [Residence.deviceRow h principal label t.token t.now] } := by
  unfold Residence.createCredential
  dsimp only
  split
  · exact .inl rfl
  · next hno =>
      simp only [Bool.or_eq_true, Bool.not_eq_true', not_or, Bool.not_eq_true, Bool.not_eq_false] at hno
      obtain ⟨p, hp, hid⟩ := List.any_eq_true.mp hno.2
      refine .inr ⟨fun c hc => ?_, ⟨p, hp, of_decide_eq_true hid⟩, rfl⟩
      simpa using List.any_eq_false.mp hno.1.2 c hc

theorem revokeCredential_db (r : Residence) (t : Occasion) (principal id : String) :
    (r.revokeCredential h t principal id).2.db = r.db ∨
      ∃ c ∈ r.db.credentials, c.id = id ∧ c.isRoot = false ∧ ∃ smasters,
        (r.revokeCredential h t principal id).2.db =
          revokeSessions (fun x => x.credentialId = id) t.now { r.db with
            credentials := updateWhere (fun c => c.id = id && c.principalId = principal && c.revokedAt.isNone)
              (fun c => { c with revokedAt := some t.now }) r.db.credentials
            smasters := smasters } := by
  unfold Residence.revokeCredential
  split
  · exact .inl rfl
  · split
    · exact .inl rfl
    · next c hc =>
        obtain ⟨hfind, hlive⟩ := Option.filter_eq_some_iff.mp hc
        have hid := List.find?_some hfind
        simp only [Bool.and_eq_true, decide_eq_true_eq, Bool.not_eq_true'] at hid hlive
        exact .inr ⟨c, List.mem_of_find?_eq_some hfind, hid.1, hlive.1, _, rfl⟩

/-- No session is stored, or one that is bound to a credential in force. -/
def BindsSession (h : Digests) (t : Occasion) (db db' : Registry) : Prop :=
  db' = db ∨ ∃ secret principal c expires, credentialIdForSecret h secret db = some c ∧
    db' = savePrincipalSession h t.token principal c t.now expires db

theorem credentialIdOf_some {r : Residence} {secret c : String} (hc : r.credentialIdOf h t secret = some c) :
    credentialIdForSecret h secret r.db = some c := by
  unfold Residence.credentialIdOf at hc
  split at hc
  · cases hc
  · exact hc

theorem createSessionScoped_binds {r : Residence} {name : String} {kind : Option SenderType} {seat : Option Invite}
    {grant : Option AdminSessionGrant}
    (hgrant : ∀ g, grant = some g → ∀ c, g.credentialId = some c → ∃ secret, credentialIdForSecret h secret r.db = some c) :
    BindsSession h t r.db (r.createSessionScoped h t name kind seat grant).2.db := by
  unfold Residence.createSessionScoped
  dsimp only
  split
  · exact .inl rfl
  · generalize hr' : (if (r.sessionOf h t name kind seat grant).admin = true then _ else r) = r'
    have hdb : r'.db = r.db := by
      rw [← hr']
      split <;> rfl
    split
    · next principal c _ hc =>
        have hsecret : ∃ secret, credentialIdForSecret h secret r.db = some c := by
          cases seat with
          | some inv => exact ⟨inv.member, hdb ▸ credentialIdOf_some hc⟩
          | none =>
              obtain ⟨g, hg, hgc⟩ := Option.bind_eq_some_iff.mp hc
              exact hgrant g hg c hgc
        obtain ⟨secret, hsecret⟩ := hsecret
        split
        · exact .inl hdb
        · exact .inr ⟨secret, principal, c, _, hsecret, congrArg (savePrincipalSession h t.token principal c t.now _) hdb⟩
    · exact .inl hdb

theorem adminSessionGrant_binds {k : Locks} {r : Residence} {secret : Option String} {ttl : Nat} {g : AdminSessionGrant}
    (hg : r.adminSessionGrant k h t secret ttl = some g) {c : String} (hc : g.credentialId = some c) :
    ∃ secret, credentialIdForSecret h secret r.db = some c := by
  unfold Residence.adminSessionGrant at hg
  dsimp only at hg
  split at hg
  · cases hg
    obtain ⟨x, -, hx⟩ := Option.bind_eq_some_iff.mp hc
    exact ⟨x, credentialIdOf_some hx⟩
  · cases hg

theorem createSession_binds (k : Locks) (r : Residence) (paired : Option Nat) (admin davet : Option String)
    (name : String) (kind : Option SenderType) :
    BindsSession h t r.db (r.createSession k h t paired admin davet name kind).2.db := by
  unfold Residence.createSession
  dsimp only
  generalize (if paired.isSome = true then none else davet) = token
  let binds (x : ResidenceAnswer × Residence) : Prop := BindsSession h t r.db x.2.db
  refine iteInduction (motive := binds) (fun _ => .inl rfl) fun _ => ?_
  refine iteInduction (motive := binds) (fun _ => .inl rfl) fun _ => ?_
  refine iteInduction (motive := binds) (fun _ => .inl rfl) fun _ => ?_
  refine createSessionScoped_binds (r := { r with minted := _ }) fun g hg c hc => ?_
  cases paired with
  | some ttl =>
      cases hg
      exact ⟨_, credentialIdOf_some hc⟩
  | none =>
      dsimp only at hg
      split at hg
      · exact adminSessionGrant_binds hg hc
      · split at hg
        · exact adminSessionGrant_binds hg hc
        · cases hg

/-! ## A new root key -/

theorem isRoot_rootRow (k : Locks) (id : String) (now : Nat) : (Residence.rootRow k h id now).isRoot = true := by
  have hprefix : Text.hasPrefix "admin:" ("admin:" ++ h.secretHash k.adminToken) = true := Text.hasPrefix_iff.mpr ⟨_, rfl⟩
  simp [CredentialRow.isRoot, Residence.rootRow, hprefix]

theorem isRoot_of_same {c c' : CredentialRow} (hs : SameCredential c c') : c'.isRoot = c.isRoot := by
  unfold CredentialRow.isRoot
  rw [hs.2.2.2]

/-- The Master that a start finds, or makes. -/
def crownId (k : Locks) (h : Digests) (db : Registry) : String :=
  ((activeMasterPrincipal db).map PrincipalRow.id).getD (h.hashedId "pr_" (identityText .master k.adminToken))

/-- The credentials once the other keys' have ended. -/
def endedRoots (k : Locks) (h : Digests) (now : Nat) (db : Registry) : List CredentialRow :=
  updateWhere (Residence.formerRoot k h (crownId k h db)) (fun c => { c with revokedAt := c.revokedAt.or (some now) })
    db.credentials

/-- The tables but for the credentials. -/
def endedSessions (k : Locks) (h : Digests) (now : Nat) (db : Registry) : Registry :=
  revokeSessions
    (fun r => db.credentials.any fun c => c.id = r.credentialId && Residence.formerRoot k h (crownId k h db) c) now
    { db with
      principals := insertIgnore PrincipalRow.id ⟨crownId k h db, k.masterName, "human", .master, now, none⟩
        db.principals }

theorem ensureMasterPrincipal_eq {k : Locks} (hk : k.adminToken ≠ "") (now : Nat) (db : Registry) :
    Residence.ensureMasterPrincipal k h now db =
      if hasKey CredentialRow.id (credentialIdFor h .master k.adminToken) (endedRoots k h now db) then
        some { endedSessions k h now db with
          credentials := updateWhere (fun c => c.id = credentialIdFor h .master k.adminToken)
            (fun c => { c with revokedAt := none }) (endedRoots k h now db) }
      else if (endedRoots k h now db).any (Residence.rootRow k h (crownId k h db) now).clashes then none
      else some { endedSessions k h now db with
        credentials := endedRoots k h now db ++ [Residence.rootRow k h (crownId k h db) now] } := by
  unfold Residence.ensureMasterPrincipal
  rw [if_neg hk]
  rfl

theorem mem_endedRoots {k : Locks} {now : Nat} {c' : CredentialRow} (hc : c' ∈ endedRoots k h now db) :
    ∃ c ∈ db.credentials, SameCredential c c' ∧ (Residence.formerRoot k h (crownId k h db) c = true → c'.revokedAt.isSome) ∧
      (Residence.formerRoot k h (crownId k h db) c = false → c' = c) := by
  obtain ⟨c, hmem, rfl⟩ := mem_updateWhere.mp hc
  refine ⟨c, hmem, ?_, ?_, ?_⟩
  · split <;> exact ⟨rfl, rfl, rfl, rfl⟩
  · intro hf
    rw [if_pos hf]
    cases c.revokedAt <;> simp
  · intro hf
    rw [if_neg (by simp [hf])]

/-- A root key is refused exactly where a credential of another kind has its secret. -/
theorem ensureMasterPrincipal_none {k : Locks} (hr : Keyring h used db) (ha : SecretsApart h used) (hu : used k.adminToken)
    (hk : k.adminToken ≠ "") (now : Nat) : Residence.ensureMasterPrincipal k h now db = none ↔
      ∃ c ∈ db.credentials, c.isRoot = false ∧ c.secretHash = h.secretHash k.adminToken := by
  rw [ensureMasterPrincipal_eq hk]
  constructor
  · intro hnone
    split at hnone
    · cases hnone
    next hno =>
    split at hnone
    · next hclash =>
        obtain ⟨c', hc', hcl⟩ := List.any_eq_true.mp hclash
        obtain ⟨c, hc, hsame, -⟩ := mem_endedRoots hc'
        -- a recovery credential that clashes would have the key's own id
        have hroot : ∀ x, used x → c.id = credentialIdFor h .master x → h.secretHash x ≠ h.secretHash k.adminToken := by
          intro x hx hid he
          rw [ha.secrets x _ hx hu he] at hid
          exact hno (hasKey_iff.mpr ⟨c', hc', hsame.1.trans hid⟩)
        simp only [CredentialRow.clashes, Bool.or_eq_true, decide_eq_true_eq, Bool.and_eq_true] at hcl
        rcases hcl with (hid | hhash) | ⟨-, hsource⟩
        · exact absurd (hasKey_iff.mpr ⟨c', hc', hid⟩) hno
        · refine ⟨c, hc, ?_, hsame.2.2.1.symm.trans hhash⟩
          cases hroot' : c.isRoot with
          | false => rfl
          | true =>
              obtain ⟨x, hx, hid, hxh, -⟩ := hr.roots c hc hroot'
              exact absurd (hxh.symm.trans (hsame.2.2.1.symm.trans hhash)) (hroot x hx hid)
        · have hc'root : c.isRoot = true := by
            rw [← isRoot_of_same hsame]
            unfold CredentialRow.isRoot
            rw [hsource]
            exact isRoot_rootRow k (crownId k h db) now
          obtain ⟨x, hx, hid, hxh, hxs⟩ := hr.roots c hc hc'root
          have he : "admin:" ++ h.secretHash x = "admin:" ++ h.secretHash k.adminToken :=
            Option.some.inj (hxs.symm.trans (hsame.2.2.2.symm.trans hsource))
          exact absurd (by simpa using he) (hroot x hx hid)
    · cases hnone
  · rintro ⟨c, hc, hplain, hhash⟩
    have hno : ¬ hasKey CredentialRow.id (credentialIdFor h .master k.adminToken) (endedRoots k h now db) = true := by
      intro hkey
      obtain ⟨d', hd', hid⟩ := hasKey_iff.mp hkey
      obtain ⟨d, hd, hsame, -⟩ := mem_endedRoots hd'
      have hdid : d.id = credentialIdFor h .master k.adminToken := hsame.1.symm.trans hid
      cases hroot : d.isRoot with
      | false => exact hr.plain d hd hroot _ hu hdid
      | true =>
          obtain ⟨x, hx, hxid, hxh, -⟩ := hr.roots d hd hroot
          rw [ha.roots x _ hx hu (hxid.symm.trans hdid)] at hxh
          rw [eq_of_key hr.hashes hc hd (hhash.trans hxh.symm), hroot] at hplain
          cases hplain
    rw [if_neg hno, if_pos]
    refine List.any_eq_true.mpr ⟨c, mem_updateWhere.mpr ⟨c, hc, if_neg ?_⟩, ?_⟩
    · simp [Residence.formerRoot, hplain]
    · simp [CredentialRow.clashes, Residence.rootRow, hhash]

/-- What a start makes of the tables, once the key is accepted. -/
structure Rekeyed (h : Digests) (used : String → Prop) (k : Locks) (now : Nat) (db db' : Registry) : Prop where
  keyring : Keyring h used db'
  principals : db'.principals = insertIgnore PrincipalRow.id
    ⟨crownId k h db, k.masterName, "human", .master, now, none⟩ db.principals
  sessions : db'.sessions = (endedSessions k h now db).sessions
  plain : db'.credentials.filter (fun c => !c.isRoot) = db.credentials.filter fun c => !c.isRoot
  owner : ∀ c ∈ db'.credentials, c.isRoot = true → c.principalId = crownId k h db
  current : ∃ c ∈ db'.credentials, c.isRoot = true ∧ c.secretHash = h.secretHash k.adminToken ∧ c.revokedAt = none
  former : ∀ c ∈ db'.credentials, c.isRoot = true → c.secretHash ≠ h.secretHash k.adminToken →
    c.revokedAt.isSome ∧ ∃ d ∈ db.credentials, SameCredential d c

/-- A former key's credential is under no other key's id. -/
theorem Keyring.id_ne (hr : Keyring h used db) (ha : SecretsApart h used) {key : String} (hu : used key)
    {c : CredentialRow} (hc : c ∈ db.credentials) (hh : c.secretHash ≠ h.secretHash key) :
    c.id ≠ credentialIdFor h .master key := by
  intro hid
  cases hroot : c.isRoot with
  | false => exact hr.plain c hc hroot key hu hid
  | true =>
      obtain ⟨x, hx, hxid, hxh, -⟩ := hr.roots c hc hroot
      rw [ha.roots x key hx hu (hxid.symm.trans hid)] at hxh
      exact hh hxh

theorem endedRoots_same (k : Locks) (h : Digests) (now : Nat) (db : Registry) {α : Type} {view : CredentialRow → α}
    (hv : ∀ c r, view { c with revokedAt := r } = view c) :
    (endedRoots k h now db).map view = db.credentials.map view := map_key_updateWhere (fun c => hv c _) _

/-- Credentials of other kinds do not end. -/
theorem endedRoots_plain (k : Locks) (h : Digests) (now : Nat) (db : Registry) :
    (endedRoots k h now db).filter (fun c => !c.isRoot) = db.credentials.filter fun c => !c.isRoot := by
  refine filter_updateWhere_of_disjoint fun c _ hf => ?_
  simp only [Residence.formerRoot, Bool.and_eq_true] at hf
  exact ⟨by rw [show ({ c with revokedAt := c.revokedAt.or (some now) } : CredentialRow).isRoot = c.isRoot from rfl,
    hf.1.2]; rfl, by rw [hf.1.2]; rfl⟩

theorem formerRoot_of {k : Locks} {c : CredentialRow} (howner : c.principalId = crownId k h db) (hroot : c.isRoot = true)
    (hh : c.secretHash ≠ h.secretHash k.adminToken) : Residence.formerRoot k h (crownId k h db) c = true := by
  simp [Residence.formerRoot, howner, hroot, hh]

/-- Rows that are the old ones or the key's own, with the other keys' ended. -/
theorem Rekeyed.of_rows {k : Locks} {now : Nat} {rows : List CredentialRow} (hr : Keyring h used db) (hu : used k.adminToken)
    (howner : ∀ c ∈ db.credentials, c.isRoot = true → c.principalId = crownId k h db)
    (hids : (rows.map CredentialRow.id).Nodup) (hhashes : (rows.map CredentialRow.secretHash).Nodup)
    (hmem : ∀ c' ∈ rows, (∃ c ∈ db.credentials, SameCredential c c' ∧
      (c.isRoot = true → c.secretHash ≠ h.secretHash k.adminToken → c'.revokedAt.isSome)) ∨
      c' = Residence.rootRow k h (crownId k h db) now)
    (hplain : rows.filter (fun c => !c.isRoot) = db.credentials.filter fun c => !c.isRoot)
    (hcurrent : ∃ c ∈ rows, c.isRoot = true ∧ c.secretHash = h.secretHash k.adminToken ∧ c.revokedAt = none) :
    Rekeyed h used k now db { endedSessions k h now db with credentials := rows } where
  keyring := by
    refine ⟨nodup_insertIgnore hr.principals, hids, hhashes, nodup_updateWhere (by exact fun _ => rfl) hr.sessions,
      fun c' hc' => ?_, fun c' hc' hkind => ?_, fun c' hc' hkind => ?_⟩
    · rcases hmem c' hc' with ⟨c, hc, hsame, -⟩ | rfl
      · obtain ⟨p, hp, hid⟩ := hr.owned c hc
        exact ⟨p, mem_insertIgnore.mpr (.inl hp), hid.trans hsame.2.1.symm⟩
      · by_cases hthere : ∃ p ∈ db.principals, p.id = crownId k h db
        · obtain ⟨p, hp, hid⟩ := hthere
          exact ⟨p, mem_insertIgnore.mpr (.inl hp), hid⟩
        · exact ⟨_, mem_insertIgnore.mpr (.inr ⟨rfl, fun y hy he => hthere ⟨y, hy, he⟩⟩), rfl⟩
    · rcases hmem c' hc' with ⟨c, hc, hsame, -⟩ | rfl
      · rw [hsame.1]
        exact hr.plain c hc (isRoot_of_same hsame ▸ hkind)
      · rw [isRoot_rootRow] at hkind
        cases hkind
    · rcases hmem c' hc' with ⟨c, hc, hsame, -⟩ | rfl
      · rw [hsame.1, hsame.2.2.1, hsame.2.2.2]
        exact hr.roots c hc (isRoot_of_same hsame ▸ hkind)
      · exact ⟨k.adminToken, hu, rfl, rfl, rfl⟩
  principals := rfl
  sessions := rfl
  plain := hplain
  owner := by
    intro c' hc' hroot
    rcases hmem c' hc' with ⟨c, hc, hsame, -⟩ | rfl
    · rw [hsame.2.1]
      exact howner c hc (isRoot_of_same hsame ▸ hroot)
    · rfl
  current := hcurrent
  former := by
    intro c' hc' hroot hh
    rcases hmem c' hc' with ⟨c, hc, hsame, hended⟩ | rfl
    · rw [hsame.2.2.1] at hh
      exact ⟨hended (isRoot_of_same hsame ▸ hroot) hh, c, hc, hsame⟩
    · exact absurd rfl hh

theorem ensureMasterPrincipal_rekeyed {k : Locks} {now : Nat} {db' : Registry} (hr : Keyring h used db)
    (ha : SecretsApart h used) (hu : used k.adminToken) (hk : k.adminToken ≠ "")
    (howner : ∀ c ∈ db.credentials, c.isRoot = true → c.principalId = crownId k h db)
    (hs : Residence.ensureMasterPrincipal k h now db = some db') : Rekeyed h used k now db db' := by
  have hids : ((endedRoots k h now db).map CredentialRow.id).Nodup := by
    rw [endedRoots_same k h now db (by exact fun _ _ => rfl)]
    exact hr.ids
  have hhashes : ((endedRoots k h now db).map CredentialRow.secretHash).Nodup := by
    rw [endedRoots_same k h now db (by exact fun _ _ => rfl)]
    exact hr.hashes
  have hended : ∀ c' ∈ endedRoots k h now db, ∃ c ∈ db.credentials, SameCredential c c' ∧
      (c.isRoot = true → c.secretHash ≠ h.secretHash k.adminToken → c'.revokedAt.isSome) := by
    intro c' hc'
    obtain ⟨c, hc, hsame, hend, -⟩ := mem_endedRoots hc'
    exact ⟨c, hc, hsame, fun hroot hh => hend (formerRoot_of (howner c hc hroot) hroot hh)⟩
  rw [ensureMasterPrincipal_eq hk] at hs
  split at hs
  · next hkey =>
      cases hs
      -- the key's credential is there, and comes back into force
      obtain ⟨d, hd, hid⟩ := hasKey_iff.mp hkey
      obtain ⟨c₀, hc₀, hsame₀, -⟩ := hended d hd
      have hid₀ : c₀.id = credentialIdFor h .master k.adminToken := hsame₀.1.symm.trans hid
      have hroot₀ : c₀.isRoot = true := by
        cases hroot : c₀.isRoot with
        | true => rfl
        | false => exact absurd hid₀ (hr.plain c₀ hc₀ hroot _ hu)
      have hhash₀ : c₀.secretHash = h.secretHash k.adminToken := by
        by_contra hne
        exact hr.id_ne ha hu hc₀ hne hid₀
      refine .of_rows hr hu howner (nodup_updateWhere (by exact fun _ => rfl) hids)
        (nodup_updateWhere (by exact fun _ => rfl) hhashes) (fun c' hc' => .inl ?_) ?_ ?_
      · obtain ⟨e, he, rfl⟩ := mem_updateWhere.mp hc'
        obtain ⟨c, hc, hsame, hend⟩ := hended e he
        refine ⟨c, hc, ?_, fun hroot hh => ?_⟩
        · split
          · exact hsame
          · exact hsame
        · have hne : ¬ e.id = credentialIdFor h .master k.adminToken := by
            rw [hsame.1]
            exact hr.id_ne ha hu hc hh
          rw [if_neg (by simpa using hne)]
          exact hend hroot hh
      · rw [filter_updateWhere_of_disjoint, endedRoots_plain]
        intro e he hide
        have hroot : e.isRoot = true := by
          rw [eq_of_key hids he hd ((of_decide_eq_true hide).trans hid.symm), isRoot_of_same hsame₀]
          exact hroot₀
        exact ⟨by rw [show ({ e with revokedAt := none } : CredentialRow).isRoot = e.isRoot from rfl, hroot]; rfl,
          by rw [hroot]; rfl⟩
      · exact ⟨{ d with revokedAt := none }, mem_updateWhere.mpr ⟨d, hd, if_pos (decide_eq_true hid)⟩,
          (isRoot_of_same hsame₀).trans hroot₀, hsame₀.2.2.1.trans hhash₀, rfl⟩
  · split at hs
    · cases hs
    · next hclash =>
        cases hs
        have hnew : ∀ c ∈ endedRoots k h now db, c.id ≠ credentialIdFor h .master k.adminToken ∧
            c.secretHash ≠ h.secretHash k.adminToken := by
          intro c hc
          have hno := List.any_eq_false.mp (Bool.eq_false_iff.mpr hclash) c hc
          simp only [CredentialRow.clashes, Bool.not_eq_true, Bool.or_eq_false_iff, decide_eq_false_iff_not] at hno
          exact hno.1
        refine .of_rows hr hu howner (nodup_append_new hids fun c hc => (hnew c hc).1)
          (nodup_append_new hhashes fun c hc => (hnew c hc).2) (fun c' hc' => ?_) ?_ ?_
        · rcases List.mem_append.mp hc' with hc' | hc'
          · exact .inl (hended c' hc')
          · exact .inr (List.mem_singleton.mp hc')
        · rw [List.filter_append, endedRoots_plain, List.filter_cons_of_neg (by rw [isRoot_rootRow]; decide),
            List.filter_nil, List.append_nil]
        · exact ⟨_, List.mem_append_right _ (List.mem_singleton.mpr rfl), isRoot_rootRow _ _ _, rfl, rfl⟩

/-! ## The reign -/

theorem crownId_of_masters {k : Locks} (hm : masters db = [p]) : crownId k h db = p.id := by
  have hhead : (masters db).head? = activeMasterPrincipal db := List.head?_filter
  unfold crownId
  rw [← hhead, hm]
  rfl

theorem Unclaimed.masters (hc : Unclaimed h used s) : masters s.db = [] := by
  refine List.filter_eq_nil_iff.mpr fun p hp => ?_
  simp [hc.ranks p hp]

theorem Unclaimed.crownId (hc : Unclaimed h used s) (k : Locks) :
    crownId k h s.db = principalIdOf h .master k.adminToken := by
  have hhead : (Building.masters s.db).head? = activeMasterPrincipal s.db := List.head?_filter
  unfold Building.crownId
  rw [← hhead, hc.masters]
  rfl

/-- The Master is in the table already, or comes into it last. -/
theorem masters_insertIgnore {id name : String} {now : Nat} :
    (insertIgnore PrincipalRow.id ⟨id, name, "human", .master, now, none⟩ db.principals).filter
        (fun p => p.buildingRole = .master && p.disabledAt.isNone) =
      if hasKey PrincipalRow.id id db.principals then masters db
      else masters db ++ [⟨id, name, "human", .master, now, none⟩] := by
  unfold insertIgnore
  split
  · rfl
  · rw [List.filter_append]
    rfl

theorem Rekeyed.crowned {k : Locks} {now : Nat} {db' : Registry} (hr : Rekeyed h used k now db db')
    (hk : k.adminToken ≠ "") (hu : used k.adminToken) (hm : masters db' = [p]) (hid : p.id = crownId k h db)
    (howner : ∀ c ∈ db.credentials, c.isRoot = true → c.principalId = crownId k h db) : Crowned h used p ⟨db', k⟩ where
  key := hk
  given := hu
  masters := hm
  owner c hc hroot := (hr.owner c hc hroot).trans hid.symm
  current := hr.current
  former c hc hroot hh := (hr.former c hc hroot hh).1
  sessions := by
    intro r' hr' c hc hcid hroot hh
    obtain ⟨-, d, hd, hsame⟩ := hr.former c hc hroot hh
    rw [hr.sessions] at hr'
    obtain ⟨r, hrow, rfl⟩ := mem_updateWhere.mp hr'
    have hdroot : d.isRoot = true := (isRoot_of_same hsame).symm.trans hroot
    have hformer := formerRoot_of (howner d hd hdroot) hdroot (hsame.2.2.1 ▸ hh)
    split at hcid
    · next hp =>
        rw [if_pos hp]
        rfl
    · next hp =>
        rw [if_neg hp]
        have hany : (db.credentials.any fun c => c.id = r.credentialId && Residence.formerRoot k h (Building.crownId k h db) c) =
            true := List.any_eq_true.mpr ⟨d, hd, by rw [hformer, decide_eq_true (hsame.1.symm.trans hcid)]; rfl⟩
        dsimp only at hp
        rw [hany, Bool.true_and, Bool.not_eq_true, Option.isNone_eq_false_iff] at hp
        exact hp

/-- A start with a key: the Master stays, or is made. -/
theorem Crowned.rotated {k : Locks} {now : Nat} {db' : Registry} (hr : Keyring h used s.db) (ha : SecretsApart h used)
    (hc : Crowned h used p s) (hk : k.adminToken ≠ "") (hu : used k.adminToken)
    (hs : Residence.ensureMasterPrincipal k h now s.db = some db') : Keyring h used db' ∧ Crowned h used p ⟨db', k⟩ := by
  have hid := crownId_of_masters (k := k) (h := h) hc.masters
  have howner : ∀ c ∈ s.db.credentials, c.isRoot = true → c.principalId = crownId k h s.db :=
    fun c hmem hroot => (hc.owner c hmem hroot).trans hid.symm
  have hre := ensureMasterPrincipal_rekeyed hr ha hu hk howner hs
  refine ⟨hre.keyring, hre.crowned hk hu ?_ hid.symm howner⟩
  have hp : p ∈ Building.masters s.db := by
    rw [hc.masters]
    exact List.mem_singleton.mpr rfl
  have hp := (List.mem_filter.mp hp).1
  unfold Building.masters
  rw [hre.principals, masters_insertIgnore, if_pos (hasKey_iff.mpr ⟨p, hp, hid.symm⟩)]
  exact hc.masters

theorem Unclaimed.rotated {k : Locks} {now : Nat} {db' : Registry} (hr : Keyring h used s.db) (ha : SecretsApart h used)
    (hc : Unclaimed h used s) (hk : k.adminToken ≠ "") (hu : used k.adminToken)
    (hs : Residence.ensureMasterPrincipal k h now s.db = some db') :
    Keyring h used db' ∧ ∃ p, Crowned h used p ⟨db', k⟩ := by
  have howner : ∀ c ∈ s.db.credentials, c.isRoot = true → c.principalId = Building.crownId k h s.db := by
    intro c hmem hroot
    rw [hc.sources c hmem] at hroot
    cases hroot
  have hre := ensureMasterPrincipal_rekeyed hr ha hu hk howner hs
  refine ⟨hre.keyring, ⟨Building.crownId k h s.db, k.masterName, "human", .master, now, none⟩,
    hre.crowned hk hu ?_ rfl howner⟩
  have hno : ¬ hasKey PrincipalRow.id (Building.crownId k h s.db) s.db.principals = true := by
    intro hkey
    obtain ⟨q, hq, hid⟩ := hasKey_iff.mp hkey
    exact hc.free q hq k.adminToken hu (hid.trans (hc.crownId k))
  unfold Building.masters
  rw [hre.principals, masters_insertIgnore, if_neg hno, hc.masters]
  rfl

/-! ## In between -/

/-- What holds of the tables at every moment. -/
structure Upheld (h : Digests) (used : String → Prop) (s : Recovery) : Prop where
  keyring : Keyring h used s.db
  reign : Unclaimed h used s ∨ ∃ p, Crowned h used p s

/-- A secret is one of those that are told apart; a session's is new. -/
def Recovery.Admitted (h : Digests) (used : String → Prop) (s : Recovery) : Occasion × RecoveryInput → Prop
  | (_, .rotate root _) => used root ∧ root ≠ ""
  | (t, .createSession ..) => ∀ r ∈ s.db.sessions, r.id ≠ h.secretHash t.token
  | (t, .createCredential ..) => used t.token
  | (_, .revokeCredential ..) => True

theorem Keyring.binds {db' : Registry} (hr : Keyring h used db) (hb : BindsSession h t db db') : Keyring h used db' := by
  rcases hb with rfl | ⟨secret, principal, c, expires, -, rfl⟩
  · exact hr
  · exact ⟨hr.principals, hr.ids, hr.hashes, nodup_upsert hr.sessions, hr.owned, hr.plain, hr.roots⟩

theorem Crowned.binds {db' : Registry} (hr : Keyring h used s.db) (hc : Crowned h used p s)
    (hb : BindsSession h t s.db db') : Crowned h used p { s with db := db' } := by
  rcases hb with rfl | ⟨secret, principal, c, expires, hread, rfl⟩
  · exact hc
  · refine ⟨hc.key, hc.given, hc.masters, hc.owner, hc.current, hc.former, fun r hmem d hd hid hroot hh => ?_⟩
    rcases mem_upsert.mp hmem with ⟨hold, -⟩ | rfl
    · exact hc.sessions r hold d hd hid hroot hh
    · -- the credential was in force when it was read, so it is no former key's
      obtain ⟨e, hfind, rfl⟩ := Option.map_eq_some_iff.mp hread
      have hlive := List.find?_some hfind
      simp only [Bool.and_eq_true, decide_eq_true_eq, Option.isNone_iff_eq_none] at hlive
      rw [← eq_of_key hr.ids hd (List.mem_of_find?_eq_some hfind) hid] at hlive
      have hended := hc.former d hd hroot hh
      rw [hlive.2] at hended
      cases hended

/-- A row of another kind than a recovery credential. -/
theorem Crowned.newCredential {row : CredentialRow} (hc : Crowned h used p s) (hrow : row.isRoot = false) :
    Crowned h used p { s with db := { s.db with credentials := s.db.credentials ++ [row] } } := by
  have hold : ∀ c ∈ s.db.credentials ++ [row], c.isRoot = true → c ∈ s.db.credentials := by
    intro c hmem hroot
    rcases List.mem_append.mp hmem with hmem | hmem
    · exact hmem
    · rw [List.mem_singleton.mp hmem, hrow] at hroot
      cases hroot
  obtain ⟨c, hmem, hcur⟩ := hc.current
  exact ⟨hc.key, hc.given, hc.masters, fun c hc' hroot => hc.owner c (hold c hc' hroot) hroot,
    ⟨c, List.mem_append_left _ hmem, hcur⟩, fun c hc' hroot => hc.former c (hold c hc' hroot) hroot,
    fun r hr c hc' hid hroot => hc.sessions r hr c (hold c hc' hroot) hid hroot⟩

theorem Upheld.createCredential (hk : Upheld h used s) (ha : SecretsApart h used) (hu : used t.token)
    (principal label : String) :
    Upheld h used { s with db := (s.hub.createCredential h t principal label).2.db } := by
  rcases createCredential_db s.hub t principal label with hsame | ⟨hclash, hown, hdb⟩
  · rw [hsame]
    exact hk
  · rw [hdb]
    have hrow : (Residence.deviceRow h principal label t.token t.now).isRoot = false := rfl
    have hr := hk.keyring
    have hnew : ∀ c ∈ s.db.credentials, c.id ≠ (Residence.deviceRow h principal label t.token t.now).id ∧
        c.secretHash ≠ (Residence.deviceRow h principal label t.token t.now).secretHash := by
      intro c hc
      have hno := hclash c hc
      simp only [CredentialRow.clashes, Bool.or_eq_false_iff, decide_eq_false_iff_not] at hno
      exact hno.1
    refine ⟨⟨hr.principals, nodup_append_new hr.ids fun c hc => (hnew c hc).1,
      nodup_append_new hr.hashes fun c hc => (hnew c hc).2, hr.sessions, fun c hc => ?_, fun c hc hkind x hx => ?_,
      fun c hc hkind => ?_⟩, ?_⟩
    · rcases List.mem_append.mp hc with hc | hc
      · exact hr.owned c hc
      · rw [List.mem_singleton.mp hc]
        exact hown
    · rcases List.mem_append.mp hc with hc | hc
      · exact hr.plain c hc hkind x hx
      · rw [List.mem_singleton.mp hc]
        exact (ha.devices x t.token hx hu).symm
    · rcases List.mem_append.mp hc with hc | hc
      · exact hr.roots c hc hkind
      · rw [List.mem_singleton.mp hc, hrow] at hkind
        cases hkind
    · refine hk.reign.imp (fun hc => ⟨hc.key, hc.ranks, fun c hmem => ?_, hc.free⟩) fun hc =>
        hc.imp fun _ hc => hc.newCredential hrow
      rcases List.mem_append.mp hmem with hmem | hmem
      · exact hc.sources c hmem
      · rw [List.mem_singleton.mp hmem]
        exact hrow

/-- Revoking touches no recovery credential. -/
theorem revoked_row {q : CredentialRow → Bool} {at_ : Nat} {c' : CredentialRow}
    (hc : c' ∈ updateWhere q (fun c => { c with revokedAt := some at_ }) db.credentials)
    (hq : ∀ c ∈ db.credentials, q c = true → c.isRoot = false) :
    ∃ c ∈ db.credentials, SameCredential c c' ∧ (c.isRoot = true → c' = c) := by
  obtain ⟨c, hmem, rfl⟩ := mem_updateWhere.mp hc
  refine ⟨c, hmem, ?_, fun hroot => if_neg fun hqc => ?_⟩
  · split <;> exact ⟨rfl, rfl, rfl, rfl⟩
  · rw [hq c hmem hqc] at hroot
    cases hroot

theorem Upheld.revokeCredential (hk : Upheld h used s) (principal id : String) :
    Upheld h used { s with db := (s.hub.revokeCredential h t principal id).2.db } := by
  rcases revokeCredential_db s.hub t principal id with hsame | ⟨c₀, hc₀, hid₀, hplain₀, smasters, hdb⟩
  · rw [hsame]
    exact hk
  · rw [hdb]
    have hr := hk.keyring
    have hq : ∀ c ∈ s.db.credentials, (c.id = id && c.principalId = principal && c.revokedAt.isNone) = true →
        c.isRoot = false := by
      intro c hc hq
      simp only [Bool.and_eq_true, decide_eq_true_eq] at hq
      rw [eq_of_key hr.ids hc hc₀ (hq.1.1.trans hid₀.symm)]
      exact hplain₀
    refine ⟨⟨hr.principals, nodup_updateWhere (by exact fun _ => rfl) hr.ids, nodup_updateWhere (by exact fun _ => rfl) hr.hashes,
      nodup_updateWhere (by exact fun _ => rfl) hr.sessions, fun c' hc' => ?_, fun c' hc' hkind => ?_, fun c' hc' hkind => ?_⟩, ?_⟩
    · obtain ⟨c, hc, hsame, -⟩ := revoked_row hc' hq
      rw [hsame.2.1]
      exact hr.owned c hc
    · obtain ⟨c, hc, hsame, -⟩ := revoked_row hc' hq
      rw [hsame.1]
      exact hr.plain c hc (isRoot_of_same hsame ▸ hkind)
    · obtain ⟨c, hc, hsame, -⟩ := revoked_row hc' hq
      rw [hsame.1, hsame.2.2.1, hsame.2.2.2]
      exact hr.roots c hc (isRoot_of_same hsame ▸ hkind)
    · refine hk.reign.imp (fun hc => ⟨hc.key, hc.ranks, fun c' hc' => ?_, hc.free⟩) fun ⟨p, hc⟩ => ⟨p, ?_⟩
      · obtain ⟨c, hmem, hsame, -⟩ := revoked_row hc' hq
        rw [isRoot_of_same hsame]
        exact hc.sources c hmem
      · have hold : ∀ c' ∈ updateWhere (fun c => c.id = id && c.principalId = principal && c.revokedAt.isNone)
            (fun c => { c with revokedAt := some t.now }) s.db.credentials, c'.isRoot = true → c' ∈ s.db.credentials := by
          intro c' hc' hroot
          obtain ⟨c, hmem, hsame, heq⟩ := revoked_row hc' hq
          rw [heq (isRoot_of_same hsame ▸ hroot)]
          exact hmem
        obtain ⟨c, hmem, hroot, hcur⟩ := hc.current
        refine ⟨hc.key, hc.given, hc.masters, fun c' hc' hroot => hc.owner c' (hold c' hc' hroot) hroot, ⟨c, ?_, hroot, hcur⟩,
          fun c' hc' hroot => hc.former c' (hold c' hc' hroot) hroot, fun r' hr' c' hc' hcid hroot hh => ?_⟩
        · refine mem_updateWhere.mpr ⟨c, hmem, if_neg fun hqc => ?_⟩
          rw [hq c hmem hqc] at hroot
          cases hroot
        · obtain ⟨r, hrow, rfl⟩ := mem_updateWhere.mp hr'
          have hrid : c'.id = r.credentialId := by
            split at hcid <;> exact hcid
          have hended := hc.sessions r hrow c' (hold c' hc' hroot) hrid hroot hh
          split
          · rfl
          · exact hended

theorem Upheld.rotate (hk : Upheld h used s) (ha : SecretsApart h used) {root name : String} (hu : used root)
    (hne : root ≠ "") : Upheld h used (s.rotate h t root name).2 := by
  unfold Recovery.rotate
  dsimp only
  split
  · exact hk
  · next db' hs =>
      split at hs
      · cases hs
      · rcases hk.reign with hc | ⟨p, hc⟩
        · obtain ⟨hr, p, hc'⟩ := hc.rotated hk.keyring ha hne hu hs
          exact ⟨hr, .inr ⟨p, hc'⟩⟩
        · obtain ⟨hr, hc'⟩ := hc.rotated hk.keyring ha hne hu hs
          exact ⟨hr, .inr ⟨p, hc'⟩⟩

/-- What one step preserves. -/
theorem Upheld.step (hk : Upheld h used s) (ha : SecretsApart h used) {i : Occasion × RecoveryInput}
    (hi : s.Admitted h used i) : Upheld h used (s.step h i.1 i.2).2 := by
  obtain ⟨t, i⟩ := i
  cases i with
  | rotate root name => exact hk.rotate ha hi.1 hi.2
  | createSession paired admin davet name kind =>
      have hb : BindsSession h t s.db (s.hub.createSession s.locks h t paired admin davet name kind).2.db :=
        createSession_binds s.locks s.hub paired admin davet name kind
      refine ⟨hk.keyring.binds hb, hk.reign.imp (fun hc => ?_) fun ⟨p, hc⟩ => ⟨p, hc.binds hk.keyring hb⟩⟩
      change Unclaimed h used { s with db := (s.hub.createSession s.locks h t paired admin davet name kind).2.db }
      rcases hb with hsame | ⟨secret, principal, c, expires, -, hdb⟩
      · rw [hsame]
        exact hc
      · rw [hdb]
        exact ⟨hc.key, hc.ranks, hc.sources, hc.free⟩
  | createCredential principal label => exact hk.createCredential ha hi principal label
  | revokeCredential principal id => exact hk.revokeCredential principal id

end

/-- The store before the first root key is given, and the calls on it. -/
def recovery (h : Digests) (used : String → Prop) : Sys.Machine Recovery (Occasion × RecoveryInput) ResidenceAnswer where
  init s := Keyring h used s.db ∧ Unclaimed h used s
  step s i := s.step h i.1 i.2

section

variable {h : Digests} {used : String → Prop} {t : Occasion} {s s' : Recovery} {db : Registry} {p : PrincipalRow}

/-- What a whole run preserves. -/
theorem run_kept (ha : SecretsApart h used) {tr : List ((Occasion × RecoveryInput) × ResidenceAnswer)}
    (r : Sys.Run (recovery h used) (Recovery.Admitted h used) tr s) : Upheld h used s :=
  Sys.Run.invariant (fun _ hs => ⟨hs.1, .inl hs.2⟩) (fun _ _ hk hi => hk.step ha hi) r

/-! ## What lasts -/

/-- The session has ended. -/
def SessionOver (x : String) (db : Registry) : Prop :=
  (∃ r ∈ db.sessions, r.id = x) ∧ ∀ r ∈ db.sessions, r.id = x → r.revokedAt.isSome

theorem SessionOver.inactive {secret : String} (he : SessionOver (h.secretHash secret) db) (now : Nat) :
    principalSessionActive h secret now db = false := by
  unfold principalSessionActive
  rw [Bool.and_eq_false_iff]
  refine .inr (List.any_eq_false.mpr fun r hr => ?_)
  simp only [Bool.and_eq_true, decide_eq_true_eq, not_and]
  intro hid
  have hended := he.2 r hr hid
  obtain ⟨at_, hat⟩ := Option.isSome_iff_exists.mp hended
  simp [SessionRow.inForce, hat]

theorem SessionOver.revoke {x : String} (he : SessionOver x db) {rows : List SessionRow} {q : SessionRow → Bool} {at_ : Nat}
    (hrows : rows = updateWhere q (fun r => { r with revokedAt := some at_ }) db.sessions) :
    (∃ r ∈ rows, r.id = x) ∧ ∀ r ∈ rows, r.id = x → r.revokedAt.isSome := by
  subst hrows
  obtain ⟨⟨r, hr, hid⟩, hall⟩ := he
  refine ⟨⟨_, mem_updateWhere.mpr ⟨r, hr, rfl⟩, ?_⟩, fun r' hr' hid' => ?_⟩
  · split <;> exact hid
  · obtain ⟨r, hr, rfl⟩ := mem_updateWhere.mp hr'
    split
    · rfl
    · next hno =>
        rw [if_neg hno] at hid'
        exact hall r hr hid'

/-- An ended session stays ended: its secret is not drawn again. -/
theorem SessionOver.step {x : String} (he : SessionOver x s.db) {i : Occasion × RecoveryInput} (hi : s.Admitted h used i) :
    SessionOver x (s.step h i.1 i.2).2.db := by
  obtain ⟨t, i⟩ := i
  cases i with
  | rotate root name =>
      change SessionOver x (s.rotate h t root name).2.db
      unfold Recovery.rotate
      dsimp only
      split
      · exact he
      · next db' hs =>
          split at hs
          · cases hs
          · unfold Residence.ensureMasterPrincipal at hs
            dsimp only at hs
            split at hs
            · cases hs
              exact he
            · split at hs
              · cases hs
                exact he.revoke rfl
              · split at hs
                · cases hs
                · cases hs
                  exact he.revoke rfl
  | createSession paired admin davet name kind =>
      change SessionOver x (s.hub.createSession s.locks h t paired admin davet name kind).2.db
      rcases createSession_binds (h := h) (t := t) s.locks s.hub paired admin davet name kind with
        hsame | ⟨secret, principal, c, expires, -, hdb⟩
      · rw [hsame]
        exact he
      · rw [hdb]
        obtain ⟨⟨r, hr, hid⟩, hall⟩ := he
        have hfresh : r.id ≠ h.secretHash t.token := hi r hr
        refine ⟨⟨r, mem_upsert.mpr (.inl ⟨hr, hfresh⟩), hid⟩, fun r' hr' hid' => ?_⟩
        rcases mem_upsert.mp hr' with ⟨hold, -⟩ | rfl
        · exact hall r' hold hid'
        · exact absurd (hid.trans hid'.symm) hfresh
  | createCredential principal label =>
      change SessionOver x (s.hub.createCredential h t principal label).2.db
      rcases createCredential_db (h := h) s.hub t principal label with hsame | ⟨-, -, hdb⟩
      · rw [hsame]
        exact he
      · rw [hdb]
        exact he
  | revokeCredential principal id =>
      change SessionOver x (s.hub.revokeCredential h t principal id).2.db
      rcases revokeCredential_db (h := h) s.hub t principal id with hsame | ⟨-, -, -, -, smasters, hdb⟩
      · rw [hsame]
        exact he
      · rw [hdb]
        exact he.revoke rfl

/-- The Master is the same row from then on. -/
theorem masters_step (hm : masters s.db = [p]) (i : Occasion × RecoveryInput) :
    masters (s.step h i.1 i.2).2.db = [p] := by
  obtain ⟨t, i⟩ := i
  cases i with
  | rotate root name =>
      change masters (s.rotate h t root name).2.db = [p]
      have hmem : p ∈ masters s.db := by
        rw [hm]
        exact List.mem_singleton.mpr rfl
      unfold Recovery.rotate
      dsimp only
      split
      · exact hm
      · next db' hs =>
          split at hs
          · cases hs
          · by_cases hroot : root = ""
            · rw [Residence.ensureMasterPrincipal, if_pos hroot] at hs
              cases hs
              exact hm
            · have hprincipals : ∀ (rows : List CredentialRow) (k : Locks),
                  masters { endedSessions k h t.now s.db with credentials := rows } = [p] := by
                intro rows k
                refine Eq.trans masters_insertIgnore ?_
                rw [crownId_of_masters hm, if_pos (hasKey_iff.mpr ⟨p, (List.mem_filter.mp hmem).1, rfl⟩)]
                exact hm
              rw [ensureMasterPrincipal_eq (by exact hroot)] at hs
              split at hs
              · cases hs
                exact hprincipals _ _
              · split at hs
                · cases hs
                · cases hs
                  exact hprincipals _ _
  | createSession paired admin davet name kind =>
      change masters (s.hub.createSession s.locks h t paired admin davet name kind).2.db = [p]
      rcases createSession_binds (h := h) (t := t) s.locks s.hub paired admin davet name kind with
        hsame | ⟨secret, principal, c, expires, -, hdb⟩
      · rw [hsame]
        exact hm
      · rw [hdb]
        exact hm
  | createCredential principal label =>
      change masters (s.hub.createCredential h t principal label).2.db = [p]
      rcases createCredential_db (h := h) s.hub t principal label with hsame | ⟨-, -, hdb⟩
      · rw [hsame]
        exact hm
      · rw [hdb]
        exact hm
  | revokeCredential principal id =>
      change masters (s.hub.revokeCredential h t principal id).2.db = [p]
      rcases revokeCredential_db (h := h) s.hub t principal id with hsame | ⟨-, -, -, -, smasters, hdb⟩
      · rw [hsame]
        exact hm
      · rw [hdb]
        exact hm

/-! ## What a start leaves alone -/

theorem any_of_key {ρ κ : Type} [DecidableEq κ] {key : ρ → κ} {l : List ρ} (hl : (l.map key).Nodup) {x : ρ} (hx : x ∈ l)
    (q : ρ → Bool) : (l.any fun y => decide (key y = key x) && q y) = q x := by
  cases hq : q x with
  | true => exact List.any_eq_true.mpr ⟨x, hx, by simp [hq]⟩
  | false =>
      refine List.any_eq_false.mpr fun y hy => ?_
      simp only [Bool.and_eq_true, decide_eq_true_eq, not_and]
      intro hkey
      rw [eq_of_key hl hy hx hkey, hq]
      exact Bool.false_ne_true

theorem principalSessionActive_of_mem (hs : (db.sessions.map SessionRow.id).Nodup) {r : SessionRow} (hr : r ∈ db.sessions)
    {secret : String} (hid : h.secretHash secret = r.id) (now : Nat) :
    principalSessionActive h secret now db = (decide (Storable now) && r.inForce now db) := by
  unfold principalSessionActive
  rw [hid, any_of_key hs hr]

/-- Whether the session of a credential is in force, from the credential's row and its principal's. -/
theorem inForce_eq (hr : Keyring h used db) {r : SessionRow} {c : CredentialRow} (hc : c ∈ db.credentials)
    (hid : c.id = r.credentialId) {q : PrincipalRow} (hq : q ∈ db.principals) (hown : q.id = c.principalId) (now : Nat) :
    r.inForce now db = (r.revokedAt.isNone && (r.expiresAt = 0 || now < r.expiresAt) &&
      (decide (c.principalId = r.principalId) && c.revokedAt.isNone) && q.disabledAt.isNone) := by
  have hcredentials : (db.credentials.any fun x => x.id = r.credentialId && x.principalId = r.principalId &&
      x.revokedAt.isNone) = (decide (c.principalId = r.principalId) && c.revokedAt.isNone) := by
    rw [← hid, ← any_of_key hr.ids hc fun x => decide (x.principalId = r.principalId) && x.revokedAt.isNone]
    simp only [Bool.and_assoc]
  unfold SessionRow.inForce
  rw [hcredentials]
  by_cases hp : c.principalId = r.principalId
  · rw [← hp, ← hown, any_of_key hr.principals hq]
  · simp [hp]

/-- A start with an accepted key leaves a session of another kind of credential as it is. -/
theorem Rekeyed.inForce {k : Locks} {now at_ : Nat} {db' : Registry} (hre : Rekeyed h used k now db db')
    (hr : Keyring h used db) {r : SessionRow} {c : CredentialRow} (hrow : r ∈ db.sessions) (hc : c ∈ db.credentials)
    (hid : c.id = r.credentialId) (hplain : c.isRoot = false) :
    r ∈ db'.sessions ∧ r.inForce at_ db' = r.inForce at_ db := by
  have hc' : c ∈ db'.credentials := by
    have hmem : c ∈ db.credentials.filter fun c => !c.isRoot := List.mem_filter.mpr ⟨hc, by rw [hplain]; rfl⟩
    rw [← hre.plain] at hmem
    exact (List.mem_filter.mp hmem).1
  obtain ⟨q, hq, hown⟩ := hr.owned c hc
  have hq' : q ∈ db'.principals := by
    rw [hre.principals]
    exact mem_insertIgnore.mpr (.inl hq)
  refine ⟨?_, by rw [inForce_eq hre.keyring hc' hid hq' hown, inForce_eq hr hc hid hq hown]⟩
  rw [hre.sessions]
  refine mem_updateWhere.mpr ⟨r, hrow, if_neg fun hp => ?_⟩
  simp only [Bool.and_eq_true, List.any_eq_true, decide_eq_true_eq] at hp
  obtain ⟨⟨d, hd, hdid, hformer⟩, -⟩ := hp
  rw [eq_of_key hr.ids hd hc (hdid.trans hid.symm)] at hformer
  simp [Residence.formerRoot, hplain] at hformer

end

/-! ## The law -/

/-- What holds of the tables at one moment and at a later one. -/
structure RecoveryLaw (h : Digests) (s s' : Recovery) : Prop where
  /-- There is one Master, who stays. -/
  master : s.locks.adminToken ≠ "" → ∃ p, masters s.db = [p] ∧ masters s'.db = [p]
  /-- One recovery credential is in force, that of the key that was accepted last. -/
  root : s'.locks.adminToken ≠ "" → ∃ c, liveRoots s'.db = [c] ∧ c.secretHash = h.secretHash s'.locks.adminToken
  /-- A session of another key's credential is over for good. -/
  ended : s.locks.adminToken ≠ "" → ∀ r ∈ s.db.sessions, ∀ c ∈ s.db.credentials, c.id = r.credentialId →
    c.isRoot = true → c.secretHash ≠ h.secretHash s.locks.adminToken →
    ∀ secret now, h.secretHash secret = r.id → principalSessionActive h secret now s'.db = false

/-- What a start with a root key does. -/
structure RotateLaw (h : Digests) (t : Occasion) (root name : String) (s : Recovery) : Prop where
  accepted : (s.rotate h t root name).1 = .done ↔ t.refuses .boot = false ∧
    ∀ c ∈ s.db.credentials, c.secretHash = h.secretHash root → c.isRoot = true
  current : (s.rotate h t root name).1 = .done → (s.rotate h t root name).2.locks.adminToken = root
  refused : (s.rotate h t root name).1 ≠ .done → (s.rotate h t root name).2 = s
  keys : (s.rotate h t root name).2.db.credentials.filter (fun c => !c.isRoot) =
    s.db.credentials.filter fun c => !c.isRoot
  sessions : ∀ r ∈ s.db.sessions, (∃ c ∈ s.db.credentials, c.id = r.credentialId ∧ c.isRoot = false) →
    ∀ secret now, h.secretHash secret = r.id →
      principalSessionActive h secret now (s.rotate h t root name).2.db = principalSessionActive h secret now s.db

section

variable {h : Digests} {used : String → Prop} {t : Occasion} {s : Recovery}

theorem Upheld.owner (hk : Upheld h used s) (k : Locks) :
    ∀ c ∈ s.db.credentials, c.isRoot = true → c.principalId = crownId k h s.db := by
  intro c hc hroot
  rcases hk.reign with hu | ⟨p, hp⟩
  · rw [hu.sources c hc] at hroot
    cases hroot
  · exact (hp.owner c hc hroot).trans (crownId_of_masters hp.masters).symm

theorem Upheld.rotateLaw (hk : Upheld h used s) (ha : SecretsApart h used) {root name : String} (hu : used root)
    (hne : root ≠ "") : RotateLaw h t root name s := by
  have hnone := @ensureMasterPrincipal_none h used s.db { s.locks with adminToken := root, masterName := name }
    hk.keyring ha hu hne t.now
  cases hboot : t.refuses .boot with
  | true =>
      have hsame : s.rotate h t root name = (.failed, s) := by simp [Recovery.rotate, hboot]
      refine ⟨?_, ?_, ?_, ?_, ?_⟩ <;> rw [hsame]
      · exact ⟨fun hd => (nomatch hd), fun hd => by rw [hboot] at hd; cases hd.1⟩
      · exact fun hd => (nomatch hd)
      · exact fun _ => rfl
      · exact fun _ _ _ _ _ _ => rfl
  | false =>
      cases hs : Residence.ensureMasterPrincipal { s.locks with adminToken := root, masterName := name } h t.now s.db with
      | none =>
          have hsame : s.rotate h t root name = (.failed, s) := by simp [Recovery.rotate, hboot, hs]
          obtain ⟨c, hc, hplain, hhash⟩ := hnone.mp hs
          refine ⟨?_, ?_, ?_, ?_, ?_⟩ <;> rw [hsame]
          · refine ⟨fun hd => (nomatch hd), fun hd => ?_⟩
            rw [hd.2 c hc hhash] at hplain
            cases hplain
          · exact fun hd => (nomatch hd)
          · exact fun _ => rfl
          · exact fun _ _ _ _ _ _ => rfl
      | some db' =>
          have hdone : s.rotate h t root name =
              (.done, ⟨db', { s.locks with adminToken := root, masterName := name }⟩) := by
            simp [Recovery.rotate, hboot, hs]
          have hre := ensureMasterPrincipal_rekeyed hk.keyring ha hu hne (hk.owner _) hs
          refine ⟨?_, ?_, ?_, ?_, ?_⟩ <;> rw [hdone]
          · refine ⟨fun _ => ⟨hboot, fun c hc hhash => ?_⟩, fun _ => rfl⟩
            cases hroot : c.isRoot with
            | true => rfl
            | false =>
                rw [hnone.mpr ⟨c, hc, hroot, hhash⟩] at hs
                cases hs
          · exact fun _ => rfl
          · exact fun hd => absurd rfl hd
          · exact hre.plain
          · rintro r hr ⟨c, hc, hid, hplain⟩ secret now hsecret
            obtain ⟨hr', hforce⟩ : r ∈ db'.sessions ∧ r.inForce now db' = r.inForce now s.db :=
              hre.inForce hk.keyring hr hc hid hplain
            rw [principalSessionActive_of_mem hre.keyring.sessions hr' hsecret,
              principalSessionActive_of_mem hk.keyring.sessions hr hsecret, hforce]

/-- From every state that rotations, sessions and device keys lead to, along every further run of them: one Master
and one recovery credential, and what a rotation ended does not come back. -/
theorem master_recovery (ha : SecretsApart h used) {tr : List ((Occasion × RecoveryInput) × ResidenceAnswer)}
    (r : Sys.Run (recovery h used) (Recovery.Admitted h used) tr s) :
    (∀ is, (recovery h used).Admits (Recovery.Admitted h used) is s →
      RecoveryLaw h s ((recovery h used).exec is tr s).2) ∧
    ∀ t root name, used root → root ≠ "" → RotateLaw h t root name s := by
  have hk := run_kept ha r
  refine ⟨fun is hadm => ?_, fun t root name hu hne => hk.rotateLaw ha hu hne⟩
  have hk' := run_kept ha (r.exec is hadm)
  have hcrown : s.locks.adminToken ≠ "" → ∃ p, Crowned h used p s :=
    fun hne => hk.reign.resolve_left fun hc => hne hc.key
  refine ⟨fun hne => ?_, fun hne => ?_, fun hne row hr c hc hid hroot hh secret now hsecret => ?_⟩
  · obtain ⟨p, hp⟩ := hcrown hne
    refine ⟨p, hp.masters, ?_⟩
    exact hadm.invariant (I := fun s' => masters s'.db = [p]) (fun s' i hm _ => masters_step hm i) tr hp.masters
  · obtain ⟨p, hp⟩ := hk'.reign.resolve_left fun hc => hne hc.key
    exact hp.liveRoots hk'.keyring
  · obtain ⟨p, hp⟩ := hcrown hne
    have hover : SessionOver (h.secretHash secret) s.db := by
      rw [hsecret]
      refine ⟨⟨row, hr, rfl⟩, fun r' hr' hid' => ?_⟩
      rw [eq_of_key hk.keyring.sessions hr' hr hid']
      exact hp.sessions row hr c hc hid hroot hh
    refine SessionOver.inactive ?_ now
    exact hadm.invariant (I := fun s' => SessionOver (h.secretHash secret) s'.db)
      (fun s' i he hi => he.step hi) tr hover

end

instance (h : Digests) (used : String → Prop) [DecidablePred used] (s : Recovery) :
    (i : Occasion × RecoveryInput) → Decidable (s.Admitted h used i)
  | (_, .rotate root _) => inferInstanceAs (Decidable (used root ∧ root ≠ ""))
  | (t, .createSession ..) => inferInstanceAs (Decidable (∀ r ∈ s.db.sessions, r.id ≠ h.secretHash t.token))
  | (t, .createCredential ..) => inferInstanceAs (Decidable (used t.token))
  | (_, .revokeCredential ..) => inferInstanceAs (Decidable True)

/-! A key, a session with it, another key, and the first key again; and a device key that is configured as the root key. -/

def sampleKeys (x : String) : Prop := x ∈ ["root-one", "root-two", "dk_1"]

instance : DecidablePred sampleKeys := fun x => inferInstanceAs (Decidable (x ∈ ["root-one", "root-two", "dk_1"]))

theorem sampleKeys_apart : SecretsApart plainDigests sampleKeys := by
  have hall : ∀ x ∈ ["root-one", "root-two", "dk_1"], ∀ y ∈ ["root-one", "root-two", "dk_1"],
      (plainDigests.secretHash x = plainDigests.secretHash y → x = y) ∧
      (credentialIdFor plainDigests .master x = credentialIdFor plainDigests .master y → x = y) ∧
      credentialIdFor plainDigests .master x ≠ plainDigests.hashedId "cr_" ("credential:" ++ y) := by
    decide
  exact ⟨fun x y hx hy => (hall x hx y hy).1, fun x y hx hy => (hall x hx y hy).2.1, fun x y hx hy => (hall x hx y hy).2.2⟩

def emptyBuilding : Recovery := ⟨{}, ⟨"", "", true, "Master"⟩⟩

theorem emptyBuilding_unclaimed : (recovery plainDigests sampleKeys).init emptyBuilding :=
  ⟨⟨List.nodup_nil, List.nodup_nil, List.nodup_nil, List.nodup_nil, fun _ h => (nomatch h), fun _ h => (nomatch h),
      fun _ h => (nomatch h)⟩,
    ⟨rfl, fun _ h => (nomatch h), fun _ h => (nomatch h), fun _ h => (nomatch h)⟩⟩

def quiet (now : Nat) (token : String) : Occasion := ⟨calmStore now, fun _ => false, false, token⟩

def twoKeys : List (Occasion × RecoveryInput) :=
  [(quiet 1 "", .rotate "root-one" "Master"), (quiet 2 "st_1", .createSession none (some "root-one") none "" none),
    (quiet 3 "", .rotate "root-two" "Master")]

def afterTwoKeys : List ((Occasion × RecoveryInput) × ResidenceAnswer) × Recovery :=
  (recovery plainDigests sampleKeys).exec twoKeys [] emptyBuilding

theorem afterTwoKeys_run :
    Sys.Run (recovery plainDigests sampleKeys) (Recovery.Admitted plainDigests sampleKeys) afterTwoKeys.1 afterTwoKeys.2 :=
  Sys.Run.exec twoKeys (by decide +kernel) (.nil emptyBuilding_unclaimed)

theorem master_recovery_sample :
    (∃ r ∈ afterTwoKeys.2.db.sessions, r.id = "h:st_1" ∧ r.credentialId = "cr_master:root-one") ∧
    RecoveryLaw plainDigests afterTwoKeys.2 ((recovery plainDigests sampleKeys).exec
      [(quiet 4 "", .rotate "root-one" "Master")] afterTwoKeys.1 afterTwoKeys.2).2 ∧
    RotateLaw plainDigests (quiet 4 "") "root-one" "Master" afterTwoKeys.2 :=
  ⟨by decide +kernel, (master_recovery sampleKeys_apart afterTwoKeys_run).1 _ (by decide),
    (master_recovery sampleKeys_apart afterTwoKeys_run).2 _ _ _ (by decide) (by decide)⟩

def withDeviceKey : List (Occasion × RecoveryInput) :=
  [(quiet 1 "", .rotate "root-one" "Master"), (quiet 2 "dk_1", .createCredential "pr_master:root-one" "laptop")]

/-- The Master's own device key is configured as the root key: the start is refused. -/
theorem device_key_is_no_root_key :
    ¬ ∀ (h : Digests) (used : String → Prop), SecretsApart h used →
      ∀ (tr : List ((Occasion × RecoveryInput) × ResidenceAnswer)) (s : Recovery),
        Sys.Run (recovery h used) (Recovery.Admitted h used) tr s →
        ∀ t root name, used root → root ≠ "" → t.refuses .boot = false →
          (∀ c ∈ s.db.credentials, c.secretHash = h.secretHash root → ∀ p ∈ masters s.db, c.principalId = p.id) →
          ∃ c, liveRoots (s.rotate h t root name).2.db = [c] ∧ c.secretHash = h.secretHash root := by
  intro hall
  have hrun : Sys.Run (recovery plainDigests sampleKeys) (Recovery.Admitted plainDigests sampleKeys)
      ((recovery plainDigests sampleKeys).exec withDeviceKey [] emptyBuilding).1
      ((recovery plainDigests sampleKeys).exec withDeviceKey [] emptyBuilding).2 :=
    Sys.Run.exec withDeviceKey (by decide) (.nil emptyBuilding_unclaimed)
  have hfacts : (∀ c ∈ ((recovery plainDigests sampleKeys).exec withDeviceKey [] emptyBuilding).2.db.credentials,
      c.secretHash = plainDigests.secretHash "dk_1" →
        ∀ p ∈ masters ((recovery plainDigests sampleKeys).exec withDeviceKey [] emptyBuilding).2.db, c.principalId = p.id) ∧
      ∀ c ∈ liveRoots ((((recovery plainDigests sampleKeys).exec withDeviceKey [] emptyBuilding).2.rotate plainDigests
        (quiet 3 "") "dk_1" "Master").2.db), c.secretHash ≠ plainDigests.secretHash "dk_1" := by
    decide +kernel
  obtain ⟨c, hlive, hhash⟩ := hall plainDigests sampleKeys sampleKeys_apart _ _ hrun (quiet 3 "") "dk_1" "Master"
    (by decide) (by decide) (by decide) hfacts.1
  exact hfacts.2 c (by rw [hlive]; exact List.mem_singleton.mpr rfl) hhash

end Loca.Building
