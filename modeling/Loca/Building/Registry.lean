/-
# `Loca.Building.Registry` — the tables that say who belongs to the building

The identity tables of `store.rs`: members, principals and their credentials, the sessions
and suspensions bound to them, davets, and the admission desk (rights and join requests).
The rooms' own tables are in `Loca.Store.Schema`; what the two share (a member's row, a
davet's row, a principal's row) is used from there.

A number that is written to an `INTEGER` column or compared with one is a bound parameter;
a `u64` past `i64::MAX` cannot be bound, and the statement that would carry it fails.
-/
import Loca.Store.Rooms

namespace Loca.Building

open Table

/-! ## Rows -/

structure CredentialRow where
  id : String
  principalId : String
  label : String
  secretHash : String
  createdAt : Nat
  lastUsedAt : Option Nat
  revokedAt : Option Nat
  legacySource : Option String
  deriving DecidableEq, Repr

structure SuspensionRow where
  memberToken : String
  suspendedAt : Nat
  reason : String
  deriving DecidableEq, Repr

/-- A row of `principal_sessions`; `id` is the digest of the session's secret. -/
structure SessionRow where
  id : String
  principalId : String
  credentialId : String
  createdAt : Nat
  expiresAt : Nat
  revokedAt : Option Nat
  deriving DecidableEq, Repr

structure SmasterRow where
  token : String
  name : String
  issuedAt : Nat
  revokedAt : Option Nat
  deriving DecidableEq, Repr

/-- One single-use right to admit somebody. -/
structure AdmissionRow where
  id : String
  mintedBy : String
  createdAt : Nat
  expiresAt : Nat
  consumedAt : Option Nat
  consumedByName : Option String
  deriving DecidableEq, Repr

inductive JoinStatus | pending | approving | approved | denied
  deriving DecidableEq, Repr

structure JoinRequestRow where
  id : String
  secretHash : String
  name : String
  kind : String
  status : JoinStatus
  createdAt : Nat
  decidedAt : Option Nat
  decidedBy : Option String
  mbToken : Option String
  bootstrapDeliveredAt : Option Nat
  bootstrapAckedAt : Option Nat
  deriving DecidableEq, Repr

structure Registry where
  members : List MemberRow := []
  suspensions : List SuspensionRow := []
  principals : List PrincipalRow := []
  credentials : List CredentialRow := []
  sessions : List SessionRow := []
  smasters : List SmasterRow := []
  invites : List InviteRow := []
  admissionStock : List AdmissionRow := []
  joinRequests : List JoinRequestRow := []
  deriving DecidableEq, Repr

/-- Can this number be bound to a statement? -/
abbrev Storable (n : Nat) : Prop := n < 2 ^ 63

/-! ## Principals and credentials -/

/-- `INSERT OR IGNORE` into a table with more than one unique column. -/
def insertUnless {ρ : Type} (clash : ρ → Bool) (r : ρ) (t : List ρ) : List ρ :=
  if t.any clash then t else t ++ [r]

theorem insertUnless_new {ρ : Type} {clash : ρ → Bool} {r : ρ} {t : List ρ}
    (h : ∀ x ∈ t, clash x = false) : insertUnless clash r t = t ++ [r] := by
  have hany : t.any clash = false := List.any_eq_false.mpr fun x hx => by simp [h x hx]
  simp [insertUnless, hany]

theorem mem_insertUnless {ρ : Type} {clash : ρ → Bool} {r x : ρ} {t : List ρ}
    (h : x ∈ insertUnless clash r t) : x ∈ t ∨ (x = r ∧ ∀ y ∈ t, clash y = false) := by
  unfold insertUnless at h
  split at h
  · exact .inl h
  · next hc =>
      rcases List.mem_append.mp h with hx | hx
      · exact .inl hx
      · have hnone := List.any_eq_false.mp (Bool.eq_false_iff.mpr hc)
        exact .inr ⟨List.mem_singleton.mp hx, fun y hy => by simpa using hnone y hy⟩

theorem subset_insertUnless {ρ : Type} {clash : ρ → Bool} {r x : ρ} {t : List ρ} (h : x ∈ t) :
    x ∈ insertUnless clash r t := by
  unfold insertUnless
  split
  · exact h
  · exact List.mem_append_left _ h

/-- The unique columns of `credentials`. -/
def CredentialRow.clashes (r c : CredentialRow) : Bool :=
  c.id = r.id || c.secretHash = r.secretHash || (c.legacySource.isSome && c.legacySource = r.legacySource)

def BuildingRole.str : BuildingRole → String
  | .master => "master"
  | .smaster => "smaster"
  | .member => "member"

/-- The text the ids of a token-shaped identity are digests of. -/
def identityText (role : BuildingRole) (token : String) : String := BuildingRole.str role ++ ":" ++ token

def principalRow (h : Digests) (role : BuildingRole) (token name kind : String) (now : Nat) :
    PrincipalRow :=
  ⟨h.hashedId "pr_" (identityText role token), name, if kind = "agent" then "agent" else "human",
    role, now, none⟩

def credentialRow (h : Digests) (role : BuildingRole) (token : String) (now : Nat) (label : String) :
    CredentialRow :=
  ⟨h.hashedId "cr_" (identityText role token), h.hashedId "pr_" (identityText role token), label,
    h.secretHash token, now, none, none, some (identityText role (h.secretHash token))⟩

def insertPrincipalCredential (h : Digests) (role : BuildingRole) (token name kind : String)
    (now : Nat) (label : String) (db : Registry) : Registry :=
  let p := principalRow h role token name kind now
  let c := credentialRow h role token now label
  { db with
    principals := insertUnless (fun x => x.id = p.id) p db.principals
    credentials := insertUnless c.clashes c db.credentials }

end Loca.Building
