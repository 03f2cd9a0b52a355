/-
# `Loca.Building.Onboarding` — a requester and the admission desk

`do_onboard` of `join_request.py` against the desk: the requester files a request and saves its
id and secret in the state file, polls, fetches the issued `mb_`, verifies it at `/whoami`, writes
it into the identity file, verifies what it wrote, and only then acknowledges.  It may crash
between any two steps, any request or response may be lost, and it may be started again with the
files as they are.  The desk moves on by itself in between (`Desk.step`).

What `/whoami` answers depends on the whole building.  The requester only compares the answer, so
any answer is allowed, and `reported` keeps those that were given.

`Safe` is the invariant.  Its core: a saved request that is still open is the one in the state
file, and once a saved request is acknowledged the identity file holds a verified `mb_`.

The poll reads `404` as "the request is no longer on the server" and throws the state file away.
The route answers `404` also when the query behind it failed, so one failed read loses the secret of
a live request (`failed_poll_forgets`).  `ReadThrough` is the condition that the polls' reads are
answered.
-/
import Loca.Building.Accounting

namespace Loca.Building

open Check Table

/-! ## The identity file -/

inductive EnvLine
  /-- A blank line or a comment. -/
  | note (text : String)
  /-- `tight`: no blank stands before the `=`. -/
  | binding (key : String) (tight : Bool) (value : String)
  | malformed (text : String)
  deriving DecidableEq, Repr

def isBoundKey (key : String) : Bool :=
  key ∈ ["LOCA_NAME", "LOCA_SESSION", "LOCA_MEMBERSHIP", "ROOM_SERVER_URL", "ROOM_TOKEN"] ||
    ("DAVET_".toList.isPrefixOf key.toList && 6 < key.length &&
      (key.toList.drop 6).all fun c => c.isAlphanum || c = '_')

def validWriteValue (value : String) : Bool :=
  value.toList.all fun c => c ≠ '\n' && c ≠ '\r' && c ≠ Char.ofNat 0

/-- The first line that starts with `key=`. -/
def readBinding (key : String) (lines : List EnvLine) : Option String :=
  lines.findSome? fun
    | .binding k true v => if k = key then some v else none
    | _ => none

def readEnvMembership (lines : List EnvLine) : Option String :=
  (readBinding "LOCA_MEMBERSHIP" lines).filter (· ≠ "")

/-- Lines the writer can keep or replace; any other makes it refuse. -/
def EnvLine.acceptable : EnvLine → Bool
  | .note _ => true
  | .binding key _ _ => isBoundKey key
  | .malformed _ => false

def EnvLine.binds (keys : List String) : EnvLine → Bool
  | .binding key _ _ => key ∈ keys
  | _ => false

/-- The file belongs to nobody yet, or to this name. -/
def ownedBy (target : Option String) (lines : List EnvLine) : Bool :=
  match target.filter (· ≠ ""), readBinding "LOCA_NAME" lines with
  | some name, some current => current = "" || current = name
  | _, _ => true

/-- One atomic replacement of the file, or a refusal. -/
def updateEnvValues (updates : List (String × String)) (lines : List EnvLine) :
    Option (List EnvLine) := do
  guard (updates.all fun u => isBoundKey u.1 && validWriteValue u.2)
  guard (ownedBy (updates.lookup "LOCA_NAME") lines)
  guard (lines.all EnvLine.acceptable)
  pure (lines.filter (fun l => !l.binds (updates.map Prod.fst)) ++
    (updates.filter (fun u => u.2 ≠ "")).map fun u => .binding u.1 true u.2)

/-! ## The requester -/

structure Requester where
  server : String
  name : String

inductive Pc
  | idle
  /-- Step A: is the identity file's membership good already? -/
  | verifyLocal
  | finalizeLocal
  /-- Step B: a request was saved; what became of it? -/
  | resume
  | create
  | save (rid secret : String)
  | poll (rid secret : String)
  | bootstrap (rid secret : String)
  | verify (mb : String)
  | persist (mb : String)
  | reverify
  | finalize
  deriving DecidableEq, Repr

/-- Was the request answered, did it never arrive, or was its answer lost? -/
inductive Net | answered | lost | unanswered
  deriving DecidableEq, Repr

/-- What one step of the requester meets. -/
structure Turn where
  net : Net
  env : StoreEnv
  /-- The kind and the name `/whoami` answers with. -/
  who : Option (String × String)
  /-- The id and the secret the desk draws for a new request. -/
  draw : String × String
  /-- The status with which the desk's own guards refuse a new request. -/
  refused : Option Nat
  /-- A file cannot be written. -/
  diskFault : Bool
  timedOut : Bool

structure Onboarding where
  desk : Desk
  pc : Pc
  stateFile : Option (String × String)
  envFile : List EnvLine
  /-- The history of what `/whoami` said of a token: it is a member's, with this name. -/
  reported : List (String × String)
  /-- The history of the secrets drawn for this requester. -/
  drawn : List String
  /-- The history of the requests saved to the state file. -/
  saved : List (String × String)

inductive OnboardInput
  | start
  | crash
  | turn (t : Turn)
  /-- The desk serves somebody else. -/
  | server (i : DeskInput)

/-- Put one call to the desk. -/
def Net.ask (net : Net) (h : Digests) (i : DeskInput) (s : Desk) : Option DeskAnswer × Desk :=
  match net with
  | .answered => (some (s.step h i).1, (s.step h i).2)
  | .lost => (none, s)
  | .unanswered => (none, (s.step h i).2)

/-- What the requester hears of `/whoami`. -/
def Turn.heard (t : Turn) : Option (String × String) :=
  match t.net with
  | .answered => t.who
  | _ => none

def Turn.verifies (t : Turn) (name : String) : Bool := t.heard = some ("member", name)

/-- The answer to a poll: `none` is no answer, `some none` a `404`. -/
def Turn.view (t : Turn) (h : Digests) (rid secret : String) (s : Desk) :
    Option (Option (JoinStatus × String × Bool)) :=
  match t.net with
  | .answered => some (joinRequestView h t.env rid secret s.db)
  | _ => none

namespace Onboarding

def exit (s : Onboarding) (code : Nat) : Option Nat × Onboarding := (some code, { s with pc := .idle })

def goto (s : Onboarding) (pc : Pc) : Option Nat × Onboarding := (none, { s with pc := pc })

def discard (s : Onboarding) : Onboarding := { s with stateFile := none }

/-- Step B: resume the saved request, or file a new one. -/
def requestFlow (s : Onboarding) : Option Nat × Onboarding :=
  match s.stateFile with
  | some _ => s.goto .resume
  | none => s.goto .create

/-- Remember a member's name that `/whoami` reported. -/
def note (s : Onboarding) (t : Turn) (token : String) : Onboarding :=
  match t.heard with
  | some ("member", name) => { s with reported := (token, name) :: s.reported }
  | _ => s

def verifyMembership (who : Requester) (t : Turn) (s : Onboarding) (token : Option String)
    (yes no : Onboarding → Option Nat × Onboarding) : Option Nat × Onboarding :=
  match token with
  | none => no s
  | some token => if t.verifies who.name then yes (s.note t token) else no (s.note t token)

/-- Only a `200` counts as finalized. -/
def finalizeRequest (h : Digests) (t : Turn) (s : Onboarding) : Option Nat × Onboarding :=
  match s.stateFile with
  | none => s.exit 0
  | some (rid, secret) =>
    match t.net.ask h (.ack t.env rid secret) s.desk with
    | (some (.acked (some _)), desk) => exit { s with desk := desk, stateFile := none } 0
    | (_, desk) => exit { s with desk := desk } 6

def resumeRequest (h : Digests) (t : Turn) (s : Onboarding) : Option Nat × Onboarding :=
  match s.stateFile with
  | none => s.goto .create
  | some (rid, secret) =>
    match t.view h rid secret s.desk with
    | some (some (.denied, _, _)) => s.discard.exit 3
    | some (some (.approved, _, false)) => s.exit 5
    | some none => s.discard.goto .create
    | _ => s.goto (.poll rid secret)

def createRequest (h : Digests) (who : Requester) (t : Turn) (s : Onboarding) :
    Option Nat × Onboarding :=
  match t.refused, t.net with
  | some code, .answered => s.exit (if code = 409 then 3 else 1)
  | some _, _ => s.exit 1
  | none, .lost => s.exit 1
  | none, net =>
    -- the desk answers with the id and the secret even when it could not store the request
    let s := { s with
      desk := (s.desk.step h (.create t.env t.draw.1 t.draw.2 who.name "agent")).2
      drawn := t.draw.2 :: s.drawn }
    if net = .unanswered ∨ t.draw.1 = "" ∨ t.draw.2 = "" then s.exit 1
    else s.goto (.save t.draw.1 t.draw.2)

def saveRequest (t : Turn) (rid secret : String) (s : Onboarding) : Option Nat × Onboarding :=
  if t.diskFault then s.exit 1
  else goto { s with stateFile := some (rid, secret), saved := (rid, secret) :: s.saved }
    (.poll rid secret)

def pollRequest (h : Digests) (t : Turn) (rid secret : String) (s : Onboarding) :
    Option Nat × Onboarding :=
  match t.view h rid secret s.desk with
  | some (some (.denied, _, _)) => s.discard.exit 3
  | some (some (_, _, true)) => s.goto (.bootstrap rid secret)
  | some (some (.approved, _, false)) => s.exit 5
  | some none => s.discard.exit 1
  | _ => if t.timedOut then s.exit 1 else s.goto (.poll rid secret)

def fetchMembership (h : Digests) (t : Turn) (rid secret : String) (s : Onboarding) :
    Option Nat × Onboarding :=
  match t.net.ask h (.bootstrap t.env rid secret) s.desk with
  | (some (.davet (some mb)), desk) =>
    if mb = "" then exit { s with desk := desk } 1 else goto { s with desk := desk } (.verify mb)
  | (some (.davet none), desk) => exit { s with desk := desk } 5
  | (_, desk) => exit { s with desk := desk } 1

def persistMembership (who : Requester) (t : Turn) (mb : String) (s : Onboarding) :
    Option Nat × Onboarding :=
  if t.diskFault then s.exit 1
  else match updateEnvValues
      [("ROOM_SERVER_URL", who.server), ("LOCA_NAME", who.name), ("LOCA_MEMBERSHIP", mb)] s.envFile with
    | none => s.exit 1
    | some lines => goto { s with envFile := lines } .reverify

def turn (h : Digests) (who : Requester) (t : Turn) (s : Onboarding) : Option Nat × Onboarding :=
  match s.pc with
  | .idle => (none, s)
  | .verifyLocal =>
      verifyMembership who t s (readEnvMembership s.envFile) (·.goto .finalizeLocal) requestFlow
  | .finalizeLocal => finalizeRequest h t s
  | .resume => resumeRequest h t s
  | .create => createRequest h who t s
  | .save rid secret => saveRequest t rid secret s
  | .poll rid secret => pollRequest h t rid secret s
  | .bootstrap rid secret => fetchMembership h t rid secret s
  | .verify mb => verifyMembership who t s (some mb) (·.goto (.persist mb)) (·.exit 1)
  | .persist mb => persistMembership who t mb s
  | .reverify =>
      verifyMembership who t s (readEnvMembership s.envFile) (·.goto .finalize) (·.exit 1)
  | .finalize => finalizeRequest h t s

def step (h : Digests) (who : Requester) (s : Onboarding) : OnboardInput → Option Nat × Onboarding
  | .start => if s.pc = .idle then s.goto .verifyLocal else (none, s)
  | .crash => s.goto .idle
  | .turn t => turn h who t s
  | .server i => (none, { s with desk := (s.desk.step h i).2 })

end Onboarding

/-- A new desk and a requester that has asked for nothing yet, with whatever stands in its
identity file. -/
def onboarding (h : Digests) (who : Requester) : Sys.Machine Onboarding OnboardInput (Option Nat) where
  init s := (desk h).init s.desk ∧ s.pc = .idle ∧ s.stateFile = none ∧ s.reported = [] ∧
    s.drawn = [] ∧ s.saved = []
  step := Onboarding.step h who

/-- Nobody else holds a secret drawn for the requester: it is drawn once, and not told. -/
def Confidential (h : Digests) (s : Onboarding) : OnboardInput → Prop
  | .server (.create _ _ secret _ _) => h.secretHash secret ∉ s.drawn.map h.secretHash
  | .server (.ack _ _ secret) => h.secretHash secret ∉ s.drawn.map h.secretHash
  | .turn t => s.pc = .create → h.secretHash t.draw.2 ∉ s.drawn.map h.secretHash ∧
      ∀ r ∈ s.desk.db.joinRequests, r.secretHash ≠ h.secretHash t.draw.2
  | _ => True

def Pc.polls : Pc → Bool
  | .resume => true
  | .poll _ _ => true
  | _ => false

/-- The query behind a poll does not fail. -/
def ReadThrough (s : Onboarding) : OnboardInput → Prop
  | .turn t => s.pc.polls → t.net = .answered → t.env.fails .view = false
  | _ => True

def Undisturbed (h : Digests) (s : Onboarding) (i : OnboardInput) : Prop :=
  Confidential h s i ∧ ReadThrough s i

/-! ## What the identity file holds -/

theorem findSome?_append_none {α β : Type} {f : α → Option β} {l₁ l₂ : List α}
    (h : ∀ a ∈ l₁, f a = none) : (l₁ ++ l₂).findSome? f = l₂.findSome? f := by
  rw [List.findSome?_append, List.findSome?_eq_none_iff.mpr h, Option.none_or]

/-- What is written can be read back. -/
theorem readEnvMembership_update {server name mb : String} {lines lines' : List EnvLine} (hmb : mb ≠ "")
    (h : updateEnvValues
      [("ROOM_SERVER_URL", server), ("LOCA_NAME", name), ("LOCA_MEMBERSHIP", mb)] lines = some lines') :
    readEnvMembership lines' = some mb := by
  simp only [updateEnvValues, Option.bind_eq_bind, Option.bind_eq_some_iff, Option.pure_def,
    Option.some.injEq] at h
  obtain ⟨-, -, -, -, -, -, rfl⟩ := h
  have hkept : ∀ l ∈ lines.filter (fun l => !l.binds ["ROOM_SERVER_URL", "LOCA_NAME", "LOCA_MEMBERSHIP"]),
      (match l with
        | .binding k true v => if k = "LOCA_MEMBERSHIP" then some v else none
        | _ => none : Option String) = none := by
    intro l hl
    have hnot := (List.mem_filter.mp hl).2
    split
    · next k v =>
        simp only [EnvLine.binds, List.mem_cons, List.not_mem_nil, or_false, Bool.not_eq_true',
          decide_eq_false_iff_not, not_or] at hnot
        rw [if_neg hnot.2.2]
    · rfl
  unfold readEnvMembership readBinding
  simp only [List.map_cons, List.map_nil]
  rw [findSome?_append_none hkept]
  by_cases hs : server = ""
  · by_cases hn : name = ""
    · simp [hs, hn, hmb]
    · simp [hs, hn, hmb]
  · by_cases hn : name = ""
    · simp [hs, hn, hmb]
    · simp [hs, hn, hmb]

/-- The identity file holds an `mb_` that `/whoami` reported as belonging to the name. -/
def Onboarding.Held (name : String) (s : Onboarding) : Prop :=
  ∃ mb, readEnvMembership s.envFile = some mb ∧ (mb, name) ∈ s.reported

/-! ## The invariant -/

/-- Undecided, or approved with its `mb_` still to be fetched. -/
def JoinRequestRow.Open (r : JoinRequestRow) : Prop :=
  r.status = .pending ∨ (r.status = .approved ∧ r.bootstrapAckedAt = none)

/-- An approved request carries its `mb_` until it is acknowledged. -/
def Laden (db : Registry) : Prop :=
  ∀ r ∈ db.joinRequests, r.status = .approved → r.bootstrapAckedAt = none → r.mbToken.isSome

structure Core (h : Digests) (name : String) (s : Onboarding) : Prop where
  accounted : Accounted s.desk.db
  unacked : Unacked s.desk.db
  laden : Laden s.desk.db
  known : ∀ p ∈ s.saved, p.2 ∈ s.drawn
  filed : ∀ p, s.stateFile = some p → p ∈ s.saved
  acked : ∀ p ∈ s.saved, ∀ r ∈ s.desk.db.joinRequests, r.heldBy h p.1 p.2 → r.bootstrapAckedAt.isSome →
    s.Held name
  opened : ∀ p ∈ s.saved, ∀ r ∈ s.desk.db.joinRequests, r.heldBy h p.1 p.2 → r.Open →
    s.stateFile = some p

/-- What the requester knows at each point of its program. -/
def AtPc (h : Digests) (name : String) (s : Onboarding) : Pc → Prop
  | .create => s.stateFile = none
  | .save _ secret => s.stateFile = none ∧ secret ∈ s.drawn ∧
      ∀ r ∈ s.desk.db.joinRequests, r.secretHash = h.secretHash secret → r.bootstrapAckedAt = none
  | .poll rid secret => s.stateFile = some (rid, secret)
  | .bootstrap rid secret => s.stateFile = some (rid, secret)
  | .verify mb => mb ≠ ""
  | .persist mb => mb ≠ "" ∧ (mb, name) ∈ s.reported
  | .finalizeLocal => s.Held name
  | .finalize => s.Held name
  | _ => True

structure Safe (h : Digests) (name : String) (s : Onboarding) : Prop where
  core : Core h name s
  pc : AtPc h name s s.pc

theorem heldBy_iff {h : Digests} {id secret : String} {r : JoinRequestRow} :
    r.heldBy h id secret = true ↔ r.id = id ∧ r.secretHash = h.secretHash secret := by
  simp [JoinRequestRow.heldBy]

theorem RowStep.sameKey {h : Digests} {i : DeskInput} {r r' : JoinRequestRow} (hs : RowStep h i r r') :
    r'.id = r.id ∧ r'.secretHash = r.secretHash := by
  cases hs <;> exact ⟨rfl, rfl⟩

/-- Only an acknowledgement of its holder acknowledges a request. -/
theorem RowStep.acked_cases {h : Digests} {i : DeskInput} {r r' : JoinRequestRow}
    (hs : RowStep h i r r') (ha : r'.bootstrapAckedAt.isSome) :
    r.bootstrapAckedAt.isSome ∨ ∃ env secret, i = .ack env r.id secret ∧
      r.secretHash = h.secretHash secret := by
  cases hs with
  | same => exact .inl ha
  | approve => exact .inl ha
  | deny => exact .inl ha
  | stamp => exact .inl ha
  | ack env id secret hi hheld =>
      obtain ⟨rfl, hh⟩ := heldBy_iff.mp hheld
      exact .inr ⟨env, secret, hi, hh⟩

/-- What is open was open. -/
theorem RowStep.open_of {h : Digests} {i : DeskInput} {r r' : JoinRequestRow} (hs : RowStep h i r r')
    (ho : r'.Open) : r.Open := by
  cases hs with
  | same => exact ho
  | approve env id mb by_ hi hp => exact .inl hp
  | deny by_ now hp => exact .inl hp
  | stamp => exact ho
  | ack =>
      rcases ho with ho | ⟨-, ho⟩
      · exact .inl ho
      · cases ho

theorem step_laden {h : Digests} {s : Desk} (hd : Accounted s.db) (hl : Laden s.db) (i : DeskInput) :
    Laden (s.step h i).2.db := by
  intro r' hr' hs ha
  rcases (step_rows hd i).2 r' hr' with ⟨r, hr, hstep⟩ | ⟨env, id, secret, name, kind, -, rfl⟩
  · cases hstep with
    | same => exact hl _ hr hs ha
    | approve => rfl
    | deny => cases hs
    | stamp => exact hl r hr hs ha
    | ack => cases ha
  · cases hs

/-! ## The desk moves -/

section Core

variable {h : Digests} {name : String} {s : Onboarding}

/-- A saved request's row after a step of the desk was there before, unless the step filed it. -/
theorem Core.row_before (hc : Core h name s) {i : DeskInput} {p : String × String}
    (hp : p ∈ s.saved) (hi : ∀ env id secret n k, i = .create env id secret n k →
      h.secretHash secret ∉ s.drawn.map h.secretHash) {r' : JoinRequestRow}
    (hr' : r' ∈ (s.desk.step h i).2.db.joinRequests) (hheld : r'.heldBy h p.1 p.2) :
    ∃ r ∈ s.desk.db.joinRequests, RowStep h i r r' ∧ r.heldBy h p.1 p.2 := by
  obtain ⟨hid, hh⟩ := heldBy_iff.mp hheld
  rcases (step_rows hc.accounted i).2 r' hr' with ⟨r, hr, hstep⟩ | ⟨env, id, secret, n, k, hcr, rfl⟩
  · obtain ⟨h₁, h₂⟩ := hstep.sameKey
    exact ⟨r, hr, hstep, heldBy_iff.mpr ⟨h₁ ▸ hid, h₂ ▸ hh⟩⟩
  · refine absurd ?_ (hi env id secret n k hcr)
    exact List.mem_map.mpr ⟨p.2, hc.known p hp, hh.symm⟩

/-- A step of the desk, when an acknowledgement in it is either not of a saved request, or made by
a requester whose identity file is in order. -/
theorem Core.move (hc : Core h name s) {i : DeskInput}
    (hi : ∀ env id secret n k, i = .create env id secret n k →
      h.secretHash secret ∉ s.drawn.map h.secretHash)
    (hack : ∀ env id secret, i = .ack env id secret →
      h.secretHash secret ∉ s.drawn.map h.secretHash ∨ s.Held name) :
    Core h name { s with desk := (s.desk.step h i).2 } where
  accounted := step_accounted hc.accounted i
  unacked := step_unacked hc.accounted hc.unacked i
  laden := step_laden hc.accounted hc.laden i
  known := hc.known
  filed := hc.filed
  acked := by
    intro p hp r' hr' hheld ha
    obtain ⟨r, hr, hstep, hrheld⟩ := hc.row_before hp hi hr' hheld
    rcases hstep.acked_cases ha with ha | ⟨env, secret, hi', hh⟩
    · exact hc.acked p hp r hr hrheld ha
    · rcases hack env r.id secret hi' with hno | hheld'
      · refine absurd (List.mem_map.mpr ⟨p.2, hc.known p hp, ?_⟩) hno
        exact (heldBy_iff.mp hrheld).2.symm.trans hh
      · exact hheld'
  opened := by
    intro p hp r' hr' hheld ho
    obtain ⟨r, hr, hstep, hrheld⟩ := hc.row_before hp hi hr' hheld
    exact hc.opened p hp r hr hrheld (hstep.open_of ho)

/-- The state file may go when the request in it is no longer open. -/
theorem Core.forget (hc : Core h name s) (hdone : ∀ p, s.stateFile = some p →
    ∀ r ∈ s.desk.db.joinRequests, r.heldBy h p.1 p.2 → ¬r.Open) : Core h name s.discard where
  accounted := hc.accounted
  unacked := hc.unacked
  laden := hc.laden
  known := hc.known
  filed := by
    intro p hp
    cases hp
  acked := hc.acked
  opened := by
    intro p hp r hr hheld ho
    exact absurd ho (hdone p (hc.opened p hp r hr hheld ho) r hr hheld)

/-- A report only adds to what is known. -/
theorem Core.reports (hc : Core h name s) {reported : List (String × String)}
    (hsub : s.reported ⊆ reported) : Core h name { s with reported := reported } :=
  { hc with
    acked := by
      intro p hp r hr hheld ha
      obtain ⟨mb, hmb, hrep⟩ := hc.acked p hp r hr hheld ha
      exact ⟨mb, hmb, hsub hrep⟩ }

theorem Core.note (hc : Core h name s) (t : Turn) (token : String) : Core h name (s.note t token) := by
  unfold Onboarding.note
  split
  · exact hc.reports (List.subset_cons_self _ _)
  · exact hc

theorem Core.withPc (hc : Core h name s) (pc : Pc) : Core h name { s with pc := pc } :=
  { hc with }

end Core

/-! ## Calls over the network -/

theorem ask_some {net : Net} {h : Digests} {i : DeskInput} {s d : Desk} {a : DeskAnswer}
    (hask : net.ask h i s = (some a, d)) : a = (s.step h i).1 ∧ d = (s.step h i).2 := by
  cases net with
  | answered => cases hask; exact ⟨rfl, rfl⟩
  | lost => cases hask
  | unanswered => cases hask

theorem ask_desk (net : Net) (h : Digests) (i : DeskInput) (s : Desk) :
    (net.ask h i s).2 = s ∨ (net.ask h i s).2 = (s.step h i).2 := by
  cases net with
  | answered => exact .inr rfl
  | lost => exact .inl rfl
  | unanswered => exact .inr rfl

/-- Whatever was answered to an acknowledgement other than `404`, the window is closed. -/
theorem ack_closes {h : Digests} {env : StoreEnv} {id secret : String} {db : Registry} {b : Bool}
    (hd : Accounted db) (hans : (ackJoinRequestBootstrap h env id secret db).1 = some b) :
    ∀ r ∈ (ackJoinRequestBootstrap h env id secret db).2.joinRequests, r.heldBy h id secret →
      r.bootstrapAckedAt.isSome := by
  unfold ackJoinRequestBootstrap at hans ⊢
  by_cases hread : env.fails .readAck = true
  · rw [if_pos hread] at hans
    cases hans
  · rw [if_neg hread] at hans ⊢
    cases hx : db.joinRequests.find? fun r => r.heldBy h id secret && decide (r.status = .approved) with
    | none =>
        rw [hx] at hans
        cases hans
    | some x =>
        rw [hx] at hans
        have hxmem := List.mem_of_find?_eq_some hx
        have hxid : x.id = id := by
          have hx' := List.find?_some hx
          simp only [Bool.and_eq_true] at hx'
          exact (heldBy_iff.mp hx'.1).1
        dsimp only at hans ⊢
        split at hans
        · next ha =>
            rw [if_pos ha]
            intro r hr hheld
            obtain rfl := eq_of_key hd.requests hr hxmem ((heldBy_iff.mp hheld).1.trans hxid.symm)
            exact ha
        · next ha =>
            rw [if_neg ha]
            split at hans
            · cases hans
            · next hw =>
                rw [if_neg hw]
                intro r hr hheld
                obtain ⟨y, hy, rfl⟩ := mem_updateWhere.mp hr
                split
                · rfl
                · next hn =>
                    rw [if_neg hn] at hheld
                    refine Option.isSome_iff_ne_none.mpr ?_
                    simpa [JoinRequestRow.isUnacked, (heldBy_iff.mp hheld).1] using hn

theorem joinRequestView_none {h : Digests} {env : StoreEnv} {id secret : String} {db : Registry}
    (hread : env.fails .view = false) (hv : joinRequestView h env id secret db = none) :
    ∀ r ∈ db.joinRequests, ¬r.heldBy h id secret := by
  intro r hr hheld
  cases hf : db.joinRequests.find? (·.heldBy h id secret) with
  | none => exact List.find?_eq_none.mp hf r hr hheld
  | some x => simp [joinRequestView, hread, hf] at hv

theorem joinRequestView_some {h : Digests} {env : StoreEnv} {id secret : String} {db : Registry}
    {status : JoinStatus} {name : String} {ready : Bool} (hd : Accounted db)
    (hv : joinRequestView h env id secret db = some (status, name, ready)) :
    ∀ r ∈ db.joinRequests, r.heldBy h id secret → r.status = status := by
  simp only [joinRequestView, Option.bind_eq_bind, Option.bind_eq_some_iff, Option.pure_def,
    Option.some.injEq, Prod.mk.injEq] at hv
  obtain ⟨-, -, x, hx, rfl, -, -⟩ := hv
  intro r hr hheld
  have hxheld : x.heldBy h id secret = true := List.find?_some hx
  have hkey := (heldBy_iff.mp hheld).1.trans (heldBy_iff.mp hxheld).1.symm
  rw [eq_of_key hd.requests hr (List.mem_of_find?_eq_some hx) hkey]

theorem view_eq {t : Turn} {h : Digests} {rid secret : String} {s : Desk}
    {v : Option (JoinStatus × String × Bool)} (hv : t.view h rid secret s = some v) :
    t.net = .answered ∧ joinRequestView h t.env rid secret s.db = v := by
  unfold Turn.view at hv
  split at hv
  · next hn => exact ⟨hn, by simpa using hv⟩
  · cases hv

/-! ## Each step of the requester is safe -/

section Steps

variable {h : Digests} {who : Requester} {t : Turn} {s : Onboarding}

/-- The requester's own calls are of its saved request, or of none. -/
theorem Core.ask (hc : Core h who.name s) {i : DeskInput}
    (hi : ∀ env id secret n k, i = .create env id secret n k →
      h.secretHash secret ∉ s.drawn.map h.secretHash)
    (hack : ∀ env id secret, i = .ack env id secret → s.Held who.name) (net : Net) :
    Core h who.name { s with desk := (net.ask h i s.desk).2 } := by
  rcases ask_desk net h i s.desk with hd | hd
  · rw [hd]
    exact hc
  · rw [hd]
    exact hc.move hi fun env id secret he => .inr (hack env id secret he)

theorem finalizeRequest_safe (hc : Core h who.name s) (hheld : s.Held who.name) :
    Safe h who.name (s.finalizeRequest h t).2 := by
  unfold Onboarding.finalizeRequest
  split
  · exact ⟨hc.withPc _, trivial⟩
  · next rid secret hfile =>
      have hmove := hc.ask (i := .ack t.env rid secret) (by simp) (fun _ _ _ _ => hheld) t.net
      split
      · next b d hask =>
          obtain ⟨hans, rfl⟩ := ask_some hask
          have hb : (ackJoinRequestBootstrap h t.env rid secret s.desk.db).1 = some b :=
            (DeskAnswer.acked.inj hans).symm
          rw [hask] at hmove
          refine ⟨(hmove.forget ?_).withPc _, trivial⟩
          rintro p hp r hr hrheld ho
          obtain rfl : (rid, secret) = p := by simpa using hfile.symm.trans hp
          have hclosed := ack_closes hc.accounted hb r hr hrheld
          rcases ho with hp | ⟨-, hn⟩
          · rw [hmove.unacked r hr hp] at hclosed; cases hclosed
          · rw [hn] at hclosed; cases hclosed
      · next hask =>
          rw [hask] at hmove
          exact ⟨hmove.withPc _, trivial⟩

theorem requestFlow_safe (hc : Core h who.name s) : Safe h who.name s.requestFlow.2 := by
  unfold Onboarding.requestFlow
  split
  · exact ⟨hc.withPc _, trivial⟩
  · next hfile => exact ⟨hc.withPc _, hfile⟩

/-- A request that was answered with `404` or as denied is not open. -/
theorem Core.viewed (hc : Core h who.name s) {rid secret : String} (hfile : s.stateFile = some (rid, secret))
    (hread : t.net = .answered → t.env.fails .view = false) {v : Option (JoinStatus × String × Bool)}
    (hv : t.view h rid secret s.desk = some v) (hdone : v = none ∨ ∃ n b, v = some (.denied, n, b)) :
    Core h who.name s.discard := by
  obtain ⟨hnet, hview⟩ := view_eq hv
  refine hc.forget fun p hp r hr hheld ho => ?_
  obtain rfl : (rid, secret) = p := by simpa using hfile.symm.trans hp
  rcases hdone with rfl | ⟨n, b, rfl⟩
  · exact joinRequestView_none (hread hnet) hview r hr hheld
  · have hs := joinRequestView_some hc.accounted hview r hr hheld
    rcases ho with ho | ⟨ho, -⟩
    · rw [hs] at ho; cases ho
    · rw [hs] at ho; cases ho

theorem resumeRequest_safe (hc : Core h who.name s)
    (hread : t.net = .answered → t.env.fails .view = false) :
    Safe h who.name (s.resumeRequest h t).2 := by
  unfold Onboarding.resumeRequest
  split
  · next hfile => exact ⟨hc.withPc _, hfile⟩
  · next rid secret hfile =>
      split
      · next n b hv => exact ⟨(hc.viewed hfile hread hv (.inr ⟨n, b, rfl⟩)).withPc _, trivial⟩
      · exact ⟨hc.withPc _, trivial⟩
      · next hv => exact ⟨(hc.viewed hfile hread hv (.inl rfl)).withPc _, rfl⟩
      · exact ⟨hc.withPc _, hfile⟩

theorem pollRequest_safe (hc : Core h who.name s) {rid secret : String}
    (hfile : s.stateFile = some (rid, secret))
    (hread : t.net = .answered → t.env.fails .view = false) :
    Safe h who.name (s.pollRequest h t rid secret).2 := by
  unfold Onboarding.pollRequest
  split
  · next n b hv => exact ⟨(hc.viewed hfile hread hv (.inr ⟨n, b, rfl⟩)).withPc _, trivial⟩
  · exact ⟨hc.withPc _, hfile⟩
  · exact ⟨hc.withPc _, trivial⟩
  · next hv => exact ⟨(hc.viewed hfile hread hv (.inl rfl)).withPc _, trivial⟩
  · split
    · exact ⟨hc.withPc _, trivial⟩
    · exact ⟨hc.withPc _, hfile⟩

theorem Core.draw (hc : Core h who.name s) (secret : String) :
    Core h who.name { s with drawn := secret :: s.drawn } :=
  { hc with known := fun p hp => List.mem_cons_of_mem _ (hc.known p hp) }

theorem createRequest_safe (hc : Core h who.name s) (hfile : s.stateFile = none)
    (hnew : h.secretHash t.draw.2 ∉ s.drawn.map h.secretHash ∧
      ∀ r ∈ s.desk.db.joinRequests, r.secretHash ≠ h.secretHash t.draw.2) :
    Safe h who.name (s.createRequest h who t).2 := by
  have hmove : Core h who.name { s with
      desk := (s.desk.step h (.create t.env t.draw.1 t.draw.2 who.name "agent")).2
      drawn := t.draw.2 :: s.drawn } := by
    refine (hc.move (i := .create t.env t.draw.1 t.draw.2 who.name "agent") ?_ (by simp)).draw _
    rintro env id secret n k he
    cases he
    exact hnew.1
  unfold Onboarding.createRequest
  split
  · exact ⟨hc.withPc _, trivial⟩
  · exact ⟨hc.withPc _, trivial⟩
  · exact ⟨hc.withPc _, trivial⟩
  · dsimp only
    split
    · exact ⟨hmove.withPc _, trivial⟩
    · refine ⟨hmove.withPc _, hfile, List.mem_cons_self, ?_⟩
      -- the only row with the new secret is the one just filed
      intro r' hr' hh
      rcases (step_rows hc.accounted _).2 r' hr' with ⟨r, hr, hstep⟩ | ⟨env, id, secret, n, k, -, rfl⟩
      · exact absurd (hstep.sameKey.2.symm.trans hh) (hnew.2 r hr)
      · rfl

theorem saveRequest_safe (hc : Core h who.name s) {rid secret : String}
    (hpc : AtPc h who.name s (.save rid secret)) : Safe h who.name (s.saveRequest t rid secret).2 := by
  obtain ⟨hfile, hdrawn, hunacked⟩ := hpc
  unfold Onboarding.saveRequest
  split
  · exact ⟨hc.withPc _, trivial⟩
  · refine ⟨?_, rfl⟩
    constructor
    · exact hc.accounted
    · exact hc.unacked
    · exact hc.laden
    · intro p hp
      rcases List.mem_cons.mp hp with rfl | hp
      · exact hdrawn
      · exact hc.known p hp
    · intro p hp
      obtain rfl : (rid, secret) = p := Option.some.inj hp
      exact List.mem_cons_self
    · intro p hp r hr hheld ha
      rcases List.mem_cons.mp hp with rfl | hp
      · rw [hunacked r hr (heldBy_iff.mp hheld).2] at ha
        cases ha
      · exact hc.acked p hp r hr hheld ha
    · intro p hp r hr hheld ho
      rcases List.mem_cons.mp hp with rfl | hp
      · rfl
      · have := hc.opened p hp r hr hheld ho
        rw [hfile] at this
        cases this

theorem fetchMembership_safe (hc : Core h who.name s) {rid secret : String} :
    Safe h who.name (s.fetchMembership h t rid secret).2 := by
  have hmove := hc.ask (i := .bootstrap t.env rid secret) (by simp) (by simp) t.net
  unfold Onboarding.fetchMembership
  split
  · next mb d hask =>
      rw [hask] at hmove
      split
      · exact ⟨hmove.withPc _, trivial⟩
      · next hmb => exact ⟨hmove.withPc _, hmb⟩
  · next d hask =>
      rw [hask] at hmove
      exact ⟨hmove.withPc _, trivial⟩
  · next hask =>
      rw [hask] at hmove
      exact ⟨hmove.withPc _, trivial⟩

theorem persistMembership_safe (hc : Core h who.name s) {mb : String}
    (hpc : AtPc h who.name s (.persist mb)) : Safe h who.name (s.persistMembership who t mb).2 := by
  unfold Onboarding.persistMembership
  split
  · exact ⟨hc.withPc _, trivial⟩
  · split
    · exact ⟨hc.withPc _, trivial⟩
    · next lines hup =>
        refine ⟨?_, trivial⟩
        exact { hc with
          acked := fun _ _ _ _ _ _ => ⟨mb, readEnvMembership_update hpc.1 hup, hpc.2⟩ }

/-- A token that verifies was reported under the name. -/
theorem note_verified {token : String} (hv : t.verifies who.name = true) :
    (token, who.name) ∈ (s.note t token).reported := by
  have hh : t.heard = some ("member", who.name) := by simpa [Turn.verifies] using hv
  simp [Onboarding.note, hh]

theorem note_envFile (t : Turn) (token : String) : (s.note t token).envFile = s.envFile := by
  unfold Onboarding.note
  split
  · rfl
  · rfl

theorem verifyMembership_safe {token : Option String} {yes no : Onboarding → Option Nat × Onboarding}
    (hc : Core h who.name s) (hno : ∀ s, Core h who.name s → Safe h who.name (no s).2)
    (hyes : ∀ tok s', token = some tok → Core h who.name s' → (tok, who.name) ∈ s'.reported →
      s'.envFile = s.envFile → Safe h who.name (yes s').2) :
    Safe h who.name (s.verifyMembership who t token yes no).2 := by
  unfold Onboarding.verifyMembership
  split
  · exact hno s hc
  · next tok =>
      split
      · next hv => exact hyes tok _ rfl (hc.note t tok) (note_verified hv) (note_envFile t tok)
      · exact hno _ (hc.note t tok)

theorem turn_safe (hs : Safe h who.name s) (hi : Undisturbed h s (.turn t)) :
    Safe h who.name (s.turn h who t).2 := by
  obtain ⟨hc, hpc⟩ := hs
  obtain ⟨hconf, hread⟩ := hi
  unfold Onboarding.turn
  split
  · exact ⟨hc, hpc⟩
  · refine verifyMembership_safe hc (fun s hc => requestFlow_safe hc) ?_
    intro tok s' htok hc' hrep henv
    exact ⟨hc'.withPc _, tok, henv ▸ htok, hrep⟩
  · next he => exact finalizeRequest_safe hc (he ▸ hpc :)
  · next he => exact resumeRequest_safe hc (hread (by simp [he, Pc.polls]))
  · next he => exact createRequest_safe hc (he ▸ hpc :) (hconf he)
  · next he => exact saveRequest_safe hc (he ▸ hpc :)
  · next he => exact pollRequest_safe hc (he ▸ hpc :) (hread (by simp [he, Pc.polls]))
  · exact fetchMembership_safe hc
  · next mb he =>
      have hmb : mb ≠ "" := (he ▸ hpc :)
      refine verifyMembership_safe hc (fun s hc => ⟨hc.withPc _, trivial⟩) ?_
      rintro tok s' htok hc' hrep -
      obtain rfl := Option.some.inj htok
      exact ⟨hc'.withPc _, hmb, hrep⟩
  · next he => exact persistMembership_safe hc (he ▸ hpc :)
  · refine verifyMembership_safe hc (fun s hc => ⟨hc.withPc _, trivial⟩) ?_
    intro tok s' htok hc' hrep henv
    exact ⟨hc'.withPc _, tok, henv ▸ htok, hrep⟩
  · next he => exact finalizeRequest_safe hc (he ▸ hpc :)

end Steps

theorem server_safe {h : Digests} {name : String} {s : Onboarding} {i : DeskInput}
    (hs : Safe h name s) (hi : Confidential h s (.server i)) :
    Safe h name { s with desk := (s.desk.step h i).2 } := by
  have hcreate : ∀ env id secret n k, i = .create env id secret n k →
      h.secretHash secret ∉ s.drawn.map h.secretHash := by
    rintro env id secret n k rfl
    exact hi
  have hack : ∀ env id secret, i = .ack env id secret →
      h.secretHash secret ∉ s.drawn.map h.secretHash := by
    rintro env id secret rfl
    exact hi
  refine ⟨hs.core.move hcreate fun env id secret he => .inl (hack env id secret he), ?_⟩
  have hpc := hs.pc
  show AtPc h name { s with desk := (s.desk.step h i).2 } s.pc
  cases hp : s.pc with
  | save rid secret =>
      rw [hp] at hpc
      obtain ⟨hfile, hdrawn, hunacked⟩ := hpc
      refine ⟨hfile, hdrawn, ?_⟩
      intro r' hr' hh
      rcases (step_rows hs.core.accounted i).2 r' hr' with ⟨r, hr, hstep⟩ | ⟨_, _, _, _, _, -, rfl⟩
      · have hrh : r.secretHash = h.secretHash secret := hstep.sameKey.2.symm.trans hh
        by_contra hne
        rcases hstep.acked_cases (Option.isSome_iff_ne_none.mpr hne) with ha | ⟨env, secret', he, hh'⟩
        · rw [hunacked r hr hrh] at ha
          cases ha
        · exact hack _ _ _ he (List.mem_map.mpr ⟨secret, hdrawn, hrh.symm.trans hh'⟩)
      · rfl
  | create => rw [hp] at hpc; exact hpc
  | poll rid secret => rw [hp] at hpc; exact hpc
  | bootstrap rid secret => rw [hp] at hpc; exact hpc
  | verify mb => rw [hp] at hpc; exact hpc
  | persist mb => rw [hp] at hpc; exact hpc
  | finalizeLocal => rw [hp] at hpc; exact hpc
  | finalize => rw [hp] at hpc; exact hpc
  | idle => trivial
  | verifyLocal => trivial
  | resume => trivial
  | reverify => trivial

theorem step_safe {h : Digests} {who : Requester} {s : Onboarding} {i : OnboardInput}
    (hs : Safe h who.name s) (hi : Undisturbed h s i) : Safe h who.name (s.step h who i).2 := by
  cases i with
  | start =>
      simp only [Onboarding.step]
      split
      · exact ⟨hs.core.withPc _, trivial⟩
      · exact hs
  | crash => exact ⟨hs.core.withPc _, trivial⟩
  | turn t => exact turn_safe hs hi
  | server i => exact server_safe hs hi.1

theorem run_safe {h : Digests} {who : Requester} {tr : List (OnboardInput × Option Nat)}
    {s : Onboarding} (r : Sys.Run (onboarding h who) (Undisturbed h) tr s) : Safe h who.name s := by
  refine Sys.Run.invariant (I := Safe h who.name) ?_ (fun _ _ hs hi => step_safe hs hi) r
  rintro s ⟨hdesk, hpc, hfile, -, hdrawn, hsaved⟩
  have hj : s.desk.db.joinRequests = [] := hdesk.2.1
  refine ⟨?_, by rw [hpc]; trivial⟩
  constructor
  · exact @run_accounted h (fun _ _ => True) [] s.desk (.nil hdesk)
  · intro r hr; rw [hj] at hr; cases hr
  · intro r hr; rw [hj] at hr; cases hr
  · intro p hp; rw [hsaved] at hp; cases hp
  · intro p hp; rw [hfile] at hp; cases hp
  · intro p hp; rw [hsaved] at hp; cases hp
  · intro p hp; rw [hsaved] at hp; cases hp

/-- A saved request is never lost: acknowledged, its membership is in the identity file; approved
and not acknowledged, its id and secret are in the state file and fetch the `mb_`. -/
theorem onboarding_keeps_membership (h : Digests) (who : Requester)
    {tr : List (OnboardInput × Option Nat)} {s : Onboarding}
    (r : Sys.Run (onboarding h who) (Undisturbed h) tr s) :
    ∀ rid secret, (rid, secret) ∈ s.saved →
      ∀ row ∈ s.desk.db.joinRequests, row.heldBy h rid secret →
        (row.bootstrapAckedAt.isSome →
          ∃ mb, readEnvMembership s.envFile = some mb ∧ (mb, who.name) ∈ s.reported) ∧
        (row.status = .approved → row.bootstrapAckedAt = none →
          s.stateFile = some (rid, secret) ∧ ∃ mb, row.mbToken = some mb ∧
            ∀ env, env.fails .readToken = false →
              (claimJoinRequestBootstrap h env rid secret s.desk.db).1 = some mb) := by
  intro rid secret hsaved row hrow hheld
  have hc := (run_safe r).core
  refine ⟨hc.acked (rid, secret) hsaved row hrow hheld, fun happ hnone => ?_⟩
  refine ⟨hc.opened (rid, secret) hsaved row hrow hheld (.inr ⟨happ, hnone⟩), ?_⟩
  obtain ⟨mb, hmb⟩ := Option.isSome_iff_exists.mp (hc.laden row hrow happ hnone)
  refine ⟨mb, hmb, fun env hread => ?_⟩
  have hdel : row.deliverable h rid secret = true := by
    simp [JoinRequestRow.deliverable, hheld, happ, hmb, hnone]
  exact claim_delivers hc.accounted hrow hdel hmb hread

/-! ## One onboarding, and a poll whose query fails -/

def sampleRequester : Requester := ⟨"http://127.0.0.1:8787", "ada"⟩

def sampleTurn (env : StoreEnv) : Turn := ⟨.answered, env, none, ("jr_1", "s1"), none, false, false⟩

def sampleStart : Onboarding := ⟨⟨{}, []⟩, .idle, none, [], [], [], []⟩

/-- The requester files its request and saves it; a Master mints a right and approves. -/
def sampleRequested : List OnboardInput :=
  [.start, .turn (sampleTurn (calmStore 1)), .turn (sampleTurn (calmStore 2)),
    .turn (sampleTurn (calmStore 3)), .server (.mint (calmStore 4) ["adm_1"] 100),
    .server (.approve (calmStore 5) "jr_1" "mb_1" "master")]

def sampleApproved : Onboarding :=
  ((onboarding plainDigests sampleRequester).exec sampleRequested [] sampleStart).2

theorem sampleApproved_run {ok : Onboarding → OnboardInput → Prop}
    (hok : (onboarding plainDigests sampleRequester).Admits ok sampleRequested sampleStart) :
    Sys.Run (onboarding plainDigests sampleRequester) ok
      ((onboarding plainDigests sampleRequester).exec sampleRequested [] sampleStart).1 sampleApproved :=
  Sys.Run.exec sampleRequested hok (.nil ⟨⟨rfl, rfl, rfl⟩, rfl, rfl, rfl, rfl, rfl⟩)

theorem sampleRequested_undisturbed :
    (onboarding plainDigests sampleRequester).Admits (Undisturbed plainDigests) sampleRequested
      sampleStart := by
  refine ⟨⟨trivial, trivial⟩, ⟨?_, ?_⟩, ⟨?_, ?_⟩, ⟨?_, ?_⟩, ⟨trivial, trivial⟩, ⟨trivial, trivial⟩, trivial⟩
  · intro h; cases h
  · intro h; cases h
  · intro _; exact ⟨by decide +kernel, by decide +kernel⟩
  · intro h; cases h
  · intro h; cases h
  · intro h; cases h

theorem onboarding_keeps_membership_sample :
    sampleApproved.stateFile = some ("jr_1", "s1") ∧
    ∃ mb, ∀ env : StoreEnv, env.fails .readToken = false →
      (claimJoinRequestBootstrap plainDigests env "jr_1" "s1" sampleApproved.desk.db).1 = some mb := by
  have hmem : (filedRow plainDigests "jr_1" "s1" "ada" "agent" 2).approve "mb_1" "master" 5 ∈
      sampleApproved.desk.db.joinRequests := by decide +kernel
  obtain ⟨hfile, mb, -, hmb⟩ := (onboarding_keeps_membership plainDigests sampleRequester
    (sampleApproved_run sampleRequested_undisturbed) "jr_1" "s1" (by decide +kernel) _ hmem
    (by decide +kernel)).2 rfl rfl
  exact ⟨hfile, mb, hmb⟩

/-- The query behind the next poll fails, the poll is answered with `404`, and the state file with
the secret is gone while the `mb_` waits to be fetched. -/
theorem failed_poll_forgets :
    ¬∀ (h : Digests) (who : Requester) (tr : List (OnboardInput × Option Nat)) (s : Onboarding),
      Sys.Run (onboarding h who) (Confidential h) tr s →
      ∀ rid secret, (rid, secret) ∈ s.saved →
        ∀ row ∈ s.desk.db.joinRequests, row.heldBy h rid secret →
          row.status = .approved → row.bootstrapAckedAt = none →
          s.stateFile = some (rid, secret) := by
  intro hall
  have hpoll : Confidential plainDigests sampleApproved
      (.turn (sampleTurn ⟨6, fun c => c = .view⟩)) := by
    intro h
    exact absurd h (by decide +kernel)
  have hrun := ((sampleApproved_run sampleRequested_undisturbed).weaken fun _ _ h => h.1).snoc _ hpoll
  have hlost := hall plainDigests sampleRequester _ _ hrun "jr_1" "s1" (by decide +kernel)
    ((filedRow plainDigests "jr_1" "s1" "ada" "agent" 2).approve "mb_1" "master" 5)
    (by decide +kernel) (by decide +kernel) rfl rfl
  exact absurd hlost (by decide +kernel)

end Loca.Building
