/-
# `Loca.Runner.Once` — a worker is asked once

`WikiRunner` of `wiki_runtime.py`, as programs over commands (`Base.Prog`): a look at the journal, one of its
transactions, one request to the server, one question to the worker, the clock.  The server is any function of the
request, of its own state and of what the network does; a process may die at every command, and the next one has only
the journal.

What it leaves outside is written down here in a log: what the worker was asked, what the server was sent and answered.
In every run the log is in order (`Orderly`): the worker is asked once for a job, and for no other job of a room before
the server has taken the last one; each publication of a job has the same body, that of the review made from the one
answer; and a route is offered only once the review it comes from has been taken.
-/
import Loca.Base.Prog
import Loca.Runner.Journal
import Loca.Runner.Worker

namespace Loca.Runner

open Check Table Sys.Prog

inductive Query
  | claim
  | read
  | requests
  | renew (lease : Json)

inductive Request
  | query (q : Query)
  | finish (payload : Dict)
  | offer (route : DraftRoute)

/-- `ShellTransport.call`, with what is behind it: it raises (`none`), or returns a dict or nothing. -/
structure Transport (τ ν : Type) where
  call : String → Request → ν → τ → Option (Option Dict) × τ

/-- What a job was made from. -/
structure Dispatch where
  id : Nat
  room : String
  batch : Dict
  snapshot : Dict

def Job.dispatch (j : Job) : Dispatch := ⟨j.id, j.room, j.batch, j.snapshot⟩

/-- What is left outside, with the job it was for. -/
inductive Effect
  | asked (d : Dispatch) (payload : Dict) (answer : Option Json)
  | finished (id : Nat) (room : String) (payload : Dict) (reply : Option (Option Dict))
  | offered (id : Nat) (room : String) (route : DraftRoute)

structure RunnerState (τ : Type) where
  journal : Journal := {}
  server : τ
  log : List Effect := []

/-! ## Commands -/

/-- A transaction of the journal. -/
inductive Entry
  | intent (room : String) (batch snapshot : Dict)
  | result (id : Nat) (room : String) (review : DraftReview)
  | accepted (id : Nat) (lease : Json) (receipt : Dict)
  | routed (id : Nat) (target : String)
  | block (id : Nat) (reason : String)

def Entry.run : Entry → Journal → Except JournalError Journal
  | .intent room batch snapshot, j => j.intent room batch snapshot
  | .result id room review, j => j.result id room review
  | .accepted id lease receipt, j => j.accepted id lease receipt
  | .routed id target, j => .ok (j.routed id target)
  | .block id reason, j => .ok (j.block id reason)

inductive Command
  | look
  | write (e : Entry)
  | send (room : String) (q : Query)
  | finish (id : Nat) (room : String) (payload : Dict)
  | offer (id : Nat) (room : String) (route : DraftRoute)
  | ask (d : Dispatch) (payload : Dict)
  | clock

def Command.Answer : Command → Type
  | look => Journal
  | write _ => Unit
  | send _ _ => Option Dict
  | finish _ _ _ => Option Dict
  | offer _ _ _ => Unit
  | ask _ _ => Option Json
  | clock => Int

/-- What is outside at one command. -/
structure Outside (ν : Type) where
  network : ν
  /-- The transaction fails. -/
  disk : Bool
  /-- The worker's answer; none where it raises. -/
  worker : Option Json
  now : Int

section

variable {τ ν : Type}

def perform (T : Transport τ ν) (c : Command) (o : Outside ν) (s : RunnerState τ) : Option c.Answer × RunnerState τ :=
  match c with
  | .look => (some s.journal, s)
  | .write e =>
      if o.disk then (none, s)
      else match e.run s.journal with
        | .ok j => (some (), { s with journal := j })
        | .error _ => (none, s)
  | .send room q =>
      let (reply, server) := T.call room (.query q) o.network s.server
      (reply, { s with server })
  | .finish id room payload =>
      let (reply, server) := T.call room (.finish payload) o.network s.server
      (reply, { s with server, log := .finished id room payload reply :: s.log })
  | .offer id room route =>
      let (reply, server) := T.call room (.offer route) o.network s.server
      (reply.map fun _ => (), { s with server, log := .offered id room route :: s.log })
  | .ask d payload => (some o.worker, { s with log := .asked d payload o.worker :: s.log })
  | .clock => (some o.now, s)

def host (T : Transport τ ν) : Host Command (RunnerState τ) (Outside ν) Command.Answer := ⟨perform T⟩

end

abbrev Act := Sys.Prog Command Command.Answer

namespace Act

def look : Act Journal := .cmd .look .ret
def write (e : Entry) : Act Unit := .cmd (.write e) .ret
def send (room : String) (q : Query) : Act (Option Dict) := .cmd (.send room q) .ret
def finish (id : Nat) (room : String) (payload : Dict) : Act (Option Dict) := .cmd (.finish id room payload) .ret
def offer (id : Nat) (room : String) (route : DraftRoute) : Act Unit := .cmd (.offer id room route) .ret
def ask (d : Dispatch) (payload : Dict) : Act (Option Json) := .cmd (.ask d payload) .ret
def clock : Act Int := .cmd .clock .ret

/-- What is missing raises. -/
def need {α : Type} : Option α → Act α
  | some a => pure a
  | none => die

/-- What is refused raises. -/
def attempt {ε α : Type} : Except ε α → Act α
  | .ok a => pure a
  | .error _ => die

end Act

open Act

/-! ## The runner -/

inductive Outcome
  | idle
  | blocked (reason : String)
  | accepted (batchId : Int) (revision : Int)
  deriving DecidableEq

def dispatchUnknown : String := "native dispatch outcome unknown; reconciliation required"
def reconciliation : String := "native dispatch requires reconciliation"
def workerUnavailable : String := "isolated Wiki worker unavailable"
def workerFailed : String := "native worker failed or returned invalid review"
def outcomeUnknown : String := "native worker outcome requires reconciliation"

def routePending (room : String) : Act Unit := do
  let j ← look
  each (fun r => do
    offer r.jobId room r.payload
    write (.routed r.jobId r.payload.target)) (j.pendingRoutes room)

/-- The body of a publication. -/
def finishPayload (lease : Json) (review : Option DraftReview) : Dict :=
  [("lease", lease), ("review", (review.map DraftReview.toJson).getD .null)]

def publish (room : String) (job : Job) : Act Outcome := do
  let lease ← need (Json.field "lease" job.batch)
  let reply ← finish job.id room (finishPayload lease job.review)
  let receipt ← need reply
  let revision ← attempt (verifyReceipt receipt job.snapshot)
  write (.accepted job.id lease receipt)
  routePending room
  pure (.accepted job.batchId revision)

/-- What the worker is given: what is prepared, and the requests for context. -/
def reviewPayload (room : String) (batch snapshot : Dict) (requests : Json) : Except CoordinatorError Dict := do
  let payload ← prepare room batch snapshot
  let payload := Json.setField "context_requests" requests payload
  require (Json.bytes (Json.dumps .unicode (.obj payload)) ≤ maxInputBytes) .oversized
  pure payload

/-- A lease that has not run out. -/
def renewed (reply : Option Dict) (now : Int) : Bool :=
  ((reply.bind (number "lease_expires_at")).map fun expires => decide (now < expires)).getD false

/-- The worker's answer is checked; where it raises, or its answer is refused, the job is blocked. -/
def draft (room : String) (job : Job) (payload batch snapshot : Dict) : Act Outcome := do
  let answer ← ask job.dispatch payload
  match answer.map fun a => validateReview a batch snapshot with
  | some (.ok review) => do
      write (.result job.id room review)
      let j ← look
      let job ← need (j.latest room)
      publish room job
  | _ => do
      write (.block job.id workerFailed)
      pure (.blocked outcomeUnknown)

/-- A batch that is not the one of the room's last job. -/
def reviewNext (room : String) (batch : Dict) : Act Outcome := do
  let wiki ← send room .read
  let asked ← need (← send room .requests)
  let requests := (Json.field "requests" asked).getD (.arr [])
  let batch := Json.setField "context_requests" requests batch
  let snapshot ← need wiki
  let payload ← attempt (reviewPayload room batch snapshot requests)
  let lease ← need (Json.field "lease" batch)
  let reply ← send room (.renew lease)
  let now ← clock
  if renewed reply now then do
    write (.intent room batch snapshot)
    let j ← look
    let job ← need (j.latest room)
    draft room job payload batch snapshot
  else die

/-- The same lease, as the server prints it: two numbers. -/
def sameLease (job : Job) (batch : Dict) : Bool := (Journal.leaseNumbers batch).any fun l => l = (job.batchId, job.epoch)

def claimNext (room : String) (last : Option Job) : Act Outcome := do
  match ← send room .claim with
  | none => pure .idle
  | some batch =>
    match last.filter fun job => sameLease job batch with
    | some job => do
        let revision ← need (job.receipt.bind (number "revision"))
        pure (.accepted job.batchId revision)
    | none => reviewNext room batch

def runOnce (room : String) (worker : Bool) : Act Outcome := do
  routePending room
  let j ← look
  match j.latest room with
  | some job =>
      match job.status with
      | .publicationPending => publish room job
      | .dispatchIntent => do
          write (.block job.id dispatchUnknown)
          pure (.blocked (job.reason.getD reconciliation))
      | .blocked => pure (.blocked (job.reason.getD reconciliation))
      | .accepted => if worker then claimNext room (some job) else pure (.blocked workerUnavailable)
  | none => if worker then claimNext room none else pure (.blocked workerUnavailable)

/-! ## The order of the log -/

def Effect.job : Effect → Nat
  | .asked d _ _ => d.id
  | .finished id _ _ _ => id
  | .offered id _ _ => id

/-- The review was made from the worker's answer for this job. -/
def DraftedFrom (log : List Effect) (d : Dispatch) (review : DraftReview) : Prop :=
  ∃ payload answer, Effect.asked d payload (some answer) ∈ log ∧ validateReview answer d.batch d.snapshot = .ok review

/-- And the server has answered its publication with a receipt. -/
def Taken (log : List Effect) (d : Dispatch) (review : DraftReview) : Prop :=
  DraftedFrom log d review ∧ ∃ payload receipt revision, Effect.finished d.id d.room payload (some (some receipt)) ∈ log ∧
    verifyReceipt receipt d.snapshot = .ok revision

/-- What has gone before an effect. -/
def Follows : Effect → List Effect → Prop
  | .asked d _ _, earlier =>
      (∀ e ∈ earlier, e.job ≠ d.id) ∧
      ∀ d' payload answer, .asked d' payload answer ∈ earlier → d'.room = d.room → ∃ review, Taken earlier d' review
  | .finished id room payload _, earlier =>
      (∃ d lease review, d.id = id ∧ d.room = room ∧ DraftedFrom earlier d review ∧ Json.field "lease" d.batch = some lease ∧
        payload = finishPayload lease (some review)) ∧
      ∀ route, .offered id room route ∉ earlier
  | .offered id room route, earlier =>
      ∃ d review, d.id = id ∧ d.room = room ∧ Taken earlier d review ∧ route ∈ review.routes.getD []

def Orderly : List Effect → Prop
  | [] => True
  | e :: earlier => Follows e earlier ∧ Orderly earlier

section

variable {log : List Effect} {d : Dispatch} {rv : DraftReview}

theorem DraftedFrom.later (h : DraftedFrom log d rv) (e : Effect) : DraftedFrom (e :: log) d rv := by
  obtain ⟨payload, answer, hm, hv⟩ := h
  exact ⟨payload, answer, List.mem_cons_of_mem e hm, hv⟩

theorem Taken.mono {log' : List Effect} (h : Taken log d rv) (hsub : ∀ e ∈ log, e ∈ log') : Taken log' d rv := by
  obtain ⟨⟨payload, answer, hm, hv⟩, payload', receipt, revision, hm', hv'⟩ := h
  exact ⟨⟨payload, answer, hsub _ hm, hv⟩, payload', receipt, revision, hsub _ hm', hv'⟩

theorem Taken.later (h : Taken log d rv) (e : Effect) : Taken (e :: log) d rv := by
  exact h.mono fun _ => List.mem_cons_of_mem e

end

theorem Orderly.of_suffix {log : List Effect} (h : Orderly log) {e : Effect} {earlier : List Effect}
    (hs : e :: earlier <:+ log) : Follows e earlier := by
  induction log with
  | nil => exact absurd (List.suffix_nil.mp hs) (List.cons_ne_nil e earlier)
  | cons x log ih =>
      rcases List.suffix_cons_iff.mp hs with heq | hs
      · obtain ⟨rfl, rfl⟩ := List.cons.inj heq
        exact h.1
      · exact ih h.2 hs

/-- What is in the log was added to some log. -/
theorem exists_suffix {log : List Effect} {e : Effect} (h : e ∈ log) : ∃ earlier, e :: earlier <:+ log := by
  obtain ⟨later, earlier, rfl⟩ := List.append_of_mem h
  exact ⟨earlier, later, rfl⟩

/-- The worker is asked once for a job. -/
theorem Orderly.asked_once {log : List Effect} (h : Orderly log) {d d' : Dispatch} {payload payload' : Dict}
    {answer answer' : Option Json} (hm : .asked d payload answer ∈ log) (hm' : .asked d' payload' answer' ∈ log)
    (hid : d.id = d'.id) : d = d' ∧ payload = payload' ∧ answer = answer' := by
  induction log with
  | nil => cases hm
  | cons e log ih =>
      rcases List.mem_cons.mp hm with he | hin <;> rcases List.mem_cons.mp hm' with he' | hin'
      · injection he.trans he'.symm with hd hp ha
        exact ⟨hd, hp, ha⟩
      · rw [← he] at h
        exact absurd hid.symm (h.1.1 _ hin')
      · rw [← he'] at h
        exact absurd hid (h.1.1 _ hin)
      · exact ih h.2 hin hin'

/-- There is one review for a job. -/
theorem Orderly.drafted_once {log : List Effect} (h : Orderly log) {d d' : Dispatch} {rv rv' : DraftReview}
    (hd : DraftedFrom log d rv) (hd' : DraftedFrom log d' rv') (hid : d.id = d'.id) : d = d' ∧ rv = rv' := by
  obtain ⟨payload, answer, hm, hv⟩ := hd
  obtain ⟨payload', answer', hm', hv'⟩ := hd'
  obtain ⟨rfl, -, ha⟩ := h.asked_once hm hm' hid
  obtain rfl := Option.some.inj ha
  exact ⟨rfl, Except.ok.inj (hv.symm.trans hv')⟩

/-- The body of a publication. -/
theorem Orderly.finished_body {log : List Effect} (h : Orderly log) {id : Nat} {room : String} {payload : Dict}
    {reply : Option (Option Dict)} (hm : .finished id room payload reply ∈ log) :
    ∃ d lease review, d.id = id ∧ d.room = room ∧ DraftedFrom log d review ∧ Json.field "lease" d.batch = some lease ∧
      payload = finishPayload lease (some review) := by
  obtain ⟨earlier, hs⟩ := exists_suffix hm
  obtain ⟨⟨d, lease, review, hid, hr, ⟨p, a, hma, hv⟩, hlease, hpayload⟩, -⟩ := h.of_suffix hs
  exact ⟨d, lease, review, hid, hr, ⟨p, a, hs.subset (List.mem_cons_of_mem _ hma), hv⟩, hlease, hpayload⟩

/-! ## The journal and the log -/

/-- The invariant.  An open job is the last of its room; a route belongs to a job that waits for its receipt, or to one
whose review was taken. -/
structure Told {τ : Type} (s : RunnerState τ) : Prop where
  ids : (s.journal.jobs.map Job.id).Nodup
  last : ∀ x ∈ s.journal.jobs, x.open = true → ∀ y ∈ s.journal.jobs, y.room = x.room → y.id ≤ x.id
  order : Orderly s.log
  known : ∀ e ∈ s.log, ∃ x ∈ s.journal.jobs, e.job ≤ x.id
  asked : ∀ d payload answer, .asked d payload answer ∈ s.log →
    (∃ x ∈ s.journal.jobs, x.dispatch = d ∧ x.open = true) ∨ ∃ review, Taken s.log d review
  pending : ∀ x ∈ s.journal.jobs, x.status = .publicationPending →
    ∃ review, x.review = some review ∧ DraftedFrom s.log x.dispatch review
  routes : ∀ r ∈ s.journal.routes, ∃ x ∈ s.journal.jobs, x.id = r.jobId ∧ x.room = r.room ∧
    ((x.status = .publicationPending ∧ ∃ review, x.review = some review ∧ r.payload ∈ review.routes.getD []) ∨
     (x.status = .accepted ∧ ∃ d review, d.id = x.id ∧ d.room = x.room ∧ Taken s.log d review ∧
        r.payload ∈ review.routes.getD []))
  offered : ∀ id room route, .offered id room route ∈ s.log → ∀ x ∈ s.journal.jobs, x.id = id → x.status = .accepted

namespace Told

variable {τ : Type} {s : RunnerState τ}

/-- An effect is added to the log. -/
theorem effect (h : Told s) {e : Effect} (server : τ) (hf : Follows e s.log) (hx : ∃ x ∈ s.journal.jobs, e.job ≤ x.id)
    (ha : ∀ d payload answer, e = .asked d payload answer → ∃ x ∈ s.journal.jobs, x.dispatch = d ∧ x.open = true)
    (ho : ∀ id room route, e = .offered id room route → ∀ x ∈ s.journal.jobs, x.id = id → x.status = .accepted) :
    Told { s with server, log := e :: s.log } where
  ids := h.ids
  last := h.last
  order := ⟨hf, h.order⟩
  known := by
    intro e' he'
    rcases List.mem_cons.mp he' with rfl | he'
    · exact hx
    · exact h.known e' he'
  asked := by
    intro d payload answer hm
    rcases List.mem_cons.mp hm with he | hm
    · exact .inl (ha d payload answer he.symm)
    · exact (h.asked d payload answer hm).imp id fun ⟨review, ht⟩ => ⟨review, ht.later e⟩
  pending := by
    intro x hx hs
    obtain ⟨review, hr, hd⟩ := h.pending x hx hs
    exact ⟨review, hr, hd.later e⟩
  routes := by
    intro r hr
    obtain ⟨x, hx, hid, hroom, hwait | ⟨hs, d, review, hd, hdr, ht, hm⟩⟩ := h.routes r hr
    · exact ⟨x, hx, hid, hroom, .inl hwait⟩
    · exact ⟨x, hx, hid, hroom, .inr ⟨hs, d, review, hd, hdr, ht.later e, hm⟩⟩
  offered := by
    intro id room route hm
    rcases List.mem_cons.mp hm with he | hm
    · exact ho id room route he.symm
    · exact h.offered id room route hm

theorem server (h : Told s) (t : τ) : Told { s with server := t } := ⟨h.ids, h.last, h.order, h.known, h.asked, h.pending, h.routes, h.offered⟩

/-- No effect was for a job that has not been entered. -/
theorem job_le (h : Told s) {e : Effect} (he : e ∈ s.log) : e.job ≤ s.journal.lastId := by
  obtain ⟨x, hx, hle⟩ := h.known e he
  exact hle.trans (Journal.le_lastId hx)

theorem intent (h : Told s) {room : String} {batch snapshot : Dict} {j : Journal}
    (hj : s.journal.intent room batch snapshot = .ok j) : Told { s with journal := j } := by
  obtain ⟨batchId, epoch, -, hfree, -, rfl⟩ := Journal.intent_ok hj
  have hold : ∀ x ∈ s.journal.jobs, x.id < s.journal.lastId + 1 := fun x hx => Nat.lt_succ_of_le (Journal.le_lastId hx)
  refine ⟨?_, ?_, h.order, ?_, ?_, ?_, ?_, ?_⟩
  · exact nodup_append_new h.ids fun x hx => Nat.ne_of_lt (hold x hx)
  · intro x hx hopen y hy hr
    rcases List.mem_append.mp hx with hx | hx <;> rcases List.mem_append.mp hy with hy | hy
    · exact h.last x hx hopen y hy hr
    · rw [List.mem_singleton.mp hy] at hr
      exact absurd hr.symm (hfree x hx hopen)
    · rw [List.mem_singleton.mp hx]
      exact (hold y hy).le
    · rw [List.mem_singleton.mp hx, List.mem_singleton.mp hy]
  · intro e he
    obtain ⟨x, hx, hle⟩ := h.known e he
    exact ⟨x, List.mem_append_left _ hx, hle⟩
  · intro d payload answer hm
    exact (h.asked d payload answer hm).imp (fun ⟨x, hx, hd⟩ => ⟨x, List.mem_append_left _ hx, hd⟩) id
  · intro x hx hs
    rcases List.mem_append.mp hx with hx | hx
    · exact h.pending x hx hs
    · rw [List.mem_singleton.mp hx] at hs
      cases hs
  · intro r hr
    obtain ⟨x, hx, hrest⟩ := h.routes r hr
    exact ⟨x, List.mem_append_left _ hx, hrest⟩
  · intro id room' route hm x hx hid
    rcases List.mem_append.mp hx with hx | hx
    · exact h.offered id room' route hm x hx hid
    · rw [List.mem_singleton.mp hx] at hid
      have hle := h.job_le hm
      rw [show (Effect.offered id room' route).job = id from rfl, ← hid] at hle
      exact absurd hle (Nat.not_succ_le_self _)

/-- The jobs change, but not what they were made from, nor which of them are open. -/
theorem revise (h : Told s) {p : Job → Bool} {f : Job → Job} {routes : List RouteRow}
    (hd : ∀ x, (f x).dispatch = x.dispatch)
    (hopen : ∀ x ∈ s.journal.jobs, p x = true → x.open = true ∧ (f x).open = true)
    (hpending : ∀ x ∈ s.journal.jobs, p x = true → (f x).status = .publicationPending →
      ∃ review, (f x).review = some review ∧ DraftedFrom s.log x.dispatch review)
    (hroutes : ∀ r ∈ routes, r ∈ s.journal.routes ∧ (∀ x ∈ s.journal.jobs, p x = true → x.id ≠ r.jobId) ∨
      ∃ x ∈ s.journal.jobs, p x = true ∧ x.id = r.jobId ∧ x.room = r.room ∧ (f x).status = .publicationPending ∧
        ∃ review, (f x).review = some review ∧ r.payload ∈ review.routes.getD []) :
    Told { s with journal := ⟨updateWhere p f s.journal.jobs, routes⟩ } := by
  have hid : ∀ x, (f x).id = x.id := fun x => congrArg Dispatch.id (hd x)
  have hroom : ∀ x, (f x).room = x.room := fun x => congrArg Dispatch.room (hd x)
  have hmem : ∀ x ∈ s.journal.jobs, (if p x then f x else x) ∈ updateWhere p f s.journal.jobs :=
    fun x hx => mem_updateWhere.mpr ⟨x, hx, rfl⟩
  have hback : ∀ y ∈ updateWhere p f s.journal.jobs, ∃ x ∈ s.journal.jobs, y.dispatch = x.dispatch ∧ y.open = x.open ∧
      (p x = true ∧ y = f x ∨ y = x) := by
    intro y hy
    obtain ⟨x, hx, rfl⟩ := mem_updateWhere.mp hy
    by_cases hp : p x = true
    · rw [if_pos hp]
      obtain ⟨h₁, h₂⟩ := hopen x hx hp
      exact ⟨x, hx, hd x, h₂.trans h₁.symm, .inl ⟨hp, rfl⟩⟩
    · rw [if_neg hp]
      exact ⟨x, hx, rfl, rfl, .inr rfl⟩
  refine ⟨?_, ?_, h.order, ?_, ?_, ?_, ?_, ?_⟩
  · exact nodup_updateWhere hid h.ids
  · intro x hx hopen y hy hr
    obtain ⟨x', hx', hdx, hox, -⟩ := hback x hx
    obtain ⟨y', hy', hdy, -, -⟩ := hback y hy
    have hle := h.last x' hx' (hox ▸ hopen) y' hy'
      ((congrArg Dispatch.room hdy).symm.trans (hr.trans (congrArg Dispatch.room hdx)))
    exact (congrArg Dispatch.id hdy).trans_le (hle.trans (congrArg Dispatch.id hdx).ge)
  · intro e he
    obtain ⟨x, hx, hle⟩ := h.known e he
    refine ⟨_, hmem x hx, ?_⟩
    split
    · rw [hid x]; exact hle
    · exact hle
  · intro d payload answer hm
    refine (h.asked d payload answer hm).imp (fun ⟨x, hx, hdx, hox⟩ => ⟨_, hmem x hx, ?_⟩) id
    split
    · next hp => exact ⟨(hd x).trans hdx, (hopen x hx hp).2⟩
    · exact ⟨hdx, hox⟩
  · intro y hy hs
    obtain ⟨x, hx, hdx, -, ⟨hp, rfl⟩ | rfl⟩ := hback y hy
    · rw [hdx]
      exact hpending x hx hp hs
    · exact h.pending y hx hs
  · intro r hr
    rcases hroutes r hr with ⟨hr, hnot⟩ | ⟨x, hx, hp, hrid, hrroom, hs, hreview⟩
    · obtain ⟨x, hx, hrid, hrest⟩ := h.routes r hr
      have hp : ¬p x = true := fun hp => hnot x hx hp hrid
      have hm := hmem x hx
      rw [if_neg hp] at hm
      exact ⟨x, hm, hrid, hrest⟩
    · have hm := hmem x hx
      rw [if_pos hp] at hm
      exact ⟨f x, hm, (hid x).trans hrid, (hroom x).trans hrroom, .inl ⟨hs, hreview⟩⟩
  · intro id room route hm y hy hyid
    obtain ⟨x, hx, hdx, -, ⟨hp, rfl⟩ | rfl⟩ := hback y hy
    · have hacc := h.offered id room route hm x hx ((congrArg Dispatch.id hdx).symm.trans hyid)
      have hop := (hopen x hx hp).1
      simp [Job.open, hacc] at hop
    · exact h.offered id room route hm y hx hyid

theorem result (h : Told s) {id : Nat} {room : String} {review : DraftReview} {j : Journal}
    (hj : s.journal.result id room review = .ok j)
    (hd : ∀ x ∈ s.journal.jobs, x.id = id → x.room = room ∧ DraftedFrom s.log x.dispatch review) :
    Told { s with journal := j } := by
  obtain ⟨⟨z, hz, hzid, hzs⟩, rfl⟩ := Journal.result_ok hj
  refine h.revise (fun _ => rfl) ?_ ?_ ?_
  · intro x _ hp
    simp only [Bool.and_eq_true, decide_eq_true_eq] at hp
    exact ⟨by simp [Job.open, hp.2], rfl⟩
  · intro x hx hp _
    simp only [Bool.and_eq_true, decide_eq_true_eq] at hp
    exact ⟨review, rfl, (hd x hx hp.1).2⟩
  · intro r hr
    rcases List.mem_append.mp hr with hr | hr
    · refine .inl ⟨hr, fun x hx hp hrid => ?_⟩
      simp only [Bool.and_eq_true, decide_eq_true_eq] at hp
      obtain ⟨y, hy, hyid, -, hstatus⟩ := h.routes r hr
      have hxy : x = y := eq_of_key h.ids hx hy (hrid.trans hyid.symm)
      rw [← hxy] at hstatus
      rcases hstatus with ⟨hs, -⟩ | ⟨hs, -⟩ <;> simp [hp.2] at hs
    · obtain ⟨route, hroute, rfl⟩ := List.mem_map.mp hr
      exact .inr ⟨z, hz, by simp [hzid, hzs], hzid, (hd z hz hzid).1, rfl, review, rfl, hroute⟩

theorem block (h : Told s) {id : Nat} {reason : String}
    (hs : ∀ x ∈ s.journal.jobs, x.id = id → x.status = .dispatchIntent) :
    Told { s with journal := s.journal.block id reason } := by
  have hp : ∀ x ∈ s.journal.jobs, decide (x.id = id) = true → x.status = .dispatchIntent :=
    fun x hx hp => hs x hx (of_decide_eq_true hp)
  refine h.revise (fun _ => rfl) (fun x hx hx' => ⟨by simp [Job.open, hp x hx hx'], rfl⟩) (fun x _ _ hs => (nomatch hs)) ?_
  intro r hr
  refine .inl ⟨hr, fun x hx hxid hrid => ?_⟩
  obtain ⟨y, hy, hyid, -, hstatus⟩ := h.routes r hr
  have hxy : x = y := eq_of_key h.ids hx hy (hrid.trans hyid.symm)
  rw [← hxy] at hstatus
  rcases hstatus with ⟨hs', -⟩ | ⟨hs', -⟩ <;> simp [hp x hx hxid] at hs'

theorem routed (h : Told s) (id : Nat) (target : String) : Told { s with journal := s.journal.routed id target } :=
  ⟨h.ids, h.last, h.order, h.known, h.asked, h.pending, fun r hr => h.routes r (mem_deleteWhere.mp hr).1, h.offered⟩

/-- A review that was taken is accepted. -/
theorem accept (h : Told s) {id : Nat} {lease : Json} {receipt : Dict}
    (ht : ∀ x ∈ s.journal.jobs, x.id = id → x.status = .publicationPending →
      ∃ review, x.review = some review ∧ Taken s.log x.dispatch review) :
    Told { s with
      journal := { s.journal with
        jobs := updateWhere (fun x => x.id = id && x.status = .publicationPending)
          (fun x => { x with
            status := .accepted, receipt := some receipt, batch := [("lease", lease)], snapshot := [], review := none })
          s.journal.jobs } } := by
  generalize hf : (fun x : Job => { x with
    status := JobStatus.accepted, receipt := some receipt, batch := [("lease", lease)], snapshot := [], review := none }) = f
  have hfid : ∀ x, (f x).id = x.id := fun x => by rw [← hf]
  have hfs : ∀ x, (f x).status = .accepted := fun x => by rw [← hf]
  have hfr : ∀ x, (f x).room = x.room := fun x => by rw [← hf]
  have hmem : ∀ x ∈ s.journal.jobs, (x.id = id ∧ x.status = .publicationPending ∧
      f x ∈ updateWhere (fun x => x.id = id && x.status = .publicationPending) f s.journal.jobs) ∨
      (¬(x.id = id ∧ x.status = .publicationPending) ∧
        x ∈ updateWhere (fun x => x.id = id && x.status = .publicationPending) f s.journal.jobs) := by
    intro x hx
    by_cases hp : x.id = id ∧ x.status = .publicationPending
    · exact .inl ⟨hp.1, hp.2, mem_updateWhere.mpr ⟨x, hx, by rw [if_pos (by simpa using hp)]⟩⟩
    · exact .inr ⟨hp, mem_updateWhere.mpr ⟨x, hx, by rw [if_neg (by simpa using hp)]⟩⟩
  have hback : ∀ y ∈ updateWhere (fun x => x.id = id && x.status = .publicationPending) f s.journal.jobs,
      y ∈ s.journal.jobs ∨ ∃ x ∈ s.journal.jobs, y = f x := by
    intro y hy
    obtain ⟨x, hx, rfl⟩ := mem_updateWhere.mp hy
    split
    · exact .inr ⟨x, hx, rfl⟩
    · exact .inl hx
  have hclosed : ∀ x, (f x).open = false := fun x => by simp [Job.open, hfs x]
  refine ⟨nodup_updateWhere hfid h.ids, ?_, h.order, ?_, ?_, ?_, ?_, ?_⟩
  · intro x hx hopen y hy hr
    rcases hback x hx with hx | ⟨x, -, rfl⟩
    · rcases hback y hy with hy | ⟨z, hz, rfl⟩
      · exact h.last x hx hopen y hy hr
      · exact (hfid z).trans_le (h.last x hx hopen z hz ((hfr z).symm.trans hr))
    · rw [hclosed x] at hopen
      cases hopen
  · intro e he
    obtain ⟨x, hx, hle⟩ := h.known e he
    rcases hmem x hx with ⟨-, -, hm⟩ | ⟨-, hm⟩
    · exact ⟨f x, hm, hle.trans (hfid x).ge⟩
    · exact ⟨x, hm, hle⟩
  · intro d payload answer hm
    rcases h.asked d payload answer hm with ⟨x, hx, rfl, hopen⟩ | htaken
    · rcases hmem x hx with ⟨hid, hs, -⟩ | ⟨-, hm⟩
      · obtain ⟨review, -, htaken⟩ := ht x hx hid hs
        exact .inr ⟨review, htaken⟩
      · exact .inl ⟨x, hm, rfl, hopen⟩
    · exact .inr htaken
  · intro x hx hs
    rcases hback x hx with hx | ⟨x, -, rfl⟩
    · exact h.pending x hx hs
    · rw [hfs x] at hs
      cases hs
  · intro r hr
    obtain ⟨x, hx, hrid, hrroom, hstatus⟩ := h.routes r hr
    rcases hmem x hx with ⟨hid, hs, hm⟩ | ⟨-, hm⟩
    · obtain ⟨review, hreview, htaken⟩ := ht x hx hid hs
      refine ⟨f x, hm, (hfid x).trans hrid, (hfr x).trans hrroom, .inr ⟨hfs x, x.dispatch, review, (hfid x).symm,
        (hfr x).symm, htaken, ?_⟩⟩
      rcases hstatus with ⟨-, review', hreview', hpayload⟩ | ⟨hs', -⟩
      · rw [Option.some.inj (hreview.symm.trans hreview')]
        exact hpayload
      · rw [hs] at hs'
        cases hs'
    · exact ⟨x, hm, hrid, hrroom, hstatus⟩
  · intro id' room route hm y hy hyid
    rcases hback y hy with hy | ⟨x, -, rfl⟩
    · exact h.offered id' room route hm y hy hyid
    · exact hfs x

theorem prune (h : Told s) :
    Told { s with journal := { s.journal with jobs := Journal.prune s.journal.routes s.journal.jobs } } := by
  refine ⟨?_, ?_, h.order, ?_, ?_, ?_, ?_, ?_⟩
  · exact (List.filter_sublist.map Job.id).nodup h.ids
  · exact fun x hx hopen y hy hr => h.last x (Journal.mem_prune hx) hopen y (Journal.mem_prune hy) hr
  · intro e he
    obtain ⟨x, hx, hle⟩ := h.known e he
    obtain ⟨y, hy, hxy⟩ := @Journal.exists_ge_of_prune s.journal.routes _ _ hx
    exact ⟨y, hy, hle.trans hxy⟩
  · intro d payload answer hm
    refine (h.asked d payload answer hm).imp (fun ⟨x, hx, hd, hopen⟩ => ⟨x, Journal.mem_prune_of hx (.inl ?_), hd, hopen⟩) id
    simpa [Job.open] using hopen
  · exact fun x hx hs => h.pending x (Journal.mem_prune hx) hs
  · intro r hr
    obtain ⟨x, hx, hrid, hrest⟩ := h.routes r hr
    exact ⟨x, Journal.mem_prune_of hx (.inr ⟨r, hr, hrid.symm⟩), hrid, hrest⟩
  · exact fun id room route hm x hx hid => h.offered id room route hm x (Journal.mem_prune hx) hid

theorem accepted (h : Told s) {id : Nat} {lease : Json} {receipt : Dict} {j : Journal}
    (hj : s.journal.accepted id lease receipt = .ok j)
    (ht : ∀ x ∈ s.journal.jobs, x.id = id → x.status = .publicationPending →
      ∃ review, x.review = some review ∧ Taken s.log x.dispatch review) : Told { s with journal := j } := by
  obtain ⟨-, rfl⟩ := Journal.accepted_ok hj
  exact (h.accept ht).prune

end Told

/-! ## What the runner keeps -/

section

variable {τ ν α : Type} {T : Transport τ ν} {s : RunnerState τ}

/-- The program keeps the invariant wherever it dies, and ends in `Q`. -/
abbrev Keeps (T : Transport τ ν) (p : Act α) (Q : α → RunnerState τ → Prop) (s : RunnerState τ) : Prop :=
  wp (host T) (fun _ _ _ => True) Told p Q s

theorem keeps_look {Q : Journal → RunnerState τ → Prop} (h : Told s) (hq : Q s.journal s) : Keeps T look Q s :=
  ⟨h, fun _ _ => hq⟩

theorem keeps_clock {Q : Int → RunnerState τ → Prop} (h : Told s) (hq : ∀ now, Q now s) : Keeps T clock Q s :=
  ⟨h, fun o _ => hq o.now⟩

theorem keeps_write {e : Entry} {Q : Unit → RunnerState τ → Prop} (h : Told s)
    (hq : ∀ j, e.run s.journal = .ok j → Q () { s with journal := j }) : Keeps T (write e) Q s := by
  refine ⟨h, fun o _ => ?_⟩
  cases hd : o.disk with
  | true =>
      simp only [host, perform, hd, if_true]
      exact h
  | false =>
      cases hj : e.run s.journal with
      | ok j =>
          simp only [host, perform, hd, Bool.false_eq_true, if_false, hj]
          exact hq j hj
      | error err =>
          simp only [host, perform, hd, Bool.false_eq_true, if_false, hj]
          exact h

theorem keeps_send {room : String} {q : Query} {Q : Option Dict → RunnerState τ → Prop} (h : Told s)
    (hq : ∀ reply t, Q reply { s with server := t }) : Keeps T (send room q) Q s := by
  refine ⟨h, fun o _ => ?_⟩
  simp only [host, perform]
  cases (T.call room (.query q) o.network s.server).1 with
  | none => exact h.server _
  | some reply => exact hq reply _

theorem keeps_finish {id : Nat} {room : String} {payload : Dict} {Q : Option Dict → RunnerState τ → Prop} (h : Told s)
    (hlog : ∀ reply (t : τ), Told { s with server := t, log := .finished id room payload reply :: s.log })
    (hq : ∀ reply t, Q reply { s with server := t, log := .finished id room payload (some reply) :: s.log }) :
    Keeps T (finish id room payload) Q s := by
  refine ⟨h, fun o _ => ?_⟩
  simp only [host, perform]
  cases (T.call room (.finish payload) o.network s.server).1 with
  | none => exact hlog none _
  | some reply => exact hq reply _

theorem keeps_offer {id : Nat} {room : String} {route : DraftRoute} {C : RunnerState τ → Prop}
    {Q : Unit → RunnerState τ → Prop} (h : C s) (hlog : ∀ t, C { s with server := t, log := .offered id room route :: s.log })
    (hq : ∀ t, Q () { s with server := t, log := .offered id room route :: s.log }) :
    wp (host T) (fun _ _ _ => True) C (offer id room route) Q s := by
  refine ⟨h, fun o _ => ?_⟩
  simp only [host, perform]
  cases (T.call room (.offer route) o.network s.server).1 with
  | none => exact hlog _
  | some reply => exact hq _

theorem keeps_ask {d : Dispatch} {payload : Dict} {Q : Option Json → RunnerState τ → Prop} (h : Told s)
    (hq : ∀ answer, Q answer { s with log := .asked d payload answer :: s.log }) : Keeps T (ask d payload) Q s :=
  ⟨h, fun o _ => hq o.worker⟩

theorem keeps_need {o : Option α} {Q : α → RunnerState τ → Prop} (h : Told s) (hq : ∀ a, o = some a → Q a s) :
    Keeps T (need o) Q s := by
  cases o with
  | none => exact h
  | some a => exact hq a rfl

theorem keeps_attempt {ε : Type} {x : Except ε α} {Q : α → RunnerState τ → Prop} (h : Told s)
    (hq : ∀ a, x = .ok a → Q a s) : Keeps T (attempt x) Q s := by
  cases x with
  | error e => exact h
  | ok a => exact hq a rfl

/-- A route of an accepted job comes from a review that was taken. -/
theorem Told.route (h : Told s) {room : String} {r : RouteRow} (hr : r ∈ s.journal.pendingRoutes room) :
    (∃ d review, d.id = r.jobId ∧ d.room = room ∧ Taken s.log d review ∧ r.payload ∈ review.routes.getD []) ∧
      ∀ x ∈ s.journal.jobs, x.id = r.jobId → x.status = .accepted := by
  obtain ⟨hr, hroom, x, hx, hid, hs⟩ := Journal.mem_pendingRoutes hr
  refine ⟨?_, fun y hy hyid => by rw [eq_of_key h.ids hy hx (hyid.trans hid.symm)]; exact hs⟩
  obtain ⟨y, hy, hyid, hyroom, hstatus⟩ := h.routes r hr
  obtain rfl := eq_of_key h.ids hx hy (hid.trans hyid.symm)
  rcases hstatus with ⟨hs', -⟩ | ⟨-, d, review, hdid, hdroom, htaken, hpayload⟩
  · rw [hs] at hs'
    cases hs'
  · exact ⟨d, review, hdid.trans hyid, hdroom.trans (hyroom.trans hroom), htaken, hpayload⟩

theorem keeps_routePending {room : String} (h : Told s) : Keeps T (routePending room) (fun _ => Told) s := by
  refine wp_bind (keeps_look h ?_)
  -- along the loop the jobs stay, and so does what is in the log
  let L := fun s' : RunnerState τ => Told s' ∧ s'.journal.jobs = s.journal.jobs ∧ ∀ e ∈ s.log, e ∈ s'.log
  have hloop : wp (host T) (fun _ _ _ => True) L (each (fun r => do
      offer r.jobId room r.payload
      write (.routed r.jobId r.payload.target)) (s.journal.pendingRoutes room)) (fun _ => L) s := by
    refine wp_each (fun r hr s' hs' => ?_) ⟨h, rfl, fun e he => he⟩
    obtain ⟨ht, hjobs, hlog⟩ := hs'
    obtain ⟨⟨d, review, hdid, hdroom, htaken, hpayload⟩, hacc⟩ := h.route hr
    have hoffered : ∀ t, L { s' with server := t, log := .offered r.jobId room r.payload :: s'.log } := by
      intro t
      refine ⟨ht.effect t ⟨d, review, hdid, hdroom, htaken.mono hlog, hpayload⟩ ?_ (fun _ _ _ he => (nomatch he)) ?_, hjobs,
        fun e he => List.mem_cons_of_mem _ (hlog e he)⟩
      · obtain ⟨-, -, x, hx, hid, -⟩ := Journal.mem_pendingRoutes hr
        exact ⟨x, hjobs ▸ hx, hid.ge⟩
      · rintro id room' route he x hx rfl
        injection he with hid
        exact hacc x (hjobs ▸ hx) hid.symm
    refine wp_bind (keeps_offer ⟨ht, hjobs, hlog⟩ hoffered fun t => ?_)
    obtain ⟨ht', hjobs', hlog'⟩ := hoffered t
    refine ⟨hoffered t, fun o _ => ?_⟩
    cases hd : o.disk with
    | true =>
        simp only [host, perform, hd, if_true]
        exact hoffered t
    | false =>
        simp only [host, perform, Entry.run, hd, Bool.false_eq_true, if_false]
        exact ⟨ht'.routed _ _, hjobs', hlog'⟩
  exact wp_mono (wp_crash (fun s' hs' => hs'.1) hloop) fun _ s' hs' => hs'.1

theorem keeps_publish {room : String} {job : Job} (h : Told s) (hjob : job ∈ s.journal.jobs) (hroom : job.room = room)
    (hs : job.status = .publicationPending) : Keeps T (publish room job) (fun _ => Told) s := by
  obtain ⟨review, hreview, hdrafted⟩ := h.pending job hjob hs
  refine wp_bind (keeps_need h fun lease hlease => ?_)
  have hlog : ∀ reply (t : τ), Told { s with
      server := t, log := .finished job.id room (finishPayload lease job.review) reply :: s.log } := by
    intro reply t
    refine h.effect t ⟨⟨job.dispatch, lease, review, rfl, hroom, hdrafted, hlease, by rw [hreview]⟩, ?_⟩
      ⟨job, hjob, Nat.le_refl _⟩ (fun _ _ _ he => (nomatch he)) fun _ _ _ he => (nomatch he)
    intro route hm
    have hacc := h.offered _ _ _ hm job hjob rfl
    rw [hs] at hacc
    cases hacc
  refine wp_bind (keeps_finish h hlog fun reply t => ?_)
  have h₁ := hlog (some reply) t
  refine wp_bind (keeps_need h₁ fun receipt hreceipt => ?_)
  refine wp_bind (keeps_attempt h₁ fun revision hrevision => ?_)
  refine wp_bind (keeps_write h₁ fun j hj => ?_)
  have htaken : Taken (.finished job.id room (finishPayload lease job.review) (some reply) :: s.log) job.dispatch review :=
    ⟨hdrafted.later _, _, receipt, revision, by rw [hreceipt, ← hroom]; exact List.mem_cons_self, hrevision⟩
  have hacc := h₁.accepted hj fun x hx hid _ => by
    rw [eq_of_key h.ids hx hjob hid]
    exact ⟨review, hreview, htaken⟩
  exact wp_bind (wp_mono (keeps_routePending hacc) fun _ s' hs' => hs')

/-- The last job of a room that has an open one. -/
theorem Told.latest (h : Told s) {room : String} {x y : Job} (hx : x ∈ s.journal.jobs) (hr : x.room = room)
    (hopen : x.open = true) (hy : s.journal.latest room = some y) : y = x := by
  obtain ⟨hym, hyr, hlast⟩ := Journal.latest_some hy
  exact eq_of_key h.ids hym hx (Nat.le_antisymm (h.last x hx hopen y hym (hyr.trans hr.symm)) (hlast x hx hr))

theorem keeps_draft {room : String} {job : Job} {payload : Dict} (h : Told s) (hjob : job ∈ s.journal.jobs)
    (hroom : job.room = room) (hs : job.status = .dispatchIntent) (hfresh : ∀ e ∈ s.log, e.job ≠ job.id)
    (hdone : ∀ d payload answer, .asked d payload answer ∈ s.log → d.room = room → ∃ review, Taken s.log d review) :
    Keeps T (draft room job payload job.batch job.snapshot) (fun _ => Told) s := by
  have hasked : ∀ answer, Told { s with log := .asked job.dispatch payload answer :: s.log } := by
    intro answer
    refine h.effect s.server ⟨hfresh, fun d p a hm hr => hdone d p a hm (hr.trans hroom)⟩ ⟨job, hjob, Nat.le_refl _⟩ ?_
      fun _ _ _ he => (nomatch he)
    intro d p a he
    injection he with hd
    exact ⟨job, hjob, hd, by simp [Job.open, hs]⟩
  refine wp_bind (keeps_ask h fun answer => ?_)
  have h₁ := hasked answer
  split
  · next review hv =>
    obtain ⟨value, rfl, hv⟩ := Option.map_eq_some_iff.mp hv
    refine wp_bind (keeps_write h₁ fun j hj => ?_)
    have hdrafted : DraftedFrom (.asked job.dispatch payload (some value) :: s.log) job.dispatch review :=
      ⟨payload, value, List.mem_cons_self, Option.some.inj hv⟩
    have h₂ := h₁.result hj fun x hx hid => by
      rw [eq_of_key h.ids hx hjob hid]
      exact ⟨hroom, hdrafted⟩
    refine wp_bind (keeps_look h₂ (wp_bind (keeps_need h₂ fun job' hlatest => ?_)))
    -- the room's last job is the one that has just got its review
    obtain ⟨-, rfl⟩ := Journal.result_ok hj
    have hnew : { job with status := JobStatus.publicationPending, review := some review } ∈
        updateWhere (fun x => x.id = job.id && x.status = .dispatchIntent)
          (fun x => { x with status := .publicationPending, review := some review }) s.journal.jobs :=
      mem_updateWhere.mpr ⟨job, hjob, by simp [hs]⟩
    have hjob' := h₂.latest hnew hroom rfl hlatest
    exact keeps_publish h₂ (hjob' ▸ hnew) (by rw [hjob']; exact hroom) (by rw [hjob'])
  · refine wp_bind (keeps_write h₁ fun j hj => ?_)
    have hj : .ok (s.journal.block job.id workerFailed) = Except.ok j := hj
    rw [← Except.ok.inj hj]
    exact h₁.block fun x hx hid => by rw [eq_of_key h.ids hx hjob hid]; exact hs

theorem keeps_reviewNext {room : String} {batch : Dict} (h : Told s) :
    Keeps T (reviewNext room batch) (fun _ => Told) s := by
  refine wp_bind (keeps_send h fun wiki t => ?_)
  refine wp_bind (keeps_send (h.server t) fun reply t => ?_)
  refine wp_bind (keeps_need (h.server t) fun asked _ => ?_)
  refine wp_bind (keeps_need (h.server t) fun snapshot _ => ?_)
  refine wp_bind (keeps_attempt (h.server t) fun payload _ => ?_)
  refine wp_bind (keeps_need (h.server t) fun lease _ => ?_)
  refine wp_bind (keeps_send (h.server t) fun reply t => ?_)
  refine wp_bind (keeps_clock (h.server t) fun now => ?_)
  split
  · have h₀ := h.server t
    refine wp_bind (keeps_write h₀ fun j hj => ?_)
    have h₁ := h₀.intent hj
    refine wp_bind (keeps_look h₁ (wp_bind (keeps_need h₁ fun job hlatest => ?_)))
    obtain ⟨batchId, epoch, -, hfree, -, rfl⟩ := Journal.intent_ok hj
    -- the room's last job is the one that has just been entered
    have hjob := h₁.latest (List.mem_append_right _ List.mem_cons_self) rfl rfl hlatest
    subst hjob
    refine keeps_draft h₁ (List.mem_append_right _ List.mem_cons_self) rfl rfl (fun e he hid => ?_) fun d p a hm hr => ?_
    · have hle := h₀.job_le he
      rw [hid] at hle
      exact Nat.not_succ_le_self _ hle
    · rcases h₀.asked d p a hm with ⟨x, hx, rfl, hopen⟩ | htaken
      · exact absurd hr (hfree x hx hopen)
      · exact htaken
  · exact h.server t

theorem keeps_claimNext {room : String} {last : Option Job} (h : Told s) :
    Keeps T (claimNext room last) (fun _ => Told) s := by
  refine wp_bind (keeps_send h fun reply t => ?_)
  split
  · exact h.server t
  · split
    · exact wp_bind (keeps_need (h.server t) fun revision _ => h.server t)
    · exact keeps_reviewNext (h.server t)

theorem keeps_runOnce {room : String} {worker : Bool} (h : Told s) : Keeps T (runOnce room worker) (fun _ => Told) s := by
  refine wp_bind (wp_mono (keeps_routePending h) fun _ s' h => ?_)
  refine wp_bind (keeps_look h ?_)
  split
  · next job hlatest =>
    obtain ⟨hjob, hroom, -⟩ := Journal.latest_some hlatest
    split
    · next hs => exact keeps_publish h hjob hroom hs
    · next hs =>
      refine wp_bind (keeps_write h fun j hj => ?_)
      have hj : .ok (s'.journal.block job.id dispatchUnknown) = Except.ok j := hj
      rw [← Except.ok.inj hj]
      exact h.block fun x hx hid => by rw [eq_of_key h.ids hx hjob hid]; exact hs
    · exact h
    · split
      · exact keeps_claimNext h
      · exact h
  · split
    · exact keeps_claimNext h
    · exact h

end

/-! ## Runs -/

/-- One call of `run_once`, in a process that may die in it. -/
structure Attempt (ν : Type) where
  room : String
  worker : Bool
  outside : List (Outside ν)

def runnerMachine {τ ν : Type} (T : Transport τ ν) : Sys.Machine (RunnerState τ) (Attempt ν) (Option Outcome) where
  init s := s.journal = {} ∧ s.log = []
  step s a := exec (host T) (runOnce a.room a.worker) a.outside s

section

variable {τ ν : Type} {T : Transport τ ν} {tr : List (Attempt ν × Option Outcome)} {s : RunnerState τ}

theorem run_told (r : Sys.Run (runnerMachine T) (fun _ _ => True) tr s) : Told s := by
  refine Sys.Run.invariant (I := Told) ?_ ?_ r
  · rintro s ⟨hj, hl⟩
    obtain ⟨journal, server, log⟩ := s
    subst hj hl
    refine ⟨List.nodup_nil, ?_, trivial, ?_, ?_, ?_, ?_, ?_⟩
    all_goals intros; contradiction
  · intro s a h _
    have hrun := exec_wp (@keeps_runOnce _ _ T s a.room a.worker h) (meets_all (fun _ _ _ => trivial) _ a.outside s)
    show Told (exec (host T) (runOnce a.room a.worker) a.outside s).2
    revert hrun
    split <;> next he => rw [he]; exact id

/-- The jobs that the worker was asked for, latest first. -/
def askedJobs (log : List Effect) : List Nat :=
  log.filterMap fun e => match e with
    | .asked d _ _ => some d.id
    | _ => none

theorem mem_askedJobs {log : List Effect} {id : Nat} (h : id ∈ askedJobs log) : ∃ e ∈ log, e.job = id := by
  obtain ⟨e, he, hid⟩ := List.mem_filterMap.mp h
  cases e with
  | asked d payload answer => exact ⟨_, he, Option.some.inj hid⟩
  | finished id room payload reply => cases hid
  | offered id room route => cases hid

theorem Orderly.askedJobs_nodup {log : List Effect} (h : Orderly log) : (askedJobs log).Nodup := by
  induction log with
  | nil => exact List.nodup_nil
  | cons e log ih =>
      cases e with
      | asked d payload answer =>
          refine List.nodup_cons.mpr ⟨fun hm => ?_, ih h.2⟩
          obtain ⟨e, he, hid⟩ := mem_askedJobs hm
          exact h.1.1 e he hid
      | finished id room payload reply => exact ih h.2
      | offered id room route => exact ih h.2

end

/-! A batch with one message of an agent.  The worker's review has a route to that agent; the first publication is
answered by silence, the second by a receipt. -/

def agentMessage : Dict :=
  [("id", .int 1), ("room", .str "den"), ("sender", .str "bob"), ("sender_type", .str "agent"), ("text", .str "hi"),
    ("ts", .int 5)]

def agentBatch : Dict :=
  [("lease", .obj [("batch_id", .int 1), ("epoch", .int 1)]), ("room", .str "den"), ("after_id", .int 0),
    ("through_id", .int 1), ("reason", .str "message_threshold"), ("lease_expires_at", .int 300000),
    ("attempts", .int 1), ("messages", .arr [.obj agentMessage])]

def heldAgentBatch : Dict := Json.setField "context_requests" (.arr []) agentBatch

theorem reviewPayload_of {room : String} {batch snapshot payload : Dict} {requests : Json}
    (h : prepare room batch snapshot = .ok payload)
    (hsize : Json.bytes (Json.dumps .unicode (.obj (Json.setField "context_requests" requests payload))) ≤ maxInputBytes) :
    reviewPayload room batch snapshot requests = .ok (Json.setField "context_requests" requests payload) := by
  simp only [reviewPayload, h, ok_bind, require, if_pos hsize]
  rfl

/-- What is prepared for a worker, with other instructions. -/
def preparedWith (instructions room : String) (snapshot : Dict) (messages : List Dict) (through : Int) : Dict :=
  [("instructions", .str instructions), ("room", .str room), ("wiki", .obj snapshot),
    ("messages", .arr (messages.map .obj)), ("reviewed_through", .int through)]

/-- The instructions take their own length. -/
theorem instructions_add (instructions : String) (rest : Dict) :
    Json.bytes (Json.dumps .unicode (.obj (("instructions", .str instructions) :: rest))) + 2 =
      Json.bytes (Json.dumps .unicode (.obj (("instructions", .str "") :: rest))) +
        Json.bytes (Json.quote .unicode instructions) := by
  have hempty : Json.bytes (Json.quote .unicode "") = 2 := rfl
  obtain ⟨q, hq⟩ : ∃ q : String → Nat, ∀ s, Json.bytes (Json.quote .unicode s) = q s := ⟨_, fun _ => rfl⟩
  rw [hq] at hempty
  cases h : Json.dumpsFields .unicode rest with
  | nil =>
      simp only [Json.dumps, Json.dumpsFields, h, Json.joined, Json.bytes_append, Json.bytes_cons, Json.bytes_nil, hq, hempty]
      omega
  | cons f fs =>
      simp only [Json.dumps, Json.dumpsFields, h, Json.joined, List.flatMap_cons, Json.bytes_append, Json.bytes_cons,
        Json.bytes_nil, hq, hempty]
      omega

theorem instructions_fit {instructions : String} {rest : Dict} (h : Json.bytes (Json.quote .unicode instructions) ≤ 30000)
    (hrest : Json.bytes (Json.dumps .unicode (.obj (("instructions", .str "") :: rest))) ≤ 2000) :
    Json.bytes (Json.dumps .unicode (.obj (("instructions", .str instructions) :: rest))) ≤ maxInputBytes := by
  have hadd := instructions_add instructions rest
  generalize Json.bytes (Json.dumps .unicode (.obj (("instructions", .str instructions) :: rest))) = size at *
  generalize Json.bytes (Json.dumps .unicode (.obj (("instructions", .str "") :: rest))) = small at *
  unfold maxInputBytes
  omega

/-- A batch and a wiki of 2,000 bytes leave the instructions room enough. -/
theorem reviewPayload_small {room : String} {batch snapshot : Dict} {messages : List Dict} {after through : Int}
    {ids : List Int} (hroom : text "room" batch = some room ∧ text "room" snapshot = some room)
    (hafter : number "after_id" batch = some after) (hreviewed : number "reviewed_through" snapshot = some after)
    (hmessages : records "messages" batch = some messages) (hthrough : number "through_id" batch = some through)
    (hids : messages.mapM (number "id") = some ids)
    (hsources : ids ≠ [] ∧ ids.length ≤ 100 ∧ (∀ id ∈ ids, 0 < id) ∧ ids.Pairwise (· < ·) ∧ (∀ id ∈ ids.head?, after < id) ∧
      ids.getLast? = some through ∧ ∀ m ∈ messages, text "room" m = some room)
    (hsmall : Json.bytes (Json.dumps .unicode (.obj (preparedWith "" room snapshot messages through))) ≤ 2000 ∧
      Json.bytes (Json.dumps .unicode (withRequests (preparedWith "" room snapshot messages through))) ≤ 2000) :
    reviewPayload room batch snapshot (.arr []) =
      .ok (preparedWith workerInstructions room snapshot messages through ++ [("context_requests", .arr [])]) := by
  have hset : ∀ instructions, Json.setField "context_requests" (.arr [])
      (preparedWith instructions room snapshot messages through) =
        preparedWith instructions room snapshot messages through ++ [("context_requests", .arr [])] := fun _ => rfl
  have hprepare : prepare room batch snapshot = .ok (preparedWith workerInstructions room snapshot messages through) := by
    have hfits := instructions_fit instructions_bytes hsmall.1
    unfold preparedWith
    unfold prepare
    simp only [require, hroom.1, hroom.2, hafter, hreviewed, hmessages, hthrough, hids, found_some, ok_bind,
      if_pos hsources, if_true, if_pos hfits]
    rfl
  have hsent := @reviewPayload_of room batch snapshot _ (.arr []) hprepare
  rw [hset] at hsent
  exact hsent (instructions_fit instructions_bytes hsmall.2)

def agentPayload : Dict :=
  preparedWith workerInstructions "den" (sampleWiki "") [agentMessage] 1 ++ [("context_requests", .arr [])]

theorem agent_payload : reviewPayload "den" heldAgentBatch (sampleWiki "") (.arr []) = .ok agentPayload := by
  have hbatch : text "room" heldAgentBatch = some "den" ∧ number "after_id" heldAgentBatch = some 0 ∧
      records "messages" heldAgentBatch = some [agentMessage] ∧ number "through_id" heldAgentBatch = some 1 ∧
      [agentMessage].mapM (number "id") = some [1] := by
    refine ⟨?_, ?_, ?_, ?_, ?_⟩ <;> rfl
  obtain ⟨hroom, hafter, hmessages, hthrough, hids⟩ := hbatch
  have hwiki : text "room" (sampleWiki "") = some "den" ∧ number "reviewed_through" (sampleWiki "") = some 0 := ⟨rfl, rfl⟩
  exact reviewPayload_small ⟨hroom, hwiki.1⟩ hafter hwiki.2 hmessages hthrough hids (by decide) (by decide +kernel)

/-- The network answers what is written down. -/
def scripted : Transport Unit (Option (Option Dict)) := ⟨fun _ _ reply s => (reply, s)⟩

def piece (reply : Option (Option Dict)) (worker : Option Json) : Outside (Option (Option Dict)) := ⟨reply, false, worker, 0⟩

def agentAnswer : Json :=
  .obj [("expected_revision", .int 3), ("reviewed_through", .int 1), ("reason", .str "read"), ("pages", .arr []),
    ("routes", .arr [.obj [("target", .str "bob"), ("slugs", .arr [.str "a"]), ("reason", .str "asked")]])]

def agentRoute : DraftRoute := ⟨"bob", ["a"], "asked"⟩

def agentReview : DraftReview := ⟨3, 1, "read", [], some [agentRoute]⟩

def agentLease : Json := .obj [("batch_id", .int 1), ("epoch", .int 1)]

def agentJob : Job := ⟨1, "den", 1, 1, .publicationPending, heldAgentBatch, sampleWiki "", some agentReview, none, none⟩

/-- The job as it was entered. -/
def agentEntered : Job := { agentJob with status := .dispatchIntent, review := none }

/-- The first publication has gone out. -/
def agentPending : RunnerState Unit where
  journal := ⟨[agentJob], [⟨1, "den", agentRoute⟩]⟩
  server := ()
  log := [.finished 1 "den" (finishPayload agentLease (some agentReview)) none,
    .asked agentJob.dispatch agentPayload (some agentAnswer)]

section

variable {τ ν α β : Type} {T : Transport τ ν} {s : RunnerState τ} {es : List (Outside ν)} {o : Outside ν}

theorem exec_look {k : Journal → Act α} : exec (host T) (look >>= k) (o :: es) s = exec (host T) (k s.journal) es s := rfl

theorem exec_clock {k : Int → Act α} : exec (host T) (clock >>= k) (o :: es) s = exec (host T) (k o.now) es s := rfl

theorem exec_send {room : String} {q : Query} {k : Option Dict → Act α} {reply : Option Dict} {server : τ}
    (h : T.call room (.query q) o.network s.server = (some reply, server)) :
    exec (host T) (send room q >>= k) (o :: es) s = exec (host T) (k reply) es { s with server } := by
  have hp : (host T).perform (.send room q) o s = (some reply, { s with server }) := by
    simp only [host, perform, h]
    rfl
  exact exec_cmd _ hp

theorem exec_finish {id : Nat} {room : String} {payload : Dict} {k : Option Dict → Act α} {receipt : Option Dict}
    {server : τ} (h : T.call room (.finish payload) o.network s.server = (some receipt, server)) :
    exec (host T) (finish id room payload >>= k) (o :: es) s =
      exec (host T) (k receipt) es { s with server, log := .finished id room payload (some receipt) :: s.log } := by
  have hp : (host T).perform (.finish id room payload) o s =
      (some receipt, { s with server, log := .finished id room payload (some receipt) :: s.log }) := by
    simp only [host, perform, h]
    rfl
  exact exec_cmd _ hp

theorem exec_finish_lost {id : Nat} {room : String} {payload : Dict} {k : Option Dict → Act α} {server : τ}
    (h : T.call room (.finish payload) o.network s.server = (none, server)) :
    exec (host T) (finish id room payload >>= k) (o :: es) s =
      (none, { s with server, log := .finished id room payload none :: s.log }) := by
  have hp : (host T).perform (.finish id room payload) o s =
      (none, { s with server, log := .finished id room payload none :: s.log }) := by
    simp only [host, perform, h]
    rfl
  show exec (host T) (.cmd (.finish id room payload) _) (o :: es) s = _
  simp only [exec, hp]

theorem exec_routePending {room : String} {k : Unit → Act α} (h : s.journal.pendingRoutes room = []) :
    exec (host T) (routePending room >>= k) (o :: es) s = exec (host T) (k ()) es s := by
  have hp : (host T).perform .look o s = (some s.journal, s) := rfl
  show exec (host T) (.cmd .look _) (o :: es) s = _
  rw [exec_cmd _ hp]
  show exec (host T) (each _ (s.journal.pendingRoutes room) >>= k) es s = _
  rw [h]
  rfl

theorem exec_ask {d : Dispatch} {payload : Dict} {k : Option Json → Act α} :
    exec (host T) (ask d payload >>= k) (o :: es) s =
      exec (host T) (k o.worker) es { s with log := .asked d payload o.worker :: s.log } := rfl

theorem exec_write {e : Entry} {k : Unit → Act α} {j : Journal} (hd : o.disk = false) (h : e.run s.journal = .ok j) :
    exec (host T) (write e >>= k) (o :: es) s = exec (host T) (k ()) es { s with journal := j } := by
  have hp : (host T).perform (.write e) o s = (some (), { s with journal := j }) := by
    simp only [host, perform, hd, Bool.false_eq_true, if_false, h]
    rfl
  exact exec_cmd _ hp

theorem exec_need {x : Option β} {a : β} {k : β → Act α} (h : x = some a) :
    exec (host T) (need x >>= k) es s = exec (host T) (k a) es s := by
  rw [h]
  rfl

theorem exec_attempt {ε : Type} {x : Except ε β} {a : β} {k : β → Act α} (h : x = .ok a) :
    exec (host T) (attempt x >>= k) es s = exec (host T) (k a) es s := by
  rw [h]
  rfl

end

def agentFirst : Attempt (Option (Option Dict)) where
  room := "den"
  worker := true
  outside := [piece none none, piece none none, piece (some (some agentBatch)) none, piece (some (some (sampleWiki ""))) none,
    piece (some (some sampleRequests)) none, piece (some (some [("lease_expires_at", .int 9)])) none, piece none none,
    piece none none, piece none none, piece none (some agentAnswer), piece none none, piece none none, piece none none]

theorem agent_first : (runnerMachine scripted).step { server := () } agentFirst = (none, agentPending) := by
  have hstart : ∀ es, exec (host scripted) (runOnce "den" true) (piece none none :: piece none none :: es) { server := () } =
    exec (host scripted) (claimNext "den" none) es { server := () } := fun _ => rfl
  have hrequests : (Json.field "requests" sampleRequests).getD (.arr []) = Json.arr [] := rfl
  have hheld : Json.setField "context_requests" (.arr []) agentBatch = heldAgentBatch := rfl
  show exec (host scripted) (runOnce "den" true) _ _ = _
  unfold agentFirst
  rw [hstart]
  unfold claimNext
  rw [exec_send rfl]
  show exec (host scripted) (reviewNext "den" agentBatch) _ _ = _
  unfold reviewNext
  have hintent : Entry.run (.intent "den" heldAgentBatch (sampleWiki "")) {} =
      .ok ⟨[agentEntered], []⟩ := by
    have hsize : Journal.dumped heldAgentBatch + Journal.dumped (sampleWiki "") ≤ Journal.maxInput := by decide +kernel
    simp only [Entry.run, Journal.intent, require, if_pos hsize]
    rfl
  have hresult : Entry.run (.result agentEntered.id "den" agentReview) ⟨[agentEntered], []⟩ =
      .ok agentPending.journal := by
    simp only [Entry.run, Journal.result, require]
    rfl
  rw [exec_send rfl, exec_send rfl, exec_need rfl, hrequests]
  dsimp only
  rw [hheld, exec_need rfl, exec_attempt agent_payload, exec_need (rfl : Json.field "lease" heldAgentBatch = some agentLease),
    exec_send rfl, exec_clock, if_pos (by decide), exec_write (s := ⟨{}, (), []⟩) rfl hintent, exec_look,
    exec_need (rfl : Journal.latest "den" ⟨[agentEntered], []⟩ = some agentEntered)]
  unfold draft
  rw [exec_ask]
  have hv : (piece none (some agentAnswer)).worker.map (fun a => validateReview a heldAgentBatch (sampleWiki "")) =
    some (.ok agentReview) := rfl
  rw [hv]
  dsimp only
  rw [exec_write (s := ⟨⟨[agentEntered], []⟩, (), _⟩) rfl hresult, exec_look, exec_need (rfl : Journal.latest "den" agentPending.journal = some agentJob)]
  unfold publish
  rw [exec_need (rfl : Json.field "lease" agentJob.batch = some agentLease)]
  rfl

/-- The review was taken and its route offered. -/
def agentDone : RunnerState Unit where
  journal := ⟨[{ agentJob with
    status := .accepted, receipt := some [("revision", .int 4)], batch := [("lease", agentLease)], snapshot := [],
    review := none }], []⟩
  server := ()
  log := .offered 1 "den" agentRoute ::
    .finished 1 "den" (finishPayload agentLease (some agentReview)) (some (some [("revision", .int 4)])) :: agentPending.log

def agentSecond : Attempt (Option (Option Dict)) where
  room := "den"
  worker := true
  outside := [piece none none, piece none none, piece (some (some [("revision", .int 4)])) none, piece none none,
    piece none none, piece (some none) none, piece none none]

theorem agent_run : Sys.Run (runnerMachine scripted) (fun _ _ => True)
    [(agentSecond, some (.accepted 1 4)), (agentFirst, none)] agentDone := by
  have h₁ := @Sys.Run.snoc _ _ _ (runnerMachine scripted) (fun _ _ => True) _ _ agentFirst
    (.nil (⟨rfl, rfl⟩ : (runnerMachine scripted).init { server := () })) trivial
  rw [agent_first] at h₁
  exact .snoc agentSecond h₁ trivial

/-! ## Whole runs -/

section

variable {τ ν : Type} {T : Transport τ ν} {tr : List (Attempt ν × Option Outcome)} {s : RunnerState τ}

/-- In every run, with crashes anywhere and whatever is answered: no job is brought before the worker twice, and a room's
next job only once the server has taken the review of every earlier one.  Where the worker failed, or its answer was
lost or refused, no job of that room is asked for again. -/
theorem worker_asked_once (r : Sys.Run (runnerMachine T) (fun _ _ => True) tr s) :
    (askedJobs s.log).Nodup ∧
    ∀ d payload answer earlier, .asked d payload answer :: earlier <:+ s.log →
      ∀ d' payload' answer', .asked d' payload' answer' ∈ earlier → d'.room = d.room →
        ∃ review, answer'.map (fun a => validateReview a d'.batch d'.snapshot) = some (.ok review) ∧
          Taken earlier d' review := by
  have ho := (run_told r).order
  refine ⟨ho.askedJobs_nodup, fun d payload answer earlier hs d' payload' answer' hm hroom => ?_⟩
  obtain ⟨review, htaken⟩ := (ho.of_suffix hs).2 d' payload' answer' hm hroom
  have hm₀ := hs.subset (List.mem_cons_of_mem _ hm)
  obtain ⟨p, a, hma, hv⟩ := htaken.1
  obtain ⟨-, -, rfl⟩ := ho.asked_once hm₀ (hs.subset (List.mem_cons_of_mem _ hma)) rfl
  exact ⟨review, by rw [Option.map_some, hv], htaken⟩

theorem worker_asked_once_sample : (askedJobs agentDone.log).Nodup ∧ askedJobs agentDone.log = [1] :=
  ⟨(worker_asked_once agent_run).1, rfl⟩

/-- Every publication of a job has one body, whatever became of those before it: the lease that the batch was claimed
with, and the review made from the worker's one answer. -/
theorem finish_replays_review (r : Sys.Run (runnerMachine T) (fun _ _ => True) tr s) {id : Nat} {room : String}
    {payload : Dict} {reply : Option (Option Dict)} (hm : .finished id room payload reply ∈ s.log) :
    (∃ d lease review, d.id = id ∧ d.room = room ∧ DraftedFrom s.log d review ∧ Json.field "lease" d.batch = some lease ∧
      payload = [("lease", lease), ("review", review.toJson)]) ∧
    ∀ room' payload' reply', .finished id room' payload' reply' ∈ s.log → room' = room ∧ payload' = payload := by
  have ho := (run_told r).order
  refine ⟨ho.finished_body hm, fun room' payload' reply' hm' => ?_⟩
  obtain ⟨d, lease, review, hid, hr, hd, hlease, hpayload⟩ := ho.finished_body hm
  obtain ⟨d', lease', review', hid', hr', hd', hlease', hpayload'⟩ := ho.finished_body hm'
  obtain ⟨rfl, rfl⟩ := ho.drafted_once hd hd' (hid.trans hid'.symm)
  obtain rfl := Option.some.inj (hlease.symm.trans hlease')
  exact ⟨hr'.symm.trans hr, hpayload'.trans hpayload.symm⟩

theorem finish_replays_review_sample : ∃ d lease review, d.id = 1 ∧ d.room = "den" ∧ DraftedFrom agentDone.log d review ∧
    Json.field "lease" d.batch = some lease ∧
    finishPayload agentLease (some agentReview) = [("lease", lease), ("review", review.toJson)] :=
  (@finish_replays_review _ _ scripted _ _ agent_run 1 "den" (finishPayload agentLease (some agentReview))
    (some (some [("revision", .int 4)])) (List.mem_cons_of_mem _ List.mem_cons_self)).1

/-- A route is offered only after the server has taken the review that holds it, and that review is not published
again. -/
theorem routes_follow_acceptance (r : Sys.Run (runnerMachine T) (fun _ _ => True) tr s) {id : Nat} {room : String}
    {route : DraftRoute} {earlier : List Effect} (hs : .offered id room route :: earlier <:+ s.log) :
    (∃ d review, d.id = id ∧ d.room = room ∧ Taken earlier d review ∧ route ∈ review.routes.getD []) ∧
    ∀ payload reply before, .finished id room payload reply :: before <:+ s.log →
      .offered id room route ∉ before := by
  have ho := (run_told r).order
  exact ⟨ho.of_suffix hs, fun payload reply before hs' => (ho.of_suffix hs').2 route⟩

theorem routes_follow_acceptance_sample :
    ∃ d review, d.id = 1 ∧ d.room = "den" ∧ Taken (agentDone.log.drop 1) d review ∧ agentRoute ∈ review.routes.getD [] :=
  (routes_follow_acceptance agent_run (⟨[], rfl⟩ : .offered 1 "den" agentRoute :: agentDone.log.drop 1 <:+ agentDone.log)).1

end

end Loca.Runner
