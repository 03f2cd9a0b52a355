/-
# `Loca.Adapter.Runtime` — the persistent adapter as a program

`codex_adapter_v2.py`: the adapter dispatches the attentions of one identity into Codex turns, relays
what the model writes, and recovers after a restart.  It is written here as programs over commands
(`Base.Prog`): a look at the ledger, one call of the store, one request to Codex or the relay, a look
at or a change of the process's own memory.  What Codex answers, which notifications a drain reads
and what time it is come from outside, one piece for each command; an exception ends the process,
and so does running out of outside.

Left out: the texts of the prompts, the Wiki offers, and the health file, which nothing here reads
back, and `thread_scopes`, which nothing reads at all.
-/
import Loca.Base.Assoc
import Loca.Base.Prog
import Loca.Base.Text
import Loca.Adapter.Store

namespace Loca.Adapter

open Table

/-! ## Texts -/

/-- `str.isspace` of one character. -/
def isSpace (c : Char) : Bool := Text.isWhiteSpace c || (0x1C ≤ c.toNat && c.toNat ≤ 0x1F)

/-- `str.strip`. -/
def strip (s : String) : String :=
  String.ofList ((s.toList.dropWhile isSpace).reverse.dropWhile isSpace).reverse

/-- `marker in text`. -/
def occursIn (marker text : String) : Bool := text.toList.tails.any fun t => marker.toList.isPrefixOf t

def missingThreadError (error : String) : Bool :=
  ["thread not found", "unknown thread", "does not exist", "no rollout found for thread id"].any
    fun marker => occursIn marker error.toLower

def inactiveTurnError (error : String) : Bool :=
  ["no active turn", "turn is not active", "turn is not in progress"].any fun marker => occursIn marker error.toLower

/-- The turn that a rejected steer names as the live one. -/
def mismatchedActiveTurn (error expected : String) : Option String :=
  let word (w : List Char) : Bool := !w.isEmpty && w.all fun c => c.toNat ≠ 96 && !isSpace c
  match Text.stripPrefix ("expected active turn id `" ++ expected ++ "` but found `") error with
  | none => none
  | some rest =>
    let found := rest.toList.dropLast
    if word expected.toList && word found && rest = String.ofList found ++ "`" && String.ofList found ≠ expected then
      some (String.ofList found)
    else none

/-! ## What Codex says -/

/-- An item of a turn, as the adapter reads it: missing texts are empty. -/
structure Item where
  kind : String
  id : String
  text : String
  phase : Option String
  clientId : Option String
  deriving DecidableEq, Repr

/-- A turn of the history, or of a notification; `error` is its JSON, empty if there is none. -/
structure CodexTurn where
  id : String
  status : String
  error : String
  items : List Item
  deriving DecidableEq, Repr

inductive Message
  | item (threadId turnId : String) (i : Item)
  | turnCompleted (threadId : String) (turn : CodexTurn)
  /-- A request that a headless client cannot serve. -/
  | request
  | other

inductive Request
  | threadStart
  | threadResume (threadId : String)
  /-- `authoritative_turns`: the whole history; a failed or partial read raises. -/
  | turns (threadId : String)
  | idle (threadId : String)
  | turnStart (threadId clientId : String)
  | turnSteer (threadId expected clientId : String)
  | turnInterrupt (threadId turnId : String)
  | relay (r : RelayItem) (server : String)

/-- An error has a text. -/
def Request.Answer : Request → Type
  | threadStart => Except String String
  | threadResume _ => Option String
  | turns _ => List CodexTurn
  | idle _ => Bool
  | turnStart _ _ => Except String String
  | turnSteer _ _ _ => Except String String
  | turnInterrupt _ _ => Option String
  | relay _ _ => Option String

/-! ## Commands -/

/-- What the process remembers. -/
structure Memory where
  owner : String
  epoch : Int
  activeTurns : Assoc String String := ∅
  scopeThreads : Assoc (String × String) String := ∅

structure World where
  ledger : Ledger
  /-- `none` between two processes. -/
  memory : Option Memory

structure Config where
  identity : String
  inbox : String
  /-- `relay_mode == "live"`. -/
  live : Bool
  py : Python

def leaseTtlMs : Int := 45000
def missingTurnGraceMs : Int := 60000
def noReplySentinel : String := "LOCA_NO_REPLY"

inductive Command
  | look
  | call (m : Mutation)
  | claim
  | renewIfNeeded
  | ingest
  | retrieve
  | remember (f : Memory → Memory)
  | ask (q : Request)
  /-- The notifications that a drain reads. -/
  | drained
  | clock

def Command.Answer : Command → Type
  | look => Ledger
  | call _ => Unit
  | claim => Unit
  | renewIfNeeded => Unit
  | ingest => Unit
  | retrieve => Memory
  | remember _ => Unit
  | ask q => q.Answer
  | drained => List Message
  | clock => Int

/-- What is outside at one command. -/
structure Outside where
  now : Int
  crashed : Bool
  processes : Processes
  renewDue : Bool
  file : List UInt8
  answer : (q : Request) → Option q.Answer
  messages : List Message

/-- A call of the store; what it raises ends the process. -/
def World.stored (w : World) (py : Python) (i : StoreInput) : Option Reply × World :=
  match w.ledger.storeStep py i with
  | (.ok r, l) => (some r, { w with ledger := l })
  | (.error _, l) => (none, { w with ledger := l })

def perform (cfg : Config) (c : Command) (o : Outside) (w : World) : Option c.Answer × World :=
  match c, w.memory with
  | _, none => (none, w)
  | .look, some _ => (some w.ledger, w)
  | .call m, some mem =>
      let (r, w) := w.stored cfg.py (.call (.mutate m ⟨mem.owner, mem.epoch, o.now⟩) o.crashed)
      (r.map fun _ => (), w)
  | .claim, some mem =>
      match w.stored cfg.py (.call (.claim o.processes cfg.identity mem.owner leaseTtlMs o.now) o.crashed) with
      | (some (.epoch e), w) => (some (), { w with memory := some { mem with epoch := e } })
      | (_, w) => (none, w)
  | .renewIfNeeded, some mem =>
      if o.renewDue then
        let (r, w) := w.stored cfg.py (.call (.renew cfg.identity leaseTtlMs ⟨mem.owner, mem.epoch, o.now⟩) o.crashed)
        (r.map fun _ => (), w)
      else (some (), w)
  | .ingest, some _ =>
      let (r, w) := w.stored cfg.py (.ingest cfg.inbox cfg.identity o.now o.file o.crashed)
      (r.map fun _ => (), w)
  | .retrieve, some mem => (some mem, w)
  | .remember f, some mem => (some (), { w with memory := some (f mem) })
  | .ask q, some _ => (o.answer q, w)
  | .drained, some _ => (some o.messages, w)
  | .clock, some _ => (some o.now, w)

def host (cfg : Config) : Sys.Prog.Host Command World Outside Command.Answer := ⟨perform cfg⟩

abbrev Act := Sys.Prog Command Command.Answer

namespace Act

def look : Act Ledger := .cmd .look .ret
def call (m : Mutation) : Act Unit := .cmd (.call m) .ret
def claim : Act Unit := .cmd .claim .ret
def renewIfNeeded : Act Unit := .cmd .renewIfNeeded .ret
def ingest : Act Unit := .cmd .ingest .ret
def retrieve : Act Memory := .cmd .retrieve .ret
def remember (f : Memory → Memory) : Act Unit := .cmd (.remember f) .ret
def ask (q : Request) : Act q.Answer := .cmd (.ask q) .ret
def drained : Act (List Message) := .cmd .drained .ret
def clock : Act Int := .cmd .clock .ret

end Act

open Act Sys.Prog

/-! The rules for the commands: the process may die at each, and what it answers is what it sees. -/

section

variable {cfg : Config} {ok : World → Command → Outside → Prop} {C : World → Prop} {w : World} {α : Type}
  {Q : α → World → Prop}

theorem wp_look {k : Ledger → Act α} (h : C w) (hk : wp (host cfg) ok C (k w.ledger) Q w) :
    wp (host cfg) ok C (look >>= k) Q w := by
  refine ⟨h, fun o _ => ?_⟩
  cases hm : w.memory with
  | none =>
      simp only [host, perform, hm]
      exact h
  | some mem =>
      simp only [host, perform, hm]
      exact hk

theorem stored_call {py : Python} (m : Mutation) (f : Fence) (crashed : Bool) (w : World) :
    (w.stored py (.call (.mutate m f) crashed)) = (none, w) ∨
      ∃ r, m.run f w.ledger = .ok (r, m.effect f w.ledger) ∧
        w.stored py (.call (.mutate m f) crashed) = (some r, { w with ledger := m.effect f w.ledger }) := by
  simp only [World.stored, Ledger.storeStep, Ledger.step]
  rcases Check.atomically_cases crashed .crashed (fun l => LedgerCall.run l (.mutate m f)) w.ledger with
    ⟨r, l', hrun, hs⟩ | ⟨e, hs⟩
  · obtain rfl := Mutation.run_effect hrun
    exact .inr ⟨r, hrun, by rw [hs]⟩
  · exact .inl (by rw [hs])

theorem wp_call {m : Mutation} {Q : Unit → World → Prop} (h : C w)
    (hm : ∀ f r, m.run f w.ledger = .ok (r, m.effect f w.ledger) → Q () { w with ledger := m.effect f w.ledger }) :
    wp (host cfg) ok C (call m) Q w := by
  refine ⟨h, fun o _ => ?_⟩
  cases hmem : w.memory with
  | none =>
      simp only [host, perform, hmem]
      exact h
  | some mem =>
      simp only [host, perform, hmem]
      rcases @stored_call cfg.py m ⟨mem.owner, mem.epoch, o.now⟩ o.crashed w with hs | ⟨r, hrun, hs⟩
      · rw [hs]
        exact h
      · rw [hs]
        exact hm _ r hrun

/-- A command changes the ledger by one call of the store, or not at all. -/
theorem perform_ledger (c : Command) (o : Outside) : (perform cfg c o w).2.ledger = w.ledger ∨
    ∃ i, (perform cfg c o w).2.ledger = (w.ledger.storeStep cfg.py i).2 := by
  have hstored : ∀ i, (w.stored cfg.py i).2.ledger = (w.ledger.storeStep cfg.py i).2 := by
    intro i
    unfold World.stored
    split <;> next he => rw [he]
  cases hm : w.memory with
  | none => cases c <;> simp only [perform, hm] <;> exact .inl trivial
  | some mem =>
      cases c <;> simp only [perform, hm]
      case call m => exact .inr ⟨_, hstored _⟩
      case claim =>
        split
        · next he => exact .inr ⟨_, by rw [← hstored, he]⟩
        · next he => exact .inr ⟨_, by rw [← hstored, he]⟩
      case renewIfNeeded =>
        split
        · exact .inr ⟨_, hstored _⟩
        · exact .inl rfl
      case ingest => exact .inr ⟨_, hstored _⟩
      all_goals exact .inl trivial

/-- What every call of the store keeps, every program keeps, wherever it dies. -/
theorem exec_ledger {P : Ledger → Prop} (hstep : ∀ l i, P l → P (l.storeStep cfg.py i).2) (p : Act α)
    (outside : List Outside) (h : P w.ledger) : P (exec (host cfg) p outside w).2.ledger := by
  induction p generalizing outside w with
  | ret a => exact h
  | die => exact h
  | cmd c next ih =>
      cases outside with
      | nil => exact h
      | cons o outside =>
          have hp : P (perform cfg c o w).2.ledger := by
            rcases @perform_ledger cfg w c o with he | ⟨i, he⟩
            · rw [he]
              exact h
            · rw [he]
              exact hstep _ i h
          simp only [exec, host]
          split
          · next r w' he => exact ih r outside (by rw [he] at hp; exact hp)
          · next w' he => rw [he] at hp; exact hp

theorem wp_remember {f : Memory → Memory} {Q : Unit → World → Prop} (h : C w)
    (hm : ∀ mem, w.memory = some mem → Q () { w with memory := some (f mem) }) :
    wp (host cfg) ok C (remember f) Q w := by
  refine ⟨h, fun o _ => ?_⟩
  cases hmem : w.memory with
  | none =>
      simp only [host, perform, hmem]
      exact h
  | some mem =>
      simp only [host, perform, hmem]
      exact hm mem hmem

end

/-! ## Output -/

/-- The public messages of an attention's event. -/
def deliveryMessages (a : Attention) : List (List (String × Json)) :=
  -- the event was read once at ingest, where a `messages` that is no list raises
  match eventMessages a.event with
  | .error _ => []
  | .ok messages => messages.filterMap fun m => match agentEvent m with
    | .dropped => none
    | .same => some m
    | .cleaned fields => some fields

def relayTargetFrom (py : Python) : String → List (List (String × Json)) → String
  | fallback, [] => fallback
  | fallback, m :: rest =>
    let sender := strip (py.strOr "sender" "" m)
    if sender = "" then relayTargetFrom py fallback rest
    else if (Json.field "sender_type" m).any (Json.isStr "user") then sender
    else relayTargetFrom py (if fallback ≠ "-" then fallback else sender) rest

/-- The latest user who wrote, or the latest sender. -/
def relayTarget (py : Python) (attentions : List Attention) : String :=
  relayTargetFrom py "-" (attentions.reverse.flatMap fun a => (deliveryMessages a).reverse)

def stableRelayOpId (py : Python) (bundleIds attentionIds : List String) (turnId itemId relayKind : String) : String :=
  "loca-v2-" ++ py.sha256Hex ("\n".intercalate (bundleIds ++ attentionIds ++ [turnId, itemId, relayKind]))

/-- Attentions of several rooms or servers in one turn. -/
def crossRoom (attentions : List Attention) : Bool :=
  attentions.any fun a => attentions.any fun b => a.room ≠ b.room || a.server ≠ b.server

/-- The row that `create_output` asks for, if it asks for one. -/
def outputRow (cfg : Config) (l : Ledger) (turnId itemId : String) (phase : Option String) (text relayKind : String)
    (status : Option String) (covered : Option (List String)) : Option RelayRequest :=
  let attentions := (l.acceptedForTurn turnId).filter fun a => covered.all fun ids => ids.contains a.attentionId
  match attentions with
  | [] => none
  | a :: _ =>
    let ids := attentions.map Attention.attentionId
    some {
      opId := stableRelayOpId cfg.py (firstOccurrences (attentions.map Attention.bundleId)) ids turnId itemId relayKind,
      identity := cfg.identity, room := a.room, target := relayTarget cfg.py attentions, turnId := turnId,
      itemId := itemId, phase := phase, text := text, coveredAttentionIds := ids, relayKind := relayKind,
      status := status.getD (if cfg.live then "pending" else "shadow") }

def createOutput (cfg : Config) (turnId itemId : String) (phase : Option String) (text relayKind : String)
    (status : Option String) (covered : Option (List String)) : Act Unit := do
  let l ← look
  if crossRoom (l.acceptedForTurn turnId) then die
  else match outputRow cfg l turnId itemId phase text relayKind status covered with
    | none => pure ()
    | some q => call (.createRelayItem q)

def handleAgentItem (cfg : Config) (turnId : String) (item : Item) : Act Unit := do
  let text := strip item.text
  if item.kind ≠ "agentMessage" || text = "" || item.id = "" then pure ()
  else
    let l ← look
    if l.turnHasRelayItem turnId item.id then pure ()
    else if text = noReplySentinel then do
      createOutput cfg turnId item.id item.phase text "no_reply" (some "suppressed") none
      call (.markTurnNoReply turnId)
    else if item.phase = some "commentary" then
      if l.turnAllowsCommentary turnId then createOutput cfg turnId item.id (some "commentary") text "commentary" none none
      else createOutput cfg turnId item.id (some "commentary") text "commentary_suppressed" (some "suppressed") none
    else if item.phase = some "final_answer" then
      if (l.uncoveredFinalAttentionIds turnId).isEmpty then
        createOutput cfg turnId item.id (some "final_answer") text "final_suppressed" (some "suppressed") none
      else createOutput cfg turnId item.id (some "final_answer") text "final" none none
    else createOutput cfg turnId item.id none text "candidate" (some "held") none

/-- The latest held item of a turn. -/
def Ledger.latestUnknownItem (l : Ledger) (turnId : String) : Option RelayItem :=
  ((l.relays.filter fun r => r.turnId = turnId && r.relayKind = "candidate").insertionSort
    fun a b => b.createdAtMs < a.createdAtMs ∨ a.createdAtMs = b.createdAtMs ∧ b.opId ≤ a.opId).head?

/-- The held item that a completed turn may still promote. -/
def Ledger.promotable (l : Ledger) (turnId : String) : Option RelayItem :=
  (l.latestUnknownItem turnId).filter fun c =>
    c.coveredAttentionIds.any fun id => (l.uncoveredFinalAttentionIds turnId).contains id

def mappedStatus (status : String) : String :=
  if ["completed", "interrupted", "failed", "cancelled", "expired"].contains status then status else "failed"

/-- A turn that completed without a final answer gives its last held item. -/
def promoteHeld (cfg : Config) (turnId status : String) : Act Unit :=
  if status ≠ "completed" then pure ()
  else do
    let l ← look
    match l.promotable turnId with
    | none => pure ()
    | some c => createOutput cfg turnId (c.itemId ++ ":fallback") none c.text "final" none (some c.coveredAttentionIds)

def handleTurnCompleted (cfg : Config) (threadId : String) (turn : CodexTurn) : Act Unit :=
  if turn.id = "" then pure ()
  else do
    let status := if turn.status = "" then "failed" else turn.status
    promoteHeld cfg turn.id status
    call (.markTurnCompleted turn.id (mappedStatus status) turn.error)
    remember fun m => if m.activeTurns.get threadId = some turn.id then
      { m with activeTurns := m.activeTurns.del threadId } else m

def handleMessage (cfg : Config) : Message → Act Unit
  | .item _ turnId i => handleAgentItem cfg turnId i
  | .turnCompleted threadId turn => handleTurnCompleted cfg threadId turn
  | .request => die
  | .other => pure ()

def drainMessages (cfg : Config) : Act Unit := do
  let messages ← drained
  each (handleMessage cfg) messages

/-- Send what is pending; a relay whose turn is unknown waits. -/
def processRelays (cfg : Config) : Act Unit :=
  if !cfg.live then pure ()
  else do
    let now ← clock
    let l ← look
    each (fun r => do
      renewIfNeeded
      let l ← look
      match l.turn? r.turnId with
      | none => pure ()
      | some turn => do
        -- `assert_lease`: a process that has lost its lease sends nothing
        let now ← clock
        let mem ← retrieve
        let l ← look
        if l.holds cfg.identity mem.owner mem.epoch now then
          let error ← ask (.relay r turn.server)
          match error with
          | none => call (.markRelayAccepted r.opId)
          | some error => call (.markRelayFailed r.opId error 1000)
        else die) (l.pendingRelays cfg.identity now)

end Loca.Adapter
