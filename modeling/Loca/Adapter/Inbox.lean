/-
# `Loca.Adapter.Inbox` — reading the inbox

`parse_record` of `orchestrator_queue.py`, `agent_event` of `wiki_state.py` and
`ingest_inbox` of `attention_store.py`.  The listener appends one JSON line per delivery; a
call reads the complete lines past the stored offset, files what each says, and stores the new
offset, all in one transaction.

A line is first read (`digest`: everything that can raise) and then filed (`Entry.file`: the
statements).  The source interleaves the two per line, which nobody can see: a call that raises
keeps nothing.

`Python` holds what the program takes from its runtime; strings with lone surrogates, which
SQLite refuses, are not modelled.
-/
import Mathlib.Algebra.Group.Int.Defs
import Loca.Adapter.Ledger
import Loca.Base.Lines

namespace Loca.Adapter

open Check Table

structure Python where
  /-- `json.loads(raw.decode("utf-8"))`. -/
  loads : List UInt8 → Option Json
  /-- `str` of anything that is not a string. -/
  render : Json → String
  /-- `int(value)`, or the class of the exception it raises. -/
  toInt : Json → Except String Int
  /-- `hashlib.sha256(text.encode("utf-8")).hexdigest()`. -/
  sha256Hex : String → String
  casefold : String → String

def Python.str (py : Python) : Json → String
  | .str s => s
  | j => py.render j

/-- `str(record.get(key) or default)`. -/
def Python.strOr (py : Python) (key default : String) (fields : List (String × Json)) : String :=
  ((Json.given key fields).map py.str).getD default

def attentionIdFor (py : Python) (identity server deliveryId : String) : String :=
  "attention:" ++ identity ++ ":" ++ String.ofList ((py.sha256Hex server).toList.take 12) ++ ":" ++
    deliveryId

/-! ## Retired metadata -/

/-- What is left of an event: nothing, the event itself, or a cleaned copy. -/
inductive Public
  | dropped
  | same
  | cleaned (fields : List (String × Json))

def retired : List String := ["memory", "memory_trigger", "memory_freshness"]

/-- `agent_event`, given what became of the items of its `messages` list. -/
def publicOf (fields : List (String × Json)) (items : Option (List (Json × Public))) : Public :=
  let isKind (kind : String) : Bool := (Json.field "t" fields).any (Json.isStr kind)
  let clean := fields.filter fun f => !retired.contains f.1
  let unchanged : Public := if fields.any fun f => retired.contains f.1 then .cleaned clean else .same
  if isKind "memory" || isKind "memoryversion" then .dropped
  else match items with
    | none => unchanged
    | some items =>
      if items.all fun x => match x.2 with | .same => true | _ => false then unchanged
      else
        let messages := items.filterMap fun x => match x.2 with
          | .dropped => none
          | .same => some x.1
          | .cleaned f => some (.obj f)
        if isKind "turn" && messages.isEmpty then .dropped
        else .cleaned (Json.setField "messages" (.arr messages) clean)

mutual

def publicItem : Json → Public
  | .obj fields => publicOf fields (publicMessages fields)
  | .null | .bool _ | .int _ | .float _ _ _ | .str _ | .arr _ => .same

/-- The items of the `messages` list, if there is one. -/
def publicMessages : List (String × Json) → Option (List (Json × Public))
  | [] => none
  | f :: rest => publicField f (publicMessages rest)

def publicField : String × Json → Option (List (Json × Public)) → Option (List (Json × Public))
  | (key, value), rest => if key = "messages" then publicList value else rest

def publicList : Json → Option (List (Json × Public))
  | .arr items => some (publicItems items)
  | .null | .bool _ | .int _ | .float _ _ _ | .str _ | .obj _ => none

def publicItems : List Json → List (Json × Public)
  | [] => []
  | item :: items => (item, publicItem item) :: publicItems items

end

/-- `agent_event`. -/
def agentEvent (fields : List (String × Json)) : Public := publicItem (.obj fields)

/-! ## Records -/

/-- The fields of a record as the queue reader returns it. -/
def parseRecord (py : Python) (raw : List UInt8) (offset : Nat) :
    Except Fault (List (String × Json)) :=
  match py.loads raw with
  | none => .error (.value ("invalid inbox JSON at byte " ++ toString offset))
  | some (.obj fields) => do
    require ((Json.given "delivery_id" fields).isSome = true)
      (.value ("invalid inbox record at byte " ++ toString offset))
    pure (match Json.field "event" fields with
      | some (.obj event) => match agentEvent event with
        | .dropped => Json.setField "event" (.obj [("t", .str "legacy_context")])
            (Json.setField "priority" (.str "informational")
              (Json.setField "_legacy_context_only" (.bool true) fields))
        | .same => fields
        | .cleaned clean => Json.setField "event" (.obj clean) fields
      | _ => fields)
  | some _ => .error (.value ("invalid inbox record at byte " ++ toString offset))

/-- `event_messages`: the dicts of a turn, or the event itself. -/
def eventMessages (event : List (String × Json)) : Except Fault (List (List (String × Json))) :=
  if (Json.field "t" event).any (Json.isStr "turn") then
    found (((Json.field "messages" event).getD .null).dicts) (.raised "TypeError")
  else .ok [event]

/-- `message_range`: the least and the greatest message id. -/
def messageRange (event : List (String × Json)) : Except Fault (Option (Int × Int)) := do
  let messages ← eventMessages event
  let ids := messages.filterMap fun m => (Json.field "id" m).bind Json.asInt
  pure (match ids with
    | [] => none
    | id :: rest => some (rest.foldl min id, rest.foldl max id))

/-- A value SQLite can store. -/
def fits (n : Int) : Prop := -(2 ^ 63) ≤ n ∧ n < 2 ^ 63

instance (n : Int) : Decidable (fits n) := inferInstanceAs (Decidable (_ ∧ _))

/-! ## Priorities -/

def priorityRanks : List (String × Nat) :=
  [("security_control", 0), ("direct_user", 1), ("care_signal", 2), ("explicit_task", 3),
    ("lead_room", 4), ("broadcast", 5), ("addressed_agent", 6), ("informational", 7)]

def isNameChar (c : Char) : Bool := c.isAlphanum || c = '_' || c = '-'

/-- The names after an `@` that no name character precedes. -/
def exactMentionsFrom (afterName : Bool) : List Char → List String
  | [] => []
  | c :: rest =>
    let name := rest.takeWhile isNameChar
    if c = '@' && !afterName && !name.isEmpty then
      String.ofList name :: exactMentionsFrom (isNameChar c) rest
    else exactMentionsFrom (isNameChar c) rest

def exactMentions (py : Python) (message : List (String × Json)) : List String :=
  (exactMentionsFrom false (py.strOr "text" "" message).toList).map py.casefold

def messageNames (py : Python) (identity : String) (message : List (String × Json)) : Bool :=
  identity ≠ "" && (py.casefold (py.strOr "target" "" message) = py.casefold identity ||
    (exactMentions py message).contains (py.casefold identity))

def messageBroadcasts (py : Python) (message : List (String × Json)) : Bool :=
  py.casefold (py.strOr "target" "" message) = "all" || (exactMentions py message).contains "all"

/-- `record_priority`: the declared rank, or one guessed from the event. -/
def recordPriority (py : Python) (fields : List (String × Json)) : Except Fault Nat :=
  let declared : Option Nat := (Json.field "priority" fields).bind fun p =>
    (priorityRanks.find? fun r => p.isStr r.1).map Prod.snd
  match declared with
  | some rank => .ok rank
  | none => do
    let event : Option (List (String × Json)) := match Json.field "event" fields with
      | some (.obj event) => some event
      | _ => none
    let messages ← match event with
      | some event => eventMessages event
      | none => .ok []
    let isKind (kind : String) : Bool := event.any fun e => (Json.field "t" e).any (Json.isStr kind)
    let sentBy (kind : String) (m : List (String × Json)) : Bool :=
      (Json.field "sender_type" m).any (Json.isStr kind)
    let identity := py.strOr "identity" "" fields
    let users := messages.filter (sentBy "user")
    pure (if isKind "control" then 0
      else if isKind "care" then 2
      else if isKind "task" then 3
      else if !users.isEmpty && (identity = "" || users.any (messageNames py identity)) then 1
      else if messages.any (messageBroadcasts py) then 5
      else if !users.isEmpty then 4
      else if messages.any fun m => messageNames py identity m && sentBy "agent" m then 6
      else 7)

def replyRequired (fields : List (String × Json)) (priority : String) : Bool :=
  match Json.field "reply_required" fields with
  | some (.bool b) => b
  | _ => priority = "direct_user"

/-! ## One line -/

/-- What a record asks for beyond its context. -/
structure Work where
  deliveryId : String
  priority : String
  priorityRank : Nat
  replyRequired : Bool
  /-- `received_at_ms`, if it says so. -/
  receivedAtMs : Option Int

/-- A line of the inbox, read. -/
structure Entry where
  offset : Nat
  server : String
  room : String
  range : Option (Int × Int)
  event : List (String × Json)
  /-- `none` for a context-only record. -/
  work : Option Work

/-- Read one complete line that starts at `offset`. -/
def digest (py : Python) (identity : String) (raw : List UInt8) (offset : Nat) : Except Fault Entry := do
  let fields ← parseRecord py raw offset
  let recordIdentity := py.strOr "identity" identity fields
  require (recordIdentity = identity)
    (.value ("inbox identity mismatch: expected " ++ identity ++ ", got " ++ recordIdentity))
  match Json.field "event" fields with
  | some (.obj event) => do
    let range ← messageRange event
    let room := py.strOr "room" "" fields
    require (room ≠ "" → ∀ r ∈ range, fits r.2) (.raised "OverflowError")
    let entry : Entry := ⟨offset, py.strOr "server" "" fields, room, range, event, none⟩
    let priority := py.strOr "priority" "informational" fields
    if priority = "informational" then pure entry
    else do
      let rank ← recordPriority py fields
      let received ← match Json.given "received_at_ms" fields with
        | none => .ok none
        | some v => ((py.toInt v).mapError .raised).map some
      require ((∀ r ∈ range, fits r.1 ∧ fits r.2) ∧ ∀ n ∈ received, fits n) (.raised "OverflowError")
      let deliveryId := ((Json.field "delivery_id" fields).map py.str).getD ""
      pure { entry with
        work := some ⟨deliveryId, priority, rank, replyRequired fields priority, received⟩ }
  | _ => .error (.value "delivery event is not an object")

/-- The attention of an entry that asks for work. -/
def Entry.row (py : Python) (identity sourceId : String) (now : Int) (e : Entry) (w : Work) : Attention :=
  let id := attentionIdFor py identity e.server w.deliveryId
  { attentionId := id, deliveryId := w.deliveryId, sourceId := sourceId, sourceOffset := e.offset,
    server := e.server, room := e.room, identity := identity, priority := w.priority,
    priorityRank := w.priorityRank, replyRequired := w.replyRequired,
    contextFromId := e.range.map Prod.fst, contextToId := e.range.map Prod.snd, event := e.event,
    bundleId := "bundle:" ++ id, storedAtMs := w.receivedAtMs.getD now }

structure Tally where
  inserted : Nat
  contextOnly : Nat
  duplicate : Nat
  deriving DecidableEq, Repr

/-- A room's watermark moves up to the greatest id seen. -/
def Ledger.watermark (server room : String) (lastId now : Int) (l : Ledger) : Ledger :=
  { l with
    watermarks := insertOrUpdate (fun w => (w.server, w.room)) ⟨server, room, lastId, now⟩
      (fun w => { w with lastId := max w.lastId lastId, observedAtMs := now }) l.watermarks }

/-- `INSERT OR IGNORE INTO attentions`, with its bundle and their link; whether it is new. -/
def Ledger.fileWork (a : Attention) (now : Int) (l : Ledger) : Except Fault (Bool × Ledger) :=
  let l := { l with
    bundles := insertIgnore Bundle.bundleId ⟨a.bundleId, a.identity, a.priority, now⟩ l.bundles }
  let taken := l.attentions.any fun r => r.attentionId = a.attentionId ||
    (r.server = a.server && r.room = a.room && r.identity = a.identity && r.deliveryId = a.deliveryId)
  if taken then .ok (false, l)
  else do
    require (l.bundleLinks.all (fun k => k.bundleId ≠ a.bundleId ||
      (k.attentionId ≠ a.attentionId && k.position ≠ 0)) = true) .integrity
    pure (true, { l with
      attentions := l.attentions ++ [a]
      bundleLinks := l.bundleLinks ++ [⟨a.bundleId, a.attentionId, 0⟩] })

/-- What an entry says of its room, whether or not it asks for work. -/
def Entry.note (now : Int) (e : Entry) (l : Ledger) : Ledger :=
  match e.range with
  | some range => if e.room = "" then l else l.watermark e.server e.room range.2 now
  | none => l

/-- File one entry. -/
def Entry.file (py : Python) (identity sourceId : String) (now : Int) (e : Entry) (t : Tally)
    (l : Ledger) : Except Fault (Tally × Ledger) :=
  match e.work with
  | none => .ok ({ t with contextOnly := t.contextOnly + 1 }, e.note now l)
  | some w => do
    let (new, l) ← (e.note now l).fileWork (e.row py identity sourceId now w) now
    pure (if new then { t with inserted := t.inserted + 1 }
      else { t with duplicate := t.duplicate + 1 }, l)

/-! ## The file -/

def newline : UInt8 := 10

/-- The loop over the lines: what was filed, and the offset reached. -/
def ingestLines (py : Python) (identity sourceId : String) (now : Int) :
    List (List UInt8) → Nat → Tally → Ledger → Except Fault ((Tally × Nat) × Ledger)
  | [], offset, t, l => .ok ((t, offset), l)
  | raw :: lines, offset, t, l => do
    let e ← digest py identity raw offset
    let (t, l) ← e.file py identity sourceId now t l
    ingestLines py identity sourceId now lines (offset + raw.length) t l

def sourceIdOf (path identity : String) : String := identity ++ ":" ++ path

def Ledger.offsetOf (sourceId : String) (l : Ledger) : Nat :=
  ((l.sources.find? fun s => s.sourceId = sourceId).map Source.offset).getD 0

/-- `ingest_inbox` on a file with these bytes (a missing file is empty). -/
def ingestInbox (py : Python) (path identity : String) (now : Int) (file : List UInt8) :
    Call (Tally × Nat) := fun l => do
  let sourceId := sourceIdOf path identity
  let stored := l.offsetOf sourceId
  let offset := if file.length < stored then 0 else stored
  let (done, l) ← ingestLines py identity sourceId now (Lines.complete newline (file.drop offset)) offset ⟨0, 0, 0⟩ l
  pure (done, { l with
    sources := insertOrUpdate Source.sourceId ⟨sourceId, path, done.2, now⟩
      (fun s => { s with path := path, offset := done.2, updatedAtMs := now }) l.sources })

end Loca.Adapter
