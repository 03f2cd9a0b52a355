/-
# `Loca.Queue.Reader` — the durable queue over an inbox

`orchestrator_queue.py`: the listener appends one JSON line per delivery, `next_record` offers
the most urgent one that is not acknowledged, and `ack_record` records that the worker is done
with it.  What is acknowledged is remembered in three ways: a byte offset that everything before
is behind, a greatest message id for each room, and the last ids that were acknowledged.

`load_state` reads back what `save_state` wrote: offsets and message ids are not negative, and
the remembered ids are non-empty strings and no more than the limit.  So a cursor here is the
state that both of them speak of.
-/
import Loca.Base.Assoc
import Loca.Base.Run
import Loca.Adapter.Inbox

namespace Loca.Queue

open Adapter Check

/-! ## Ranks -/

/-- `ACK_HISTORY_LIMIT`. -/
def ackHistoryLimit : Nat := 1024

/-- `PROTECTED_PRIORITIES`: controls, care signals and tasks. -/
def isProtected (rank : Nat) : Bool := rank = 0 || rank = 2 || rank = 3

/-- Chat: direct calls, the lead's room, broadcasts and other agents. -/
def isCompactable (rank : Nat) : Bool := rank = 1 || rank = 4 || rank = 5 || rank = 6

/-! ## The cursor -/

structure Cursor where
  offset : Nat
  rooms : Assoc String Nat
  deliveryId : Option String
  ackedDeliveryIds : List String

/-- `empty_state`. -/
def emptyState : Cursor := ⟨0, ∅, none, []⟩

/-- A record as the scan meets it: its fields, where its line starts and ends, its rank. -/
structure Record where
  fields : List (String × Json)
  offset : Nat
  nextOffset : Nat
  rank : Nat

/-- `str(record["delivery_id"])`. -/
def Record.deliveryId (py : Python) (r : Record) : String :=
  ((Json.field "delivery_id" r.fields).map py.str).getD ""

def Record.room (py : Python) (r : Record) : String := py.strOr "room" "" r.fields

/-- `record.get("last_id")` when it is an integer. -/
def Record.lastId (r : Record) : Option Int := (Json.field "last_id" r.fields).bind Json.asInt

/-! ## What is acknowledged -/

/-- A record of retired metadata. -/
def isLegacy (fields : List (String × Json)) : Bool :=
  (Json.field "_legacy_context_only" fields).any Json.truthy

/-- Is the delivery id among the remembered ones?  A list or a dict cannot be looked up. -/
def isRemembered (fields : List (String × Json)) (c : Cursor) : Except Fault Bool :=
  match (Json.field "delivery_id" fields).getD .null with
  | .arr _ | .obj _ => .error (.raised "TypeError")
  | .str id => .ok (c.ackedDeliveryIds.contains id)
  | .null | .bool _ | .int _ | .float _ _ _ => .ok false

/-- Is the room's greatest acknowledged message id at least the record's? -/
def isBelowWatermark (py : Python) (fields : List (String × Json)) (c : Cursor) : Bool :=
  let room := py.strOr "room" "" fields
  room ≠ "" && ((Json.field "last_id" fields).bind Json.asInt).any fun lastId =>
    lastId ≤ (((c.rooms.get room).getD 0 : Nat) : Int)

def isAlreadyAcked (py : Python) (fields : List (String × Json)) (c : Cursor) : Except Fault Bool :=
  if isLegacy fields then .ok true
  else do
    if ← isRemembered fields c then pure true
    else do
      let rank ← recordPriority py fields
      pure (!isProtected rank && isBelowWatermark py fields c)

/-! ## Choosing -/

/-- The record that is offered, and what its acknowledgement will move. -/
structure Offer where
  record : Record
  /-- `_queue_next_offset`: up to here everything is safe to skip. -/
  safeOffset : Nat
  compacted : Nat

/-- `choose_record`: the most urgent; of chat the newest, of anything else the oldest. -/
def chooseRecord (records : List Record) (base : Nat) : Option Offer :=
  (records.map Record.rank).min?.bind fun best =>
    let candidates := records.filter fun r => r.rank = best
    let chosen := if isCompactable best then candidates.getLast? else candidates.head?
    chosen.map fun chosen =>
      let prior := records.filter fun r => r.offset < chosen.offset
      let protectedPrior := prior.filter fun r => isProtected r.rank
      { record := chosen
        safeOffset := (protectedPrior.map Record.offset).min?.getD chosen.nextOffset
        compacted := (prior.filter fun r => !isProtected r.rank && base < r.nextOffset).length }

/-! ## One pass over the inbox -/

/-- The loop over the lines: the records that are not acknowledged, and the cursor file. -/
def scan (py : Python) : List (List UInt8) → Nat → Cursor → List Record → Except Fault (List Record) × Cursor
  | [], _, c, found => (.ok found, c)
  | raw :: lines, offset, c, found =>
    let next := offset + raw.length
    match parseRecord py raw offset with
    | .error e => (.error e, c)
    | .ok fields =>
      match isAlreadyAcked py fields c with
      | .error e => (.error e, c)
      -- the prefix that is acknowledged is left behind for good
      | .ok true => scan py lines next (if found.isEmpty then { c with offset := next } else c) found
      | .ok false =>
        match recordPriority py fields with
        | .error e => (.error e, c)
        | .ok rank => scan py lines next c (found ++ [⟨fields, offset, next, rank⟩])

/-- What `readline` returns until the file ends. -/
def readLines (bytes : List UInt8) : List (List UInt8) :=
  Lines.complete newline bytes ++
    (if Lines.rest newline bytes = [] then [] else [Lines.rest newline bytes])

/-- One turn of the loop of `next_record`, on an inbox with these bytes. -/
def nextRecord (py : Python) (file : List UInt8) (c : Cursor) : Except Fault (Option Offer) × Cursor :=
  -- a file that was cut is read from its beginning
  let c := if file.length < c.offset then { c with offset := 0 } else c
  if c.offset < file.length then
    match scan py (readLines (file.drop c.offset)) c.offset c [] with
    | (.error e, c) => (.error e, c)
    | (.ok records, c) => (.ok (chooseRecord records c.offset), c)
  else (.ok none, c)

/-! ## Acknowledging -/

/-- The ids remembered once `deliveryId` is acknowledged: the last ones, it among them. -/
@[irreducible] def remember (deliveryId : String) (acked : List String) : List String :=
  let acked := acked.filter (fun existing => existing ≠ deliveryId) ++ [deliveryId]
  acked.drop (acked.length - ackHistoryLimit)

def ackRecord (offset : Nat) (room : String) (lastId : Option Int) (deliveryId : String) (c : Cursor) :
    Cursor :=
  { offset := max c.offset offset
    rooms := match lastId with
      | some lastId => if room = "" then c.rooms
          else c.rooms.put room (max ((c.rooms.get room).getD 0) lastId.toNat)
      | none => c.rooms
    deliveryId := some deliveryId
    ackedDeliveryIds := remember deliveryId c.ackedDeliveryIds }

/-- The acknowledgement a worker makes for what it was offered. -/
def Offer.ack (py : Python) (o : Offer) (c : Cursor) : Cursor :=
  ackRecord o.safeOffset (o.record.room py) o.record.lastId (o.record.deliveryId py) c

@[simp] theorem Offer.ack_offset (py : Python) (o : Offer) (c : Cursor) :
    (o.ack py c).offset = max c.offset o.safeOffset := rfl

@[simp] theorem Offer.ack_remembered (py : Python) (o : Offer) (c : Cursor) :
    (o.ack py c).ackedDeliveryIds = remember (o.record.deliveryId py) c.ackedDeliveryIds := rfl

/-! ## Schedules -/

/-- The inbox, line by line, the cursor file, and the record that was offered last.  The code
does not keep `recorded`: it is every delivery id that was ever acknowledged. -/
structure Consumer where
  lines : List (List UInt8)
  cursor : Cursor
  offered : Option Offer
  recorded : List String

inductive QueueInput
  | append (raw : List UInt8)
  | next
  | ack

inductive QueueAnswer
  | appended
  | offered (o : Option Offer)
  | raised (e : Fault)
  | acked (deliveryId : String)
  /-- Nothing was offered yet. -/
  | idle

def Consumer.step (py : Python) (s : Consumer) : QueueInput → QueueAnswer × Consumer
  | .append raw => (.appended, { s with lines := s.lines ++ [raw] })
  | .next =>
    match nextRecord py s.lines.flatten s.cursor with
    | (.error e, c) => (.raised e, { s with cursor := c })
    | (.ok none, c) => (.offered none, { s with cursor := c })
    | (.ok (some o), c) => (.offered (some o), { s with cursor := c, offered := some o })
  | .ack =>
    match s.offered with
    | none => (.idle, s)
    | some o => (.acked (o.record.deliveryId py),
        { s with cursor := o.ack py s.cursor, recorded := o.record.deliveryId py :: s.recorded })

def queueMachine (py : Python) : Sys.Machine Consumer QueueInput QueueAnswer where
  init s := s = ⟨[], emptyState, none, []⟩
  step := Consumer.step py

end Loca.Queue
