/-
# `Loca.Store.WikiContext` — which pages an agent is given

`store/wiki_context.rs`, and the gates of `hub.rs` before it.  An agent has a selection of pages in a room, with a
version that a change of the selection raises.  What it is given is a packet: the wiki's revision, the selection's
version, and the pages.  It acknowledges a packet by these two numbers, and the acknowledgement is taken while they are
still the current ones; a receipt then answers its repetitions.

A runtime reports that it is ready, and a wiki is only enabled for an editor whose runtime has lately done so.
-/
import Loca.Store.Wiki

namespace Loca

open Check Table Text

structure WikiContextSelection where
  slugs : List String
  reason : String
  deriving DecidableEq

structure WikiContextAck where
  contextId : String
  packetId : String
  revision : Nat
  selectionVersion : Nat
  deriving DecidableEq

structure ContextTables where
  selections : List ContextSelectionRow := []
  receipts : List ContextReceiptRow := []
  runtimes : List WikiRuntimeRow := []

def ContextSelectionRow.key (r : ContextSelectionRow) : String × String := (r.room, r.principal)
def WikiRuntimeRow.key (r : WikiRuntimeRow) : String × String := (r.room, r.principal)
def ContextReceiptRow.owner (r : ContextReceiptRow) : String × String := (r.room, r.principal)
def ContextReceiptRow.key (r : ContextReceiptRow) : String × String × String × String :=
  (r.room, r.principal, r.contextId, r.packetId)
def ContextReceiptRow.fence (r : ContextReceiptRow) : Nat × Nat := (r.revision, r.selectionVersion)

def WikiContextAck.fence (a : WikiContextAck) : Nat × Nat := (a.revision, a.selectionVersion)

/-- What `wiki_context_for` answers. -/
structure WikiPacket where
  room : String
  revision : Nat
  selectionVersion : Nat
  slugs : List String
  pages : List WikiPage
  missing : List String
  deriving DecidableEq

def WikiPacket.fence (p : WikiPacket) : Nat × Nat := (p.revision, p.selectionVersion)

/-! ## Selecting -/

namespace ContextTables

def selection (c : ContextTables) (room principal : String) : Option ContextSelectionRow :=
  c.selections.find? fun r => r.key = (room, principal)

/-- The version of a selection; there is none before the first. -/
def version (c : ContextTables) (room principal : String) : Nat :=
  ((c.selection room principal).map ContextSelectionRow.version).getD 0

def receipt (c : ContextTables) (room principal : String) (a : WikiContextAck) : Option ContextReceiptRow :=
  c.receipts.find? fun r => r.key = (room, principal, a.contextId, a.packetId)

end ContextTables

def contextMaxReceipts : Nat := 128

def selectableSlug (slug : String) : Bool :=
  slug ≠ "" && byteLen slug ≤ 80 && slug.toList.all fun c => ('a' ≤ c && c ≤ 'z') || ('0' ≤ c && c ≤ '9') || c = '-'

/-- The row an upsert leaves: the same request changes nothing, another one raises the version. -/
def ContextSelectionRow.reselect (selection : WikiContextSelection) (now : Nat) (r : ContextSelectionRow) : ContextSelectionRow :=
  if r.slugs ≠ selection.slugs ∨ r.reason ≠ selection.reason then
    { r with slugs := selection.slugs, reason := selection.reason, version := r.version + 1, requestedAt := now }
  else r

def selectWikiContext (room principal : String) (selection : WikiContextSelection) (now : Nat) (c : ContextTables) :
    Except WikiError (Unit × ContextTables) := do
  require (selection.slugs ≠ [] ∧ selection.slugs.length ≤ 16 ∧ isBlank selection.reason = false ∧
    byteLen selection.reason ≤ 1024 ∧ selection.slugs.all selectableSlug = true ∧ selection.slugs.Nodup) .invalidInput
  return ((), { c with
    selections := insertOrUpdate ContextSelectionRow.key ⟨room, principal, selection.slugs, selection.reason, 1, now⟩
      (ContextSelectionRow.reselect selection now) c.selections })

/-! ## What an agent is given -/

/-- A page of the wiki that has been written. -/
def writtenPage (t : WikiTables) (room slug : String) : Option WikiPage :=
  ((t.pages.find? fun p => p.key = (room, slug)).filter fun p => 0 < p.revision).map WikiPageRow.toPage

def packetOf (w : WikiRow) (t : WikiTables) (c : ContextTables) (room principal : String) : WikiPacket :=
  let slugs := match c.selection room principal with
    | some s => s.slugs
    | none => ["overview", "working"]
  { room, revision := w.revision, selectionVersion := c.version room principal, slugs
    pages := slugs.filterMap (writtenPage t room)
    missing := slugs.filter fun slug => (writtenPage t room slug).isNone }

def wikiContextFor (t : WikiTables) (c : ContextTables) (room principal : String) : Except WikiError WikiPacket := do
  let w ← found (t.row room) .notConfigured
  return packetOf w t c room principal

/-! ## What an agent acknowledges -/

def hexDigit (c : Char) : Bool := c.isDigit || ('a' ≤ c && c ≤ 'f') || ('A' ≤ c && c ≤ 'F')

def validAck (a : WikiContextAck) : Bool :=
  a.contextId ≠ "" && byteLen a.contextId ≤ 256 && byteLen a.packetId = 64 && a.packetId.toList.all hexDigit

/-- `DELETE … WHERE rowid NOT IN (… ORDER BY rowid DESC LIMIT 128)`: a receipt goes when 128 of its owner's are newer. -/
def keepNewest (owner : String × String) : List ContextReceiptRow → List ContextReceiptRow
  | [] => []
  | r :: rest =>
      if r.owner = owner ∧ contextMaxReceipts ≤ rest.countP (fun x => x.owner = owner) then keepNewest owner rest
      else r :: keepNewest owner rest

def acceptWikiContext (t : WikiTables) (room principal : String) (ack : WikiContextAck) (now : Nat) (c : ContextTables) :
    Except WikiError (Unit × ContextTables) := do
  require (validAck ack = true) .invalidInput
  match c.receipt room principal ack with
  | some r => do
      require (r.fence = ack.fence) .conflict
      return ((), c)
  | none => do
      require ((t.row room).map WikiRow.revision = some ack.revision ∧ c.version room principal = ack.selectionVersion)
        .conflict
      return ((), { c with
        receipts := keepNewest (room, principal) (c.receipts ++
          [⟨room, principal, ack.contextId, ack.packetId, ack.revision, ack.selectionVersion, now⟩]) })

/-! ## Readiness -/

def readyMs : Nat := 120000

def wikiNativeReady (room principal runtime : String) (now : Nat) (c : ContextTables) :
    Except WikiError (Unit × ContextTables) := do
  require (runtime = "codex" ∨ runtime = "claude") .invalidInput
  return ((), { c with
    runtimes := insertOrUpdate WikiRuntimeRow.key ⟨room, principal, runtime, now⟩
      (fun r => { r with runtime, readyAt := now }) c.runtimes })

def wikiEditorRuntimeReady (c : ContextTables) (room principal : String) (now : Nat) : Bool :=
  c.runtimes.any fun r => r.key = (room, principal) && r.readyAt ≤ now && now - readyMs ≤ r.readyAt

end Loca
