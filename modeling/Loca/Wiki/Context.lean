/-
# `Loca.Wiki.Context` — page packets for one model context

`wiki_context.py`.  A snapshot of the wiki becomes a packet of page changes: a page the model
does not have is sent whole, a page it has as the line edits that lead to the new body, a page
that is gone as a removal.  A packet is only an offer.  What the model holds is known when the
adapter acknowledges the packet, and a later offer of a page fences the earlier ones.

The pages a context keeps are bounded: the oldest go first.  The hash and `difflib` are
parameters (`ContextTools`).
-/
import Loca.Base.Assoc
import Loca.Base.Check
import Loca.Base.Script
import Loca.Store.Schema

namespace Loca

open Check

/-! ## Snapshots and packets -/

/-- A page of a snapshot; the revision need not be a number. -/
structure SnapshotPage where
  slug : String
  title : String
  body : String
  sources : List Nat
  revision : Option Int
  deriving DecidableEq, Repr

structure ContextSnapshot where
  room : Option String
  revision : Int
  pages : List SnapshotPage
  missing : List String
  deriving DecidableEq, Repr

/-- One edit of a delta: the lines `startLine … endLine` go, `inserted` comes. -/
structure PageSection where
  operation : Script.Tag
  startLine : Nat
  endLine : Nat
  removed : String
  inserted : String
  deriving DecidableEq, Repr

structure PageDelta where
  slug : String
  title : String
  revision : Nat
  sources : List Nat
  contentHash : String
  baseRevision : Nat
  baseHash : String
  sections : List PageSection
  deriving DecidableEq, Repr

inductive PageChange
  | bootstrap (page : WikiPage) (contentHash : String)
  | delta (change : PageDelta)
  | removed (slug : String) (revision : Int) (baseRevision : Nat) (baseHash : String)
  deriving DecidableEq, Repr

def PageChange.slug : PageChange → String
  | bootstrap page _ => page.slug
  | delta change => change.slug
  | removed slug _ _ _ => slug

structure ContextPacket where
  room : String
  contextId : String
  contextGeneration : Nat
  snapshotRevision : Int
  pages : List PageChange
  deriving DecidableEq, Repr

/-- A packet with its id. -/
structure PageOffer where
  packet : ContextPacket
  packetId : String
  deriving DecidableEq, Repr

inductive ContextError
  | foreignRoom
  | invalidBudget
  | tooManyPages
  | absentPage
  | staleRemoval
  | invalidRevision
  | stalePage
  | rewritten
  | tooLarge
  | cacheFull
  deriving DecidableEq, Repr

def ContextError.message : ContextError → String
  | foreignRoom => "Wiki belongs to another room"
  | invalidBudget => "Invalid context budget"
  | tooManyPages => "Too many selected pages; nothing was injected"
  | absentPage => "Requested Wiki page is absent"
  | staleRemoval => "Stale Wiki removal"
  | invalidRevision => "Invalid page revision"
  | stalePage => "Stale Wiki page"
  | rewritten => "Content changed without a new revision"
  | tooLarge => "Context requires a smaller page selection; nothing was injected"
  | cacheFull => "Pending context cache full; acknowledge or reset before another offer"

/-! ## Texts -/

/-- The breaks of `str.splitlines`. -/
def isBreak (c : Char) : Bool :=
  c = '\n' || c = '\r' || c.toNat = 0x0b || c.toNat = 0x0c || (0x1c ≤ c.toNat && c.toNat ≤ 0x1e) ||
    c.toNat = 0x85 || c.toNat = 0x2028 || c.toNat = 0x2029

/-- `splitlines(keepends=True)`, after a part of a line. -/
def keepLines (line : List Char) : List Char → List (List Char)
  | [] => if line.isEmpty then [] else [line]
  | '\r' :: '\n' :: rest => (line ++ ['\r', '\n']) :: keepLines [] rest
  | c :: rest => if isBreak c then (line ++ [c]) :: keepLines [] rest else keepLines (line ++ [c]) rest

def bodyLines (body : String) : List (List Char) := keepLines [] body.toList

/-- A character inside a JSON string; only what must be is escaped. -/
def jsonChar (c : Char) : List Char :=
  if c = '"' then ['\\', '"']
  else if c = '\\' then ['\\', '\\']
  else if c = '\n' then ['\\', 'n']
  else if c = '\r' then ['\\', 'r']
  else if c = '\t' then ['\\', 't']
  else if c.toNat = 0x08 then ['\\', 'b']
  else if c.toNat = 0x0c then ['\\', 'f']
  else if c.toNat < 0x20 then
    ['\\', 'u', '0', '0', Nat.digitChar (c.toNat / 16), Nat.digitChar (c.toNat % 16)]
  else [c]

/-- The texts of `json.dumps`, as characters. -/
abbrev JsonText := List Char

def jsonString (s : String) : JsonText := '"' :: s.toList.flatMap jsonChar ++ ['"']

def jsonNat (n : Nat) : JsonText := Nat.toDigits 10 n

def jsonInt : Int → JsonText
  | .ofNat n => jsonNat n
  | .negSucc n => '-' :: jsonNat (n + 1)

def jsonItems : List JsonText → JsonText
  | [] => []
  | [item] => item
  | item :: items => item ++ ',' :: ' ' :: jsonItems items

def jsonList (items : List JsonText) : JsonText := '[' :: jsonItems items ++ [']']

/-- A dict whose keys are given in order. -/
def jsonDict (fields : List (String × JsonText)) : JsonText :=
  '\x7b' :: jsonItems (fields.map fun f => jsonString f.1 ++ ':' :: ' ' :: f.2) ++ ['\x7d']

def jsonSources (sources : List Nat) : JsonText := jsonList (sources.map jsonNat)

/-- `json.dumps(page, sort_keys=True)`. -/
def pageText (p : WikiPage) : JsonText :=
  jsonDict [("body", jsonString p.body), ("revision", jsonNat p.revision), ("slug", jsonString p.slug),
    ("sources", jsonSources p.sources), ("title", jsonString p.title)]

def tagText : Script.Tag → String
  | .equal => "equal"
  | .replace => "replace"
  | .delete => "delete"
  | .insert => "insert"

def sectionText (s : PageSection) : JsonText :=
  jsonDict [("end_line", jsonNat s.endLine), ("inserted", jsonString s.inserted),
    ("operation", jsonString (tagText s.operation)), ("removed", jsonString s.removed),
    ("start_line", jsonNat s.startLine)]

def changeText : PageChange → JsonText
  | .bootstrap p hash => jsonDict [("body", jsonString p.body), ("content_hash", jsonString hash),
      ("kind", jsonString "bootstrap"), ("revision", jsonNat p.revision), ("slug", jsonString p.slug),
      ("sources", jsonSources p.sources), ("title", jsonString p.title)]
  | .delta d => jsonDict [("base_hash", jsonString d.baseHash), ("base_revision", jsonNat d.baseRevision),
      ("content_hash", jsonString d.contentHash), ("kind", jsonString "delta"),
      ("revision", jsonNat d.revision), ("sections", jsonList (d.sections.map sectionText)),
      ("slug", jsonString d.slug), ("sources", jsonSources d.sources), ("title", jsonString d.title)]
  | .removed slug revision baseRevision baseHash => jsonDict [("base_hash", jsonString baseHash),
      ("base_revision", jsonNat baseRevision), ("kind", jsonString "removed"),
      ("revision", jsonInt revision), ("slug", jsonString slug)]

/-- `json.dumps(packet, sort_keys=True)`, before it has an id and after. -/
def packetText (p : ContextPacket) (id : Option String) : JsonText :=
  jsonDict ([("context_generation", jsonNat p.contextGeneration), ("context_id", jsonString p.contextId)]
    ++ (id.map fun x => ("packet_id", jsonString x)).toList ++
    [("pages", jsonList (p.pages.map changeText)), ("room", jsonString p.room),
      ("snapshot_revision", jsonInt p.snapshotRevision)])

/-- `hashlib.sha256(…).hexdigest()` and `SequenceMatcher(None, old, new).get_opcodes()`. -/
structure ContextTools where
  sha256 : JsonText → String
  opcodes : List (List Char) → List (List Char) → List Script.Opcode

def ContextTools.digest (t : ContextTools) (p : WikiPage) : String := t.sha256 (pageText p)

/-! ## The context -/

structure WikiPageContext where
  room : String
  contextId : String
  maxPages : Nat
  /-- What the model has accepted, latest first. -/
  injectedPages : Assoc String WikiPage
  /-- The pages of each offer; a page that is gone is nothing. -/
  pending : Assoc String (List (String × Option WikiPage))
  /-- The offer that counts for a page. -/
  latest : Assoc String String
  generation : Nat

/-- `WikiPageContext(room, context_id, max_pages)`. -/
def WikiPageContext.new (room contextId : String) (maxPages : Int) : Option WikiPageContext :=
  if 1 ≤ maxPages ∧ maxPages ≤ 1024 then some ⟨room, contextId, maxPages.toNat, ∅, ∅, ∅, 0⟩ else none

/-- A page whose revision is a natural number. -/
def SnapshotPage.checked (p : SnapshotPage) : Except ContextError WikiPage :=
  match p.revision with
  | some n => do
      require (0 ≤ n) .invalidRevision
      pure ⟨p.slug, p.title, p.body, p.sources, n.toNat⟩
  | none => .error .invalidRevision

/-- The page under a slug, the last one of them. -/
def ContextSnapshot.indexed (s : ContextSnapshot) (slug : String) : Option SnapshotPage :=
  (s.pages.filter fun p => p.slug = slug).getLast?

/-- The sections of a delta: what is not equal. -/
def pageSections (t : ContextTools) (old new : List (List Char)) : List PageSection :=
  ((t.opcodes old new).filter fun o => o.tag ≠ .equal).map fun o =>
    ⟨o.tag, o.i1, o.i2, String.ofList (Script.slice old o.i1 o.i2).flatten,
      String.ofList (Script.slice new o.j1 o.j2).flatten⟩

namespace WikiPageContext

/-- A page the model has, at a newer revision. -/
def pageDelta (t : ContextTools) (previous page : WikiPage) : PageDelta :=
  ⟨page.slug, page.title, page.revision, page.sources, t.digest page, previous.revision,
    t.digest previous, pageSections t (bodyLines previous.body) (bodyLines page.body)⟩

/-- What is offered of one requested page, if anything. -/
def offerOf (t : ContextTools) (c : WikiPageContext) (s : ContextSnapshot) (slug : String) :
    Except ContextError (Option (PageChange × Option WikiPage)) :=
  match s.indexed slug with
  | none =>
      match c.injectedPages.get slug with
      | none => pure none
      | some previous => do
          require (previous.revision < s.revision) .staleRemoval
          pure (some (.removed slug s.revision previous.revision (t.digest previous), none))
  | some raw => do
      let page ← raw.checked
      match c.injectedPages.get slug with
      | none => pure (some (.bootstrap page (t.digest page), some page))
      | some previous => do
          require (previous.revision ≤ page.revision) .stalePage
          if page.revision = previous.revision then do
            require (t.digest page = t.digest previous) .rewritten
            pure none
          else pure (some (.delta (pageDelta t previous page), some page))

/-- The changes of the requested pages, in order. -/
def offers (t : ContextTools) (c : WikiPageContext) (s : ContextSnapshot) (slugs : List String) :
    Except ContextError (List (PageChange × Option WikiPage)) := do
  let found ← slugs.mapM (c.offerOf t s)
  pure (found.filterMap id)

/-- Keep an offer; an offer that counts for no page any more goes. -/
def keepOffer (c : WikiPageContext) (id : String) (offered : List (String × Option WikiPage)) :
    WikiPageContext :=
  let latest := offered.foldl (fun m x => m.put x.1 id) c.latest
  { c with
    pending := (c.pending.put id offered).retain fun old _ => latest.values.contains old
    latest := latest }

/-- The packet for a selection, and its pages; nothing when there is nothing to say. -/
def draft (t : ContextTools) (c : WikiPageContext) (s : ContextSnapshot) (slugs : List String)
    (maxChars : Int) : Except ContextError (Option (PageOffer × List (String × Option WikiPage))) := do
  require (s.room = some c.room) .foreignRoom
  require (1 ≤ maxChars ∧ maxChars ≤ 128000) .invalidBudget
  -- `dict.fromkeys` keeps the first of equal slugs
  let requested := slugs.reverse.dedup.reverse
  require (requested.length ≤ c.maxPages) .tooManyPages
  require (requested.all fun slug => (s.indexed slug).isSome || s.missing.contains slug) .absentPage
  let found ← c.offers t s requested
  if found = [] then pure none
  else do
    let packet : ContextPacket := ⟨c.room, c.contextId, c.generation, s.revision, found.map Prod.fst⟩
    let id := t.sha256 (packetText packet none)
    require ((packetText packet (some id)).length ≤ maxChars) .tooLarge
    let offered := found.map fun x => (x.1.slug, x.2)
    require ((c.latest.keys ++ offered.map Prod.fst).dedup.length ≤ c.maxPages) .cacheFull
    pure (some (⟨packet, id⟩, offered))

def prepare (t : ContextTools) (s : ContextSnapshot) (slugs : List String) (maxChars : Int)
    (c : WikiPageContext) : Except ContextError (Option PageOffer) × WikiPageContext :=
  match c.draft t s slugs maxChars with
  | .error e => (.error e, c)
  | .ok none => (.ok none, c)
  | .ok (some (offer, offered)) => (.ok (some offer), c.keepOffer offer.packetId offered)

/-- `while len(pages) > max_pages: del pages[next(iter(pages))]`, so many times. -/
def dropOldest : Nat → Assoc String WikiPage → Assoc String WikiPage
  | 0, m => m
  | n + 1, m => dropOldest n (match m.entries.getLast? with
      | some e => m.del e.1
      | none => m)

/-- A page takes its new place; a page that is gone leaves its own. -/
def inject (m : Assoc String WikiPage) (x : String × Option WikiPage) : Assoc String WikiPage :=
  match x.2 with
  | some page => (m.del x.1).put x.1 page
  | none => m.del x.1

def acknowledgeInjection (packetId room contextId : String) (c : WikiPageContext) :
    Bool × WikiPageContext :=
  if room ≠ c.room ∨ contextId ≠ c.contextId then (false, c)
  else match c.pending.get packetId with
    | none => (false, c)
    | some pages =>
        if pages.any fun x => c.latest.get x.1 ≠ some packetId then (false, c)
        else
          let injected := pages.foldl inject c.injectedPages
          (true, { c with
            injectedPages := dropOldest (injected.entries.length - c.maxPages) injected
            pending := c.pending.del packetId
            latest := pages.foldl (fun m x => m.del x.1) c.latest })

/-- Compaction loses the baseline; what was offered before counts no more. -/
def reset (contextId : String) (c : WikiPageContext) : WikiPageContext :=
  { c with
    contextId := contextId
    generation := c.generation + 1
    injectedPages := ∅
    pending := ∅
    latest := ∅ }

end WikiPageContext

end Loca
