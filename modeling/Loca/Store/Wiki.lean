/-
# `Loca.Store.Wiki` — the wiki and its maintenance batches

`store/wiki.rs` and `store/wiki_maintenance.rs`.  Every writing call of the two files is
one SQLite transaction, so a call is a function that either fails with a `WikiError`, and
then nothing is kept, or returns its result with the new tables.  Reads of `messages` are
the argument of that name.

The loop of `commit_wiki_checked` over the submitted pages is `reviewPages`: it carries
the slugs seen and the pages that differ from the stored ones.  The loop that writes them
is `writePages`.  What follows the lease checks is `publishWiki`, which all three kinds of
commit share.
-/
import Loca.Base.Check
import Loca.Base.Table
import Loca.Base.Text
import Loca.Store.Schema

namespace Loca

open Check Table Text

inductive WikiError
  | persistenceUnavailable | notConfigured | pageNotFound | notEditor | conflict
  | invalidInput | storage
  deriving DecidableEq, Repr

structure WikiPageEdit where
  expectedRevision : Nat
  title : String
  body : String
  deriving DecidableEq, Repr

structure WikiPageRemoval where
  expectedRevision : Nat
  reason : String
  deriving DecidableEq, Repr

structure WikiLease where
  batchId : Nat
  epoch : Nat
  deriving DecidableEq, Repr

structure WikiBatch where
  lease : WikiLease
  room : String
  afterId : Nat
  throughId : Nat
  reason : String
  leaseExpiresAt : Nat
  attempts : Nat
  messages : List Message
  deriving DecidableEq, Repr

structure WikiSnapshot where
  room : String
  editorPrincipal : String
  editorName : Option String
  enabled : Bool
  intervalMessages : Nat
  revision : Nat
  reviewedThrough : Nat
  reviewedAt : Option Nat
  editedAt : Option Nat
  pages : List WikiPage
  deriving DecidableEq, Repr

def pageMaxBytes : Nat := 32 * 1024
def commitMaxPages : Nat := 32
def maxBatchMessages : Nat := 100
def maxPendingAgeMs : Nat := 15 * 60 * 1000
def leaseMs : Nat := 5 * 60 * 1000
def maxWorkerMs : Nat := 30 * 60 * 1000

/-- `u64::checked_add`. -/
def checkedAdd (a b : Nat) : Option Nat :=
  if a + b < 2 ^ 64 then some (a + b) else none

/-! ## Reading -/

namespace WikiTables

def row (t : WikiTables) (room : String) : Option WikiRow :=
  t.wiki.find? fun w => w.room = room

def batch (t : WikiTables) (id : Nat) : Option WikiBatchRow :=
  t.batches.find? fun b => b.id = id

def receipt (t : WikiTables) (room : String) (l : WikiLease) : Option WikiReceiptRow :=
  t.receipts.find? fun r => r.room = room && r.batchId = l.batchId && r.epoch = l.epoch

def lease (t : WikiTables) (l : WikiLease) : Option WikiLeaseRow :=
  t.leases.find? fun r => r.batchId = l.batchId && r.epoch = l.epoch

/-- `UPDATE loca_wiki_batches SET status='cancelled'` on the active batches of the room
that satisfy `p`. -/
def cancel (t : WikiTables) (room : String) (p : WikiBatchRow → Bool) : WikiTables :=
  { t with
    batches := updateWhere (fun b => b.room = room && b.status.active && p b)
      (fun b => { b with status := .cancelled }) t.batches }

end WikiTables

def WikiPageRow.key (p : WikiPageRow) : String × String := (p.room, p.slug)
def WikiHistoryRow.key (h : WikiHistoryRow) : String × String × Nat := (h.room, h.slug, h.revision)
def WikiReceiptRow.key (r : WikiReceiptRow) : String × Nat × Nat := (r.room, r.batchId, r.epoch)
def WikiLeaseRow.key (l : WikiLeaseRow) : Nat × Nat := (l.batchId, l.epoch)

def WikiPageRow.toPage (p : WikiPageRow) : WikiPage :=
  { slug := p.slug, title := p.title, body := p.body, sources := p.sources, revision := p.revision }

def pages (t : WikiTables) (room : String) : List WikiPage :=
  (orderBy (fun p => p.slug) (t.pages.filter fun p => p.room = room)).map WikiPageRow.toPage

def messageExists (messages : List MessageRow) (room : String) (id : Nat) : Bool :=
  messages.any fun m => m.room = room && m.id = id

/-- `kind='say' AND sender_type IN ('user','agent') AND sender!='loca'`. -/
def MessageRow.eligible (m : MessageRow) : Bool :=
  m.kind = "say" && (m.senderType = "user" || m.senderType = "agent") && m.sender ≠ "loca"

def leaseValid (t : WikiTables) (room principal : String) (l : WikiLease) (now : Nat) : Bool :=
  t.batches.any fun b =>
    b.id = l.batchId && b.epoch = l.epoch && b.room = room && b.editorPrincipal = principal &&
      b.status = .running && b.leaseExpiresAt > now &&
      t.wiki.any fun w => w.room = b.room && w.enabled && w.editorPrincipal = b.editorPrincipal

def wikiSnapshot (principals : List PrincipalRow) (t : WikiTables) (room : String) :
    Except WikiError WikiSnapshot := do
  let w ← found (t.row room) .notConfigured
  return {
    room
    editorPrincipal := w.editorPrincipal
    editorName := (principals.find? fun p => p.id = w.editorPrincipal && p.disabledAt = none).map
      PrincipalRow.displayName
    enabled := w.enabled
    intervalMessages := w.intervalMessages
    revision := w.revision
    reviewedThrough := w.reviewedThrough
    reviewedAt := w.reviewedAt
    editedAt := w.editedAt
    pages := pages t room }

/-! ## Configuration and removal -/

def validSlug (slug : String) : Bool :=
  slug ≠ "" && byteLen slug ≤ 80 &&
    slug.toList.all fun c => ('a' ≤ c && c ≤ 'z') || ('0' ≤ c && c ≤ '9') || c = '-'

def validReason (reason : String) : Bool :=
  !isBlank reason && byteLen reason ≤ 4096

def configureWiki (room editor : String) (enabled : Bool) (interval : Nat) (t : WikiTables) :
    Except WikiError (Unit × WikiTables) := do
  require (isBlank editor = false ∧ 1 ≤ interval ∧ interval ≤ 1000) .invalidInput
  let t := t.cancel room fun b => b.editorPrincipal ≠ editor || !enabled
  let new : WikiRow := {
    room, editorPrincipal := editor, enabled, intervalMessages := interval
    revision := 0, reviewedThrough := 0, reviewedAt := none, editedAt := none }
  let wiki := insertOrUpdate WikiRow.room new (fun w =>
    { w with editorPrincipal := editor, enabled, intervalMessages := interval }) t.wiki
  let seed := fun (slug title : String) =>
    ({ room, slug, title, body := "", sources := [], revision := 0 } : WikiPageRow)
  let pages := insertIgnore WikiPageRow.key (seed "working" "Working area")
    (insertIgnore WikiPageRow.key (seed "overview" "Overview") t.pages)
  return ((), { t with wiki, pages })

def removeWikiPage (room principal slug : String) (removal : WikiPageRemoval) (now : Nat)
    (t : WikiTables) : Except WikiError (Nat × WikiTables) := do
  require (slug ≠ "overview" ∧ slug ≠ "working" ∧ validSlug slug ∧ validReason removal.reason)
    .invalidInput
  let w ← found (t.row room) .notConfigured
  require (w.editorPrincipal = principal) .notEditor
  require (w.revision = removal.expectedRevision) .conflict
  let next ← found (checkedAdd w.revision 1) .storage
  let page ← found (t.pages.find? fun p => p.room = room && p.slug = slug) .pageNotFound
  let history ← found (insertNew WikiHistoryRow.key
    { room := page.room, slug := page.slug, revision := next, title := page.title,
      body := page.body, sources := page.sources, editorPrincipal := principal,
      reason := s!"page removed: {removal.reason}", editedAt := now } t.history) .storage
  let pages := deleteWhere (fun p => p.room = room && p.slug = slug) t.pages
  let wiki := updateWhere (fun w => w.room = room)
    (fun w => { w with revision := next, editedAt := some now }) t.wiki
  -- an in-flight draft must reread the new wiki, not resurrect the page
  return (next, { t with history, pages, wiki }.cancel room fun _ => true)

/-! ## Commits -/

def validPage (p : WikiPage) : Bool :=
  validSlug p.slug && !isBlank p.title && byteLen p.title ≤ 256 && byteLen p.body ≤ pageMaxBytes &&
    p.sources.length ≤ 256

def sameContent (p q : WikiPage) : Bool :=
  p.slug = q.slug && p.title = q.title && p.body = q.body && p.sources = q.sources

/-- Check the submitted pages one by one and collect those that differ from the stored ones. -/
def reviewPages (messages : List MessageRow) (room : String) (through : Nat)
    (existing : List WikiPage) :
    List String → List WikiPage → List WikiPage → Except WikiError (List WikiPage)
  | _, changed, [] => .ok changed
  | slugs, changed, page :: rest => do
      require (validPage page = true ∧ page.slug ∉ slugs) .invalidInput
      require (∀ s ∈ page.sources, s ≤ through ∧ messageExists messages room s = true) .invalidInput
      reviewPages messages room through existing (page.slug :: slugs)
        (if existing.any fun p => sameContent p page then changed else changed ++ [page]) rest

def WikiPage.toRow (room : String) (revision : Nat) (p : WikiPage) : WikiPageRow :=
  { room, slug := p.slug, title := p.title, body := p.body, sources := p.sources, revision }

def WikiPage.toHistory (room principal reason : String) (now revision : Nat) (p : WikiPage) :
    WikiHistoryRow :=
  { room, slug := p.slug, revision, title := p.title, body := p.body, sources := p.sources,
    editorPrincipal := principal, reason, editedAt := now }

def writePages (room principal reason : String) (now next : Nat) :
    List WikiPage → WikiTables → Except WikiError WikiTables
  | [], t => .ok t
  | p :: rest, t => do
      let pages := insertOrUpdate WikiPageRow.key (p.toRow room next) (fun q =>
        { q with title := p.title, body := p.body, sources := p.sources, revision := next }) t.pages
      let history ← found
        (insertNew WikiHistoryRow.key (p.toHistory room principal reason now next) t.history) .storage
      writePages room principal reason now next rest { t with pages, history }

/-- The batches after a commit: a lease completes its batch and leaves a receipt, a human
edit that changed something cancels the pending one, and a manual review cancels a batch
whose window it has overtaken. -/
def settleBatches (room principal : String) (update : WikiCommit) (lease : Option WikiLease)
    (humanEdit changed : Bool) (next : Nat) (t : WikiTables) : Except WikiError WikiTables :=
  match lease with
  | some l => do
      let receipts ← found (insertNew WikiReceiptRow.key
        { room, batchId := l.batchId, epoch := l.epoch, editorPrincipal := principal,
          request := update, revision := next } t.receipts) .storage
      return { t with
        receipts
        batches := updateWhere (fun b => b.id = l.batchId)
          (fun b => { b with status := .completed }) t.batches }
  | none =>
      if humanEdit && changed then return t.cancel room fun _ => true
      else if humanEdit then return t
      else return t.cancel room fun b => b.afterId < update.reviewedThrough

def publishWiki (messages : List MessageRow) (room principal : String) (update : WikiCommit)
    (now : Nat) (lease : Option WikiLease) (humanEdit : Bool) (w : WikiRow) (t : WikiTables) :
    Except WikiError (Nat × WikiTables) := do
  require (update.expectedRevision = w.revision ∧ w.reviewedThrough ≤ update.reviewedThrough)
    .conflict
  -- a cursor cannot claim a message from another room or a nonexistent one
  require (update.reviewedThrough = 0 ∨
    messageExists messages room update.reviewedThrough = true) .invalidInput
  let changed ← reviewPages messages room update.reviewedThrough (pages t room) [] [] update.pages
  let next ← found (checkedAdd w.revision (if changed = [] then 0 else 1)) .storage
  let t ← writePages room principal update.reason now next changed t
  let wiki := updateWhere (fun w => w.room = room) (fun w =>
    { w with
      revision := next
      reviewedThrough := update.reviewedThrough
      reviewedAt := if humanEdit then w.reviewedAt else some now
      editedAt := if changed = [] then w.editedAt else some now }) t.wiki
  let t ← settleBatches room principal update lease humanEdit (changed ≠ []) next { t with wiki }
  return (next, t)

def commitWikiChecked (messages : List MessageRow) (room principal : String) (update : WikiCommit)
    (now : Nat) (lease : Option WikiLease) (humanEdit : Bool) (t : WikiTables) :
    Except WikiError (Nat × WikiTables) := do
  require (update.pages.length ≤ commitMaxPages ∧ validReason update.reason = true) .invalidInput
  let w ← found (t.row room) .notConfigured
  require (humanEdit = true ∨ w.editorPrincipal = principal) .notEditor
  require (¬(humanEdit = true ∧
    (lease ≠ none ∨ update.reviewedThrough ≠ w.reviewedThrough))) .conflict
  match lease with
  | none => publishWiki messages room principal update now none humanEdit w t
  | some l =>
      match t.receipt room l with
      | some r => do
          -- a lost response may replay the same request, not rewrite it
          require (r.editorPrincipal = principal ∧ r.request = update) .conflict
          return (r.revision, t)
      | none => do
          require (leaseValid t room principal l now = true) .conflict
          let b ← found (t.batch l.batchId) .storage
          require (w.reviewedThrough = b.afterId ∧ update.reviewedThrough = b.throughId) .conflict
          publishWiki messages room principal update now (some l) humanEdit w t

def commitWiki (messages : List MessageRow) (room principal : String) (update : WikiCommit)
    (now : Nat) (t : WikiTables) : Except WikiError (Nat × WikiTables) :=
  commitWikiChecked messages room principal update now none false t

def finishWikiReview (messages : List MessageRow) (room principal : String) (update : WikiCommit)
    (lease : WikiLease) (now : Nat) (t : WikiTables) : Except WikiError (Nat × WikiTables) :=
  commitWikiChecked messages room principal update now (some lease) false t

/-- The commit a human edit submits, with the review cursor it read. -/
def WikiPageEdit.toCommit (slug : String) (edit : WikiPageEdit) (cursor : Nat) : WikiCommit :=
  { expectedRevision := edit.expectedRevision
    reviewedThrough := cursor
    reason := "human page edit; not a conversation review"
    pages := [{ slug, title := edit.title, body := edit.body, sources := [], revision := 0 }] }

/-- `edit_wiki_page` after its snapshot: `cursor` is the `reviewed_through` it read.  The
snapshot and the commit are separate calls, so the cursor may have moved in between. -/
def editWikiPageFrom (messages : List MessageRow) (room actor slug : String)
    (edit : WikiPageEdit) (cursor now : Nat) (t : WikiTables) : Except WikiError (Nat × WikiTables) :=
  commitWikiChecked messages room actor (edit.toCommit slug cursor) now none true t

def editWikiPage (messages : List MessageRow) (principals : List PrincipalRow)
    (room actor slug : String) (edit : WikiPageEdit) (now : Nat) (t : WikiTables) :
    Except WikiError (Nat × WikiTables) := do
  let snapshot ← wikiSnapshot principals t room
  editWikiPageFrom messages room actor slug edit snapshot.reviewedThrough now t

/-! ## Maintenance batches -/

def cancelWikiReview (room : String) (t : WikiTables) : Except WikiError (Unit × WikiTables) :=
  return ((), t.cancel room fun _ => true)

/-- The unreviewed sources a scheduler tick reads: `ORDER BY id LIMIT 1000`. -/
def pendingSources (messages : List MessageRow) (room : String) (cursor : Nat) : List MessageRow :=
  (orderBy MessageRow.id (messages.filter fun m => m.room = room && m.id > cursor && m.eligible)).take
    1000

/-- The sources of one batch: `ORDER BY id LIMIT 100`. -/
def windowMessages (messages : List MessageRow) (room : String) (afterId throughId : Nat) :
    List MessageRow :=
  (orderBy MessageRow.id (messages.filter fun m =>
    m.room = room && m.id > afterId && m.id ≤ throughId && m.eligible)).take 100

/-- Why a batch is due, if it is. -/
def dueReason (inputs : List MessageRow) (interval now : Nat) : Option String :=
  match (inputs.map MessageRow.ts).min? with
  | none => none
  | some oldestTs =>
      if interval ≤ inputs.length then some "message_threshold"
      else if maxPendingAgeMs ≤ now - oldestTs then some "source_age"
      else none

def scheduleWikiReview (messages : List MessageRow) (room : String) (now : Nat) (t : WikiTables) :
    Except WikiError (Bool × WikiTables) :=
  match t.wiki.find? fun w => w.room = room && w.enabled with
  | none => return (false, t)
  | some w =>
      if t.batches.any fun b => b.room = room && b.status.active then return (false, t)
      else
        let inputs := pendingSources messages room w.reviewedThrough
        match dueReason inputs w.intervalMessages now,
            inputs[min inputs.length maxBatchMessages - 1]? with
        | some reason, some through =>
            return (true, { t with
              batchSeq := t.batchSeq + 1
              batches := t.batches ++ [{
                id := t.batchSeq + 1, room, editorPrincipal := w.editorPrincipal
                afterId := w.reviewedThrough, throughId := through.id, status := .queued, reason
                createdAt := now, epoch := 0, attempts := 0, leaseExpiresAt := 0 }] })
        | _, _ => return (false, t)

/-- An expired batch that has been tried three times is not tried again. -/
def blockExhausted (room : String) (now : Nat) (t : WikiTables) : WikiTables :=
  { t with
    batches := updateWhere (fun b => b.room = room && b.status = .running &&
        b.leaseExpiresAt ≤ now && b.attempts ≥ 3)
      (fun b => { b with status := .blocked }) t.batches }

def claimable (room principal : String) (now : Nat) (b : WikiBatchRow) : Bool :=
  b.room = room && b.editorPrincipal = principal &&
    (b.status = .queued || (b.status = .running && b.leaseExpiresAt ≤ now))

def claimWikiReview (messages : List MessageRow) (room principal : String) (now : Nat)
    (t : WikiTables) : Except WikiError (Option WikiBatch × WikiTables) := do
  let w ← found (t.row room) .notConfigured
  require (w.editorPrincipal = principal) .notEditor
  if w.enabled then
    let t := blockExhausted room now t
    match t.batches.find? (claimable room principal now) with
    | none => return (none, t)
    | some b => do
        let expires ← found (checkedAdd now leaseMs) .invalidInput
        let nextEpoch ← found (checkedAdd b.epoch 1) .storage
        let batches := updateWhere (fun x => x.id = b.id) (fun x =>
          { x with status := .running, epoch := nextEpoch, attempts := x.attempts + 1,
                   leaseExpiresAt := expires }) t.batches
        let leases ← found (insertNew WikiLeaseRow.key
          { batchId := b.id, epoch := nextEpoch, startedAt := now } t.leases) .storage
        return (some {
          lease := { batchId := b.id, epoch := nextEpoch }
          room
          afterId := b.afterId
          throughId := b.throughId
          reason := b.reason
          leaseExpiresAt := expires
          attempts := b.attempts + 1
          messages := (windowMessages messages room b.afterId b.throughId).map fun m =>
            { m.toMessage with room } }, { t with batches, leases })
  else return (none, t)

def renewWikiReview (room principal : String) (l : WikiLease) (now : Nat) (t : WikiTables) :
    Except WikiError (Nat × WikiTables) := do
  require (leaseValid t room principal l now = true) .conflict
  let lease ← found (t.lease l) .storage
  let b ← found (t.batch l.batchId) .storage
  let deadline ← found (checkedAdd lease.startedAt maxWorkerMs) .invalidInput
  let extended ← found (checkedAdd now leaseMs) .invalidInput
  let expires := min (max b.leaseExpiresAt extended) deadline
  require (now < expires) .conflict
  return (expires, { t with
    batches := updateWhere (fun x => x.id = l.batchId)
      (fun x => { x with leaseExpiresAt := expires }) t.batches })

end Loca
