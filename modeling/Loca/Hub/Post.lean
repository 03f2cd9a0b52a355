/-
# `Loca.Hub.Post` — accepting a message

`Hub::post` of `hub.rs`.  The call has two parts.  `beginPost` runs before the rooms are
locked: the seal, the archive's answer to a retried operation, and the cited files.
`postLocked` is everything under the lock: the window of recent operations, the gates, the
rate limit, the message and what goes with it, one write transaction, and only then the
room's memory and the broadcasts.

Every refusal is an early return, and the gates are in the source's order.  A refusal
before the rate limit has at most created the room, a later one has also dropped expired
stamps from the sender's window, and a failed write has taken an id and a generation.
-/
import Loca.Base.Check
import Loca.Hub.Room

namespace Loca

open Check Text

def historyLimit : Nat := 200
def maxAttachmentsPerMessage : Nat := 4

inductive PostReject
  | deleted | archived | banned | muted | paused | notAllowed
  | notYourTurn (whose : Option String)
  | rateLimited (retryAfterSecs : Nat)
  | tooManyAttachments (max : Nat)
  | unknownAttachment | storage
  deriving DecidableEq, Repr

structure PostRequest where
  room : String
  body : PostMessage
  isAdmin : Bool
  principal : String
  deriving DecidableEq, Repr

/-- What a retry is recognised by; an empty operation id is none. -/
def PostRequest.operation (q : PostRequest) : Option Operation :=
  (q.body.opId.filter fun id => id ≠ "").map fun id => (q.principal, id)

/-! ## Before the lock -/

/-- The cited files, each once; every one must be available in the room. -/
def resolveAttachments (env : Env) (room : String) (ids : List String) (db : Db) :
    Except PostReject (List Attachment) := do
  require (ids.length ≤ maxAttachmentsPerMessage) (.tooManyAttachments maxAttachmentsPerMessage)
  ids.foldlM (fun resolved id =>
    if resolved.any fun a => a.id = id then pure resolved
    else do
      let a ← found (if env.fails (.resolveRoomAttachment id) then none
        else resolveRoomAttachment room id db) PostReject.unknownAttachment
      pure (resolved ++ [a])) []

inductive PostStart
  /-- The archive already has this operation. -/
  | replayed (m : Message)
  | resolved (attachments : List Attachment)

/-- The seal, and the archive's answer to a retried operation. -/
def lookUp (cfg : Config) (env : Env) (q : PostRequest) (w : World) :
    Except PostReject (Option Message) := do
  require (w.isDeleted cfg q.room = false) .deleted
  require ((q.operation.isSome && cfg.persistent && env.fails .messageByOperation) = false) .storage
  pure (q.operation.bind fun o => messageByOperation q.room o w.db)

def beginPost (cfg : Config) (env : Env) (q : PostRequest) (w : World) :
    Except PostReject PostStart := do
  match ← lookUp cfg env q w with
  | some m => pure (.replayed m)
  | none => do
    let attachments ← resolveAttachments env q.room q.body.attachments w.db
    pure (.resolved attachments)

/-! ## The gates -/

/-- The window of recent operations. -/
def PostRequest.remembered (q : PostRequest) (r : Room) : Option Message :=
  q.operation.bind fun o => r.operations.get o

/-- Closed rooms, moderation, and the chat mode; an admin passes the last two. -/
def PostRequest.admitted (q : PostRequest) (r : Room) : Except PostReject Unit := do
  require (r.settings.archived = false) .archived
  if q.isAdmin then pure ()
  else do
    require (r.banned.contains q.body.sender = false) .banned
    require (r.muted.contains q.body.sender = false) .muted
    match r.mode with
    | .free => pure ()
    | .paused => .error .paused
    | .restricted allow => require (allow.contains q.body.sender = true) .notAllowed
    | .roundRobin order turn =>
      require (order[turn]? = some q.body.sender) (.notYourTurn order[turn]?)

def PostRequest.recordsRate (q : PostRequest) (r : Room) : Bool :=
  !q.isAdmin && decide (0 < r.settings.rateLimit)

def Room.rateWindowMs (r : Room) : Nat := r.settings.rateWindowSecs * 1000

def Room.stampsOf (sender : String) (r : Room) : List Nat := (r.postTimes.get sender).getD []

/-- The stamps still inside the window. -/
def liveStamps (windowMs now : Nat) (stamps : List Nat) : List Nat :=
  stamps.dropWhile fun t => t ≤ now - windowMs

def PostRequest.expireStamps (q : PostRequest) (now : Nat) (r : Room) : Room :=
  if q.recordsRate r then
    { r with
      postTimes := r.postTimes.put q.body.sender
        (liveStamps r.rateWindowMs now (r.stampsOf q.body.sender)) }
  else r

/-- The sliding window, after expired stamps are gone. -/
def PostRequest.withinRate (q : PostRequest) (now : Nat) (r : Room) : Except PostReject Unit :=
  let stamps := r.stampsOf q.body.sender
  let retryMs := match stamps.head? with
    | some t => t + r.rateWindowMs - now
    | none => r.rateWindowMs
  require (q.recordsRate r → stamps.length < r.settings.rateLimit)
    (.rateLimited ((retryMs + 999) / 1000))

/-- The author of the message that is answered, from the room's tail or the archive. -/
def PostRequest.replyAuthor (cfg : Config) (env : Env) (q : PostRequest) (r : Room) (db : Db) :
    Except PostReject (Option String) :=
  match q.body.replyTo with
  | none => pure none
  | some rid => do
    let owner ← match r.history.reverse.find? fun m => m.id = rid with
      | some m => pure (some m.sender)
      | none => do
        require ((cfg.persistent && env.fails .messageOwner) = false) PostReject.storage
        pure (messageOwner q.room rid db)
    pure (owner.filter fun o => o ≠ q.body.sender && o ≠ "")

/-! ## The message and what goes with it -/

/-- The characters a mention is made of. -/
def mentionChar (cfg : Config) (c : Char) : Bool :=
  cfg.alphanumeric c || c = '@' || c = '-' || c = '_'

/-- The caretakers a message names: by target, as the author answered, or with `@`. -/
def addressedCaretakers (cfg : Config) (m : Message) : List String :=
  let named := (m.target.toList ++ m.replyToSender.toList).map cfg.lowercase
  let words := ((cfg.lowercase m.text).toList.splitOnP fun c => !mentionChar cfg c).map String.ofList
  let mentioned := words.filterMap (stripPrefix "@")
  (Table.orderBy id ((named ++ mentioned).filter fun name => cfg.caretakers.contains name)).dedup

/-- A caretaker is summoned in its home loca; the ledger stays with the source. -/
def summon (cfg : Config) (room : String) (m : Message) (now : Nat) (owner : String) :
    CareSignal where
  id := "summon:" ++ room ++ ":" ++ toString m.id ++ ":" ++ owner
  attentionId := attentionKey room ("summon:" ++ toString m.id ++ ":" ++ owner)
  room := cfg.homeRoom
  sourceRoom := room
  reason := .directSummon
  audience := .person owner
  owner := some owner
  ownerPrincipalId := none
  group := none
  target := some owner
  participants := [m.sender, owner]
  subject := m.sender ++ " directly summoned a caretaker"
  createdBy := m.sender
  context := [m]
  attempt := 1
  signalAt := now
  escalated := false
  state := .running

def wakeSignal (env : Env) (room : String) (m : Message) (target : String) (since : Nat) :
    CareSignal where
  id := "delivery_" ++ env.token room ("wait-reply:" ++ target)
  attentionId := attentionKey room ("wait-reply:" ++ target ++ ":" ++ toString since)
  room := room
  sourceRoom := ""
  reason := .waitReplied
  audience := .person target
  owner := some target
  ownerPrincipalId := none
  group := none
  target := some target
  participants := [m.sender, target]
  subject := m.sender ++ " replied to " ++ target
  createdBy := m.sender
  context := [m]
  attempt := 1
  signalAt := env.now
  escalated := false
  state := .running

/-- An explicit address to a participant who waits for the sender re-wakes that
participant; the wait stays, in a new generation. -/
def waitWake (env : Env) (room : String) (m : Message) (generation : Nat) (r : Room) :
    Option (WaitState × CareSignal) := do
  let target ← m.target
  guard (target.toList.map Char.toLower ≠ "all".toList ∧ target ≠ m.sender)
  let existing ← r.waits.get target
  guard (existing.waitingFor = m.sender)
  let since := World.nextGeneration env.now existing.since generation
  pure (⟨room, target, existing.waitingFor, existing.reason, since, none, 0⟩,
    wakeSignal env room m target since)

/-- The baton passes when the speaker holds it. -/
def advanceTurn (sender : String) : ChatMode → Option ChatMode
  | .roundRobin order turn =>
    if order[turn]? = some sender then some (.roundRobin order ((turn + 1) % order.length)) else none
  | _ => none

/-- Everything a post decides before it writes. -/
structure PostDraft where
  msg : Message
  summons : List CareSignal
  wake : Option (WaitState × CareSignal)
  moved : Option ChatMode
  /-- The generation counter afterwards. -/
  generation : Nat

def PostRequest.message (q : PostRequest) (attachments : List Attachment) (author : Option String)
    (id ts : Nat) : Message where
  id := id
  room := q.room
  sender := q.body.sender
  senderType := q.body.senderType
  target := q.body.target.filter fun t => t ≠ ""
  text := q.body.text
  kind := q.body.kind
  replyTo := q.body.replyTo
  replyToSender := author
  ts := ts
  attachments := attachments

def PostRequest.draft (cfg : Config) (env : Env) (q : PostRequest) (attachments : List Attachment)
    (author : Option String) (r : Room) (hub : Hub) : PostDraft :=
  let ts := World.nextGeneration env.now r.lastMsgMs hub.conditionGeneration
  let msg := q.message attachments author hub.nextId ts
  let summons := if q.room = cfg.homeRoom then []
    else (addressedCaretakers cfg msg).map (summon cfg q.room msg env.now)
  let wake := if msg.kind = .say ∧ summons = [] then waitWake env q.room msg ts r else none
  { msg := msg
    summons := summons
    wake := wake
    moved := advanceTurn msg.sender r.mode
    generation := match wake with
      | some (wait, _) => wait.since
      | none => ts }

/-- One of the four transactions. -/
def PostDraft.persist (cfg : Config) (now : Nat) (q : PostRequest) (r : Room) (d : PostDraft) :
    Db → Except StoreError Db :=
  let state := d.moved.map fun mode => (mode, r.settings)
  match d.wake, d.summons, d.moved with
  | some (wait, wake), _, _ =>
    insertMessageWithWaitWake d.msg state q.operation q.room wait.waiter now wait wake
  | none, s :: ss, _ => insertMessageWithCare d.msg state q.operation cfg.homeRoom (s :: ss)
  | none, [], some mode => insertMessageWithRoom d.msg mode r.settings q.operation
  | none, [], none => insertMessage d.msg q.operation

/-- A cited file that is gone by now explains the failed write. -/
def PostDraft.failure (env : Env) (q : PostRequest) (db : Db) (d : PostDraft) : PostReject :=
  if d.msg.attachments.any fun a => env.fails (.resolveAgain a.id) ||
      (resolveRoomAttachment q.room a.id db).isNone
  then .unknownAttachment else .storage

/-! ## The room afterwards -/

/-- Remember the operation and forget the oldest ones past the limit. -/
def Room.rememberOperation (operation : Option Operation) (m : Message) (r : Room) : Room :=
  match operation with
  | none => r
  | some key =>
    let order := r.operationOrder ++ [key]
    let excess := order.length - historyLimit
    { r with
      operations := (order.take excess).foldl (fun ops k => ops.del k) (r.operations.put key m)
      operationOrder := order.drop excess }

def Room.appendHistory (m : Message) (r : Room) : Room :=
  let history := r.history ++ [m]
  { r with lastMsgMs := m.ts, history := history.drop (history.length - historyLimit) }

def Room.fileAttention (r : Room) (a : Attention) : Room :=
  { r with attentions := r.attentions.put a.id a }

def Room.setMode? (mode : Option ChatMode) (r : Room) : Room :=
  { r with mode := mode.getD r.mode }

def PostRequest.stampRate (q : PostRequest) (now : Nat) (r : Room) : Room :=
  if q.recordsRate r then
    { r with postTimes := r.postTimes.put q.body.sender (r.stampsOf q.body.sender ++ [now]) }
  else r

/-- The wake, mirrored: the new generation, the retired reminders, the attention. -/
def Room.wakeWait (room : String) (now : Nat) (wait : WaitState) (a : Attention) (r : Room) : Room :=
  (Room.resolveWaitAttentions room wait.waiter now
    { r with waits := r.waits.put wait.waiter wait }).fileAttention a

/-- The room up to the message itself. -/
def PostDraft.spoken (env : Env) (q : PostRequest) (d : PostDraft) (r : Room) : Room :=
  (((q.stampRate env.now r).rememberOperation q.operation d.msg).setMode? d.moved).resetCare
    q.room "silence" d.msg.ts |>.appendHistory d.msg

def PostDraft.mirror (env : Env) (q : PostRequest) (db : Db) (d : PostDraft) (r : Room) : Room :=
  let r := d.summons.foldl (fun r s => r.fileAttention (World.readAttention env db s)) (d.spoken env q r)
  match d.wake with
  | some (wait, wake) => r.wakeWait q.room env.now wait (World.readAttention env db wake)
  | none => r

/-- The frames of an accepted post, in order, each with the room it goes to. -/
def PostDraft.frames (cfg : Config) (env : Env) (q : PostRequest) (db : Db) (home : Bool)
    (d : PostDraft) (r : Room) : List (String × ServerFrame) :=
  let here := fun f => (q.room, f)
  (d.moved.toList.map fun mode => here (.mode mode)) ++
  (r.resolvedFrames (conditionHit q.room "silence") d.msg.ts).map here ++
  [here (.msg d.msg)] ++
  (d.summons.flatMap fun s => here (.attention (World.readAttention env db s)) ::
    if home then [(cfg.homeRoom, .care s)] else []) ++
  (match d.wake with
    | some (wait, wake) =>
      ((d.spoken env q r).resolvedFrames (waitHit q.room wait.waiter) env.now).map here ++
        [here (.care wake), here (.attention (World.readAttention env db wake)),
          here (.wait wait.waiter (some wait))]
    | none => [])

/-- The counters a draft has taken, whether or not it is kept. -/
def PostDraft.count (d : PostDraft) (w : World) : World :=
  { w with hub := { w.hub with nextId := w.hub.nextId + 1, conditionGeneration := d.generation } }

/-- The deliveries a draft opens. -/
def PostDraft.deliveries (d : PostDraft) : List CareSignal :=
  d.summons ++ (d.wake.map Prod.snd).toList

/-- The server after an accepted post; `r` is the room with expired stamps gone and `db` the
database after the transaction. -/
def PostDraft.accept (cfg : Config) (env : Env) (q : PostRequest) (r : Room) (db : Db)
    (d : PostDraft) (w : World) : World :=
  let home := q.room ≠ cfg.homeRoom && (w.room? cfg.homeRoom).isSome
  let w' := d.count ((w.setRoom q.room (d.mirror env q db r)).setDb db)
  { d.deliveries.foldl (fun w s => w.noteDelivery s) w' with
    sent := w.sent ++ d.frames cfg env q db home r }

def postLocked (cfg : Config) (env : Env) (q : PostRequest) (attachments : List Attachment)
    (w : World) : Except PostReject Message × World :=
  let r := w.roomOr cfg q.room
  match q.remembered r with
  | some m => (.ok m, w.setRoom q.room r)
  | none =>
    match q.admitted r with
    | .error e => (.error e, w.setRoom q.room r)
    | .ok () =>
      let r := q.expireStamps env.now r
      match (do q.withinRate env.now r; q.replyAuthor cfg env r w.db) with
      | .error e => (.error e, w.setRoom q.room r)
      | .ok author =>
        let d := q.draft cfg env attachments author r w.hub
        match commit cfg.persistent (env.fails .write) (d.persist cfg env.now q r) w.db with
        | .error _ => (.error (d.failure env q w.db), d.count (w.setRoom q.room r))
        | .ok db => (.ok d.msg, d.accept cfg env q r db w)

/-- `Hub::post`, with nothing else in between. -/
def post (cfg : Config) (env : Env) (q : PostRequest) (w : World) :
    Except PostReject Message × World :=
  match beginPost cfg env q w with
  | .error e => (.error e, w)
  | .ok (.replayed m) => (.ok m, w)
  | .ok (.resolved attachments) => postLocked cfg env q attachments w

/-! ## What a post can do -/

/-- The server after a refusal under the lock: the room is there, with or without its
expired stamps, and the counters may have moved. -/
structure RefusedTo (cfg : Config) (env : Env) (q : PostRequest) (w w' : World) : Prop where
  room : ∃ r, (r = w.roomOr cfg q.room ∨ r = q.expireStamps env.now (w.roomOr cfg q.room)) ∧
    w'.room? q.room = some r
  others : ∀ name, name ≠ q.room → w'.room? name = w.room? name
  hub : w'.hub = { w.hub with
    rooms := w'.hub.rooms, nextId := w'.hub.nextId,
    conditionGeneration := w'.hub.conditionGeneration }
  nextId : w.hub.nextId ≤ w'.hub.nextId
  generation : w.hub.conditionGeneration ≤ w'.hub.conditionGeneration
  db : w'.db = w.db
  sent : w'.sent = w.sent

/-- What an accepted post has passed and decided; `r` is the room with expired stamps gone. -/
structure AcceptedBy (cfg : Config) (env : Env) (q : PostRequest) (attachments : List Attachment)
    (w : World) (r : Room) (d : PostDraft) (db : Db) : Prop where
  fresh : q.remembered (w.roomOr cfg q.room) = none
  admitted : q.admitted (w.roomOr cfg q.room) = .ok ()
  room : r = q.expireStamps env.now (w.roomOr cfg q.room)
  draft : ∃ author, d = q.draft cfg env attachments author r w.hub
  stored : commit cfg.persistent (env.fails .write) (d.persist cfg env.now q r) w.db = .ok db

theorem waitWake_since {env : Env} {room : String} {m : Message} {g : Nat} {r : Room}
    {wait : WaitState} {wake : CareSignal} (h : waitWake env room m g r = some (wait, wake)) :
    g < wait.since := by
  simp only [waitWake, Option.bind_eq_bind, Option.bind_eq_some_iff, Option.pure_def,
    Option.some.injEq, Prod.mk.injEq] at h
  obtain ⟨target, -, -, -, existing, -, -, -, rfl, -⟩ := h
  simp only [World.nextGeneration]
  omega

/-- A draft takes generations past the counter. -/
theorem draft_generation (cfg : Config) (env : Env) (q : PostRequest) (attachments : List Attachment)
    (author : Option String) (r : Room) (hub : Hub) :
    hub.conditionGeneration < (q.draft cfg env attachments author r hub).generation := by
  have hts : hub.conditionGeneration <
      World.nextGeneration env.now r.lastMsgMs hub.conditionGeneration := by
    simp only [World.nextGeneration]
    omega
  unfold PostRequest.draft
  dsimp only
  split
  · next wait wake hw =>
    rw [Option.ite_none_right_eq_some] at hw
    exact lt_trans hts (waitWake_since hw.2)
  · exact hts

theorem refusedTo_setRoom {cfg : Config} {env : Env} {q : PostRequest} {w : World} {r : Room}
    (hr : r = w.roomOr cfg q.room ∨ r = q.expireStamps env.now (w.roomOr cfg q.room)) :
    RefusedTo cfg env q w (w.setRoom q.room r) where
  room := ⟨r, hr, w.room?_setRoom_self q.room r⟩
  others := fun name hne => by rw [World.room?_setRoom, if_neg hne]
  hub := rfl
  nextId := le_refl _
  generation := le_refl _
  db := rfl
  sent := rfl

theorem postLocked_cases (cfg : Config) (env : Env) (q : PostRequest)
    (attachments : List Attachment) (w : World) :
    (∃ m, q.remembered (w.roomOr cfg q.room) = some m ∧
      postLocked cfg env q attachments w = (.ok m, w.setRoom q.room (w.roomOr cfg q.room))) ∨
    (∃ e w', postLocked cfg env q attachments w = (.error e, w') ∧ RefusedTo cfg env q w w') ∨
    (∃ r d db, AcceptedBy cfg env q attachments w r d db ∧
      postLocked cfg env q attachments w = (.ok d.msg, d.accept cfg env q r db w)) := by
  unfold postLocked
  dsimp only
  split
  · next m hm => exact .inl ⟨m, hm, rfl⟩
  · next hfresh =>
    right
    split
    · exact .inl ⟨_, _, rfl, refusedTo_setRoom (.inl rfl)⟩
    · next hadm =>
      split
      · exact .inl ⟨_, _, rfl, refusedTo_setRoom (.inr rfl)⟩
      · next author _ =>
        split
        · -- the failed write: two counters have moved
          have h := @refusedTo_setRoom cfg env q w _ (.inr rfl)
          refine .inl ⟨_, _, rfl, h.room, h.others, rfl, Nat.le_succ _, ?_, rfl, rfl⟩
          exact le_of_lt (draft_generation cfg env q attachments author _ w.hub)
        · next db hdb =>
          exact .inr ⟨_, _, db, ⟨hfresh, hadm, rfl, ⟨author, rfl⟩, hdb⟩, rfl⟩

end Loca
