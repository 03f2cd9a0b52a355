/-
# `Loca.Socket.Turns` — the batching of a mentions socket

The loop of `ws_session` in `main.rs`, for one connection.  A mentions socket with room for more
than one message in a turn keeps what it hears in a buffer.  Three things empty the buffer
into one turn: an announcement, which goes along with it, the last message there is room for,
and the earlier of two deadlines.  A stop empties it too, and throws the messages away.

A frame is what the room's bus hands over.  Frames the batching never looks at (typing,
memory, reactions, the roster's history) are left out, as is the caretaker's summons, which
nothing puts on a bus, and the memory version that is written before each turn: `writes` says
whether the whole of a write went through.  When one does not, the loop is left, as it is when the
credentials have died; `ended` says so.

`turns_deliver_once` is the law of the buffer.  Its invariant is `Buffered`: the buffer is a list
of messages with their arrival times, and both deadlines are functions of that list.
-/
import Loca.Base.Run
import Loca.Hub.Refusal
import Loca.Socket.Filter

namespace Loca

inductive WsFilter | all | messages | mentions
  deriving DecidableEq, Repr

/-- A connection: what it asked for, and who it turned out to be. -/
structure WsClient extends Socket where
  identity : String
  sessionId : Nat
  filter : WsFilter
  turnMax : Nat
  turnIdleMs : Nat
  turnMaxWaitMs : Nat
  /-- The care signals that were replayed before the loop. -/
  replayedCareIds : List String

namespace WsClient

def batching (k : WsClient) : Bool := k.filter = .mentions && 1 < k.turnMax

/-- The frames an events-only connection lets pass. -/
def wants (k : WsClient) : ServerFrame → Bool
  | .msg _ => true
  | .control _ | .care _ => k.filter = .all || k.filter = .mentions
  | _ => k.filter = .all

/-- The tests on a care frame and the mentions filter. -/
def takes (cfg : Config) (w : World) (k : WsClient) : ServerFrame → Bool
  | .care signal =>
      if k.filter = .mentions then k.caresFor signal
      else signal.room = k.room &&
        (signal.sourceRoom = "" || signal.sourceRoom = k.room || signal.owner = some k.name)
  | .msg m => k.filter ≠ .mentions || k.hears cfg w m
  | _ => true

end WsClient

/-! ## The loop -/

/-- What is written to the client. -/
inductive Wire
  /-- A turn; a turn of one message goes out as a message frame. -/
  | turn (messages : List Message)
  | frame (f : ServerFrame)
  /-- A turn whose write failed. -/
  | unsent (messages : List Message)

structure WsSession where
  pendingTurn : List Message
  turnIdleDeadline : Option Nat
  turnHardDeadline : Option Nat
  /-- The loop has been left. -/
  ended : Bool
  deriving DecidableEq, Repr

namespace WsSession

/-- Nothing is pending. -/
def clear (s : WsSession) : WsSession :=
  { s with pendingTurn := [], turnIdleDeadline := none, turnHardDeadline := none }

/-- The buffer has been taken, and the turn is written. -/
def sendTurn (writes : Bool) (messages : List Message) (s : WsSession) : List Wire × WsSession :=
  if writes then ([.turn messages], s.clear)
  else ([.unsent messages], { s.clear with ended := true })

def sendFrame (writes : Bool) (f : ServerFrame) (s : WsSession) : List Wire × WsSession :=
  if writes then ([.frame f], s) else ([], { s with ended := true })

/-- A message that passed the filter, in a session that batches. -/
def enqueue (k : WsClient) (now : Nat) (writes : Bool) (m : Message) (s : WsSession) :
    List Wire × WsSession :=
  if m.kind = .announce then s.sendTurn writes (s.pendingTurn ++ [m])
  else if m.sender = k.name then ([], s)
  else
    let pending := s.pendingTurn ++ [m]
    let s := { s with
      pendingTurn := pending
      turnHardDeadline := if pending.length = 1 then some (now + k.turnMaxWaitMs) else s.turnHardDeadline
      turnIdleDeadline := some (now + k.turnIdleMs) }
    if k.turnMax ≤ pending.length then s.sendTurn writes pending else ([], s)

/-- A frame whose recipient may still see the room. -/
def deliver (cfg : Config) (k : WsClient) (w : World) (now : Nat) (writes : Bool) (f : ServerFrame)
    (s : WsSession) : List Wire × WsSession :=
  if !k.wants f then ([], s)
  else
    let s := if k.batching && f = .control "stop" then s.clear else s
    if !k.takes cfg w f then ([], s)
    else match f with
      | .msg m => if k.batching then s.enqueue k now writes m else s.sendFrame writes f
      | _ => s.sendFrame writes f

/-- A frame from the bus; `allowed` says whether the credentials are still good. -/
def receive (cfg : Config) (k : WsClient) (w : World) (allowed : Bool) (now : Nat) (writes : Bool)
    (f : ServerFrame) (s : WsSession) : List Wire × WsSession :=
  match f with
  | .evicted _ who session =>
      if who = k.identity ∧ session ≠ k.sessionId then ([.frame f], { s with ended := true }) else ([], s)
  | .kicked who _ => if who = k.name then ([.frame f], { s with ended := true }) else ([], s)
  | .care signal =>
      if k.replayedCareIds.contains signal.id then ([], s)
      else if !allowed then ([], { s with ended := true })
      else s.deliver cfg k w now writes f
  | _ => if !allowed then ([], { s with ended := true }) else s.deliver cfg k w now writes f

def deadline (s : WsSession) : Option Nat :=
  match s.turnIdleDeadline, s.turnHardDeadline with
  | some idle, some hard => some (min idle hard)
  | some idle, none => some idle
  | none, some hard => some hard
  | none, none => none

/-- The sleep of the loop ends; it has no end while no deadline is set. -/
def wake (now : Nat) (writes : Bool) (s : WsSession) : List Wire × WsSession :=
  if s.deadline.any fun d => d ≤ now then
    if s.pendingTurn = [] then ([], s.clear) else s.sendTurn writes s.pendingTurn
  else ([], s)

end WsSession

/-- One branch of the `select!`. -/
inductive WsEvent
  | frame (w : World) (allowed : Bool) (now : Nat) (writes : Bool) (f : ServerFrame)
  | timer (now : Nat) (writes : Bool)
  /-- The keepalive, or a frame of the client's. -/
  | alive (allowed writes : Bool)
  /-- The bus lagged or closed, or the client went away. -/
  | gone

def WsSession.step (cfg : Config) (k : WsClient) (s : WsSession) : WsEvent → List Wire × WsSession
  | .frame w allowed now writes f => s.receive cfg k w allowed now writes f
  | .timer now writes => s.wake now writes
  | .alive allowed writes => ([], { s with ended := !(allowed && writes) })
  | .gone => ([], { s with ended := true })

/-- The loop from its first turn on. -/
def wsMachine (cfg : Config) (k : WsClient) : Sys.Machine WsSession WsEvent (List Wire) where
  init s := s = ⟨[], none, none, false⟩
  step := WsSession.step cfg k

/-- A branch is taken only inside the loop. -/
abbrev inLoop (s : WsSession) (_ : WsEvent) : Prop := s.ended = false

/-! ## What is heard and what is sent -/

def Wire.messages : Wire → List Message
  | .turn ms | .unsent ms => ms
  | .frame _ => []

def Wire.turn? : Wire → Option (List Message)
  | .turn ms => some ms
  | _ => none

def Wire.unsent? : Wire → Option (List Message)
  | .unsent ms => some ms
  | _ => none

/-- A stop control that reaches the loop. -/
def WsEvent.Stops : WsEvent → Prop
  | .frame _ allowed _ _ f => allowed = true ∧ f = .control "stop"
  | _ => False

/-- The room's message, with its arrival time, if it passes the filter and is an announcement
or somebody else's. -/
def WsEvent.heard (cfg : Config) (k : WsClient) : WsEvent → Option (Nat × Message)
  | .frame w true now _ (.msg m) =>
      if k.hears cfg w m ∧ (m.kind = .announce ∨ m.sender ≠ k.name) then some (now, m) else none
  | _ => none

/-- What was heard in a stretch of the run, oldest first; a trace has its latest entry first. -/
def heardIn (cfg : Config) (k : WsClient) (tr : List (WsEvent × List Wire)) : List (Nat × Message) :=
  tr.reverse.filterMap fun e => e.1.heard cfg k

/-- The turns that were sent in a stretch of the run, oldest first. -/
def turnsIn (tr : List (WsEvent × List Wire)) : List (List Message) :=
  tr.reverse.flatMap fun e => e.2.filterMap Wire.turn?

def unsentIn (tr : List (WsEvent × List Wire)) : List (List Message) :=
  tr.reverse.flatMap fun e => e.2.filterMap Wire.unsent?

/-- The messages that have left the buffer for the client. -/
def flushedIn (tr : List (WsEvent × List Wire)) : List Message :=
  (turnsIn tr).flatten ++ (unsentIn tr).flatten

/-! ## The buffer and its deadlines -/

/-- The buffer is `q`, in the order of arrival, and the deadlines are those of `q`. -/
structure Buffered (k : WsClient) (s : WsSession) (q : List (Nat × Message)) : Prop where
  pending : s.pendingTurn = q.map Prod.snd
  hard : s.turnHardDeadline = q.head?.map fun p => p.1 + k.turnMaxWaitMs
  idle : s.turnIdleDeadline = q.getLast?.map fun p => p.1 + k.turnIdleMs
  room : q.length < k.turnMax

/-- What was waiting, with what came in, is flushed from the front, and the rest waits. -/
structure Feeds (k : WsClient) (all : List (Nat × Message)) (o : List Wire) (s' : WsSession)
    (flushed q' : List (Nat × Message)) : Prop where
  split : all = flushed ++ q'
  written : (o.filterMap Wire.turn?).flatten ++ (o.filterMap Wire.unsent?).flatten = flushed.map Prod.snd
  backed : Buffered k s' q'
  kept : s'.ended = false → o.filterMap Wire.unsent? = []
  sized : ∀ x ∈ o, x.messages.length ≤ k.turnMax ∧ ((∃ f, x = .frame f) ∨ x.messages ≠ [])

/-- Nothing but plain frames is written, and the buffer is as it was. -/
structure Passing (o : List Wire) (s s' : WsSession) : Prop where
  frames : ∀ x ∈ o, ∃ f, x = .frame f
  pending : s'.pendingTurn = s.pendingTurn
  hard : s'.turnHardDeadline = s.turnHardDeadline
  idle : s'.turnIdleDeadline = s.turnIdleDeadline

section Steps

variable {cfg : Config} {k : WsClient} {s s' : WsSession} {q : List (Nat × Message)} {o : List Wire}
  {w : World} {m : Message} {f : ServerFrame} {allowed writes : Bool} {now : Nat}

theorem Passing.ends (s : WsSession) (ended : Bool) : Passing [] s { s with ended := ended } :=
  ⟨fun _ h => (by cases h), rfl, rfl, rfl⟩

theorem Passing.last (f : ServerFrame) (s : WsSession) (ended : Bool) :
    Passing [.frame f] s { s with ended := ended } :=
  ⟨fun _ h => ⟨f, List.mem_singleton.mp h⟩, rfl, rfl, rfl⟩

theorem Passing.sendFrame (s : WsSession) (writes : Bool) (f : ServerFrame) :
    Passing (s.sendFrame writes f).1 s (s.sendFrame writes f).2 := by
  unfold WsSession.sendFrame
  split
  · exact .last f s s.ended
  · exact .ends s true

theorem Passing.feeds (h : Passing o s s') (hb : Buffered k s q) : Feeds k q o s' [] q := by
  have hturn : o.filterMap Wire.turn? = [] := List.filterMap_eq_nil_iff.mpr fun x hx => by
    obtain ⟨f, rfl⟩ := h.frames x hx
    rfl
  have hunsent : o.filterMap Wire.unsent? = [] := List.filterMap_eq_nil_iff.mpr fun x hx => by
    obtain ⟨f, rfl⟩ := h.frames x hx
    rfl
  refine ⟨rfl, by rw [hturn, hunsent]; rfl, ?_, fun _ => hunsent, fun x hx => ?_⟩
  · exact ⟨h.pending.trans hb.pending, h.hard.trans hb.hard, h.idle.trans hb.idle, hb.room⟩
  · obtain ⟨f, rfl⟩ := h.frames x hx
    exact ⟨Nat.zero_le _, .inl ⟨f, rfl⟩⟩

theorem Buffered.empty (hmax : 1 < k.turnMax) (hp : s.pendingTurn = []) (hh : s.turnHardDeadline = none)
    (hi : s.turnIdleDeadline = none) : Buffered k s [] :=
  ⟨hp, hh, hi, Nat.zero_lt_one.trans hmax⟩

/-- The whole buffer goes out as one turn. -/
theorem sendTurn_feeds (hmax : 1 < k.turnMax) (hq : q ≠ []) (hlen : q.length ≤ k.turnMax) (s : WsSession)
    (writes : Bool) :
    Feeds k q (s.sendTurn writes (q.map Prod.snd)).1 (s.sendTurn writes (q.map Prod.snd)).2 q [] := by
  have hne : q.map Prod.snd ≠ [] := fun h => hq (List.map_eq_nil_iff.mp h)
  have hle : (q.map Prod.snd).length ≤ k.turnMax := (List.length_map Prod.snd).trans_le hlen
  unfold WsSession.sendTurn
  split
  · refine ⟨(List.append_nil q).symm, ?_, .empty hmax rfl rfl rfl, fun _ => rfl, fun x hx => ?_⟩
    · simp [Wire.turn?, Wire.unsent?]
    · obtain rfl := List.mem_singleton.mp hx
      exact ⟨hle, .inr hne⟩
  · refine ⟨(List.append_nil q).symm, ?_, .empty hmax rfl rfl rfl, fun h => (by cases h), fun x hx => ?_⟩
    · simp [Wire.turn?, Wire.unsent?]
    · obtain rfl := List.mem_singleton.mp hx
      exact ⟨hle, .inr hne⟩

/-- A message goes into the buffer, and with it the buffer may go out. -/
theorem enqueue_feeds (hmax : 1 < k.turnMax) (hb : Buffered k s q) (hm : m.kind = .announce ∨ m.sender ≠ k.name) :
    ∃ flushed q', Feeds k (q ++ [(now, m)]) (s.enqueue k now writes m).1 (s.enqueue k now writes m).2 flushed q' := by
  have hpending : s.pendingTurn ++ [m] = (q ++ [(now, m)]).map Prod.snd := by
    rw [hb.pending, List.map_append]
    rfl
  have hne : q ++ [(now, m)] ≠ [] := List.append_ne_nil_of_right_ne_nil q (List.cons_ne_nil _ _)
  have hlen : (q ++ [(now, m)]).length = q.length + 1 := List.length_append
  have hroom := hb.room
  unfold WsSession.enqueue
  split
  · rw [hpending]
    exact ⟨_, _, sendTurn_feeds hmax hne (by omega) s writes⟩
  · next hkind =>
    rw [if_neg (hm.resolve_left hkind)]
    dsimp only
    split
    · rw [hpending]
      exact ⟨_, _, sendTurn_feeds hmax hne (by omega) _ writes⟩
    · next hfull =>
      have hcount : (s.pendingTurn ++ [m]).length = (q ++ [(now, m)]).length := by
        rw [hpending, List.length_map]
      refine ⟨[], q ++ [(now, m)], rfl, rfl, ⟨hpending, ?_, ?_, by omega⟩, fun _ => rfl, fun _ h => (by cases h)⟩
      · -- the hard deadline is set by the first message alone
        cases q with
        | nil => rw [if_pos (by rw [hcount]; rfl)]; rfl
        | cons p q =>
            have htwo : (s.pendingTurn ++ [m]).length ≠ 1 := by
              rw [hcount]
              simp
            rw [if_neg htwo]
            exact hb.hard
      · rw [List.getLast?_concat]
        rfl

theorem deliver_feeds (hf : k.filter = .mentions) (hmax : 1 < k.turnMax) (hb : Buffered k s q)
    (hstop : f ≠ .control "stop") :
    ∃ flushed q', Feeds k (q ++ ((WsEvent.frame w true now writes f).heard cfg k).toList)
      (s.deliver cfg k w now writes f).1 (s.deliver cfg k w now writes f).2 flushed q' := by
  have hbatching : k.batching = true := by simp [WsClient.batching, hf, hmax]
  have hquiet : ∀ {o s'}, (WsEvent.frame w true now writes f).heard cfg k = none → Passing o s s' →
      ∃ flushed q', Feeds k (q ++ ((WsEvent.frame w true now writes f).heard cfg k).toList) o s' flushed q' := by
    intro o s' hh hpass
    rw [hh]
    exact ⟨[], q, by rw [Option.toList_none, List.append_nil]; exact hpass.feeds hb⟩
  have hkeep : (if (k.batching && decide (f = .control "stop")) = true then s.clear else s) = s :=
    if_neg (by simp [hstop])
  unfold WsSession.deliver
  dsimp only
  rw [hkeep]
  cases f with
  | msg m =>
      have hheard : (WsEvent.frame w true now writes (.msg m)).heard cfg k =
          if k.hears cfg w m ∧ (m.kind = .announce ∨ m.sender ≠ k.name) then some (now, m) else none := rfl
      rw [if_neg (by simp [WsClient.wants])]
      split
      · next htakes =>
        refine hquiet ?_ (.ends s s.ended)
        rw [hheard, if_neg fun h => ?_]
        simp [WsClient.takes, hf, h.1] at htakes
      · next htakes =>
        have hhears : k.hears cfg w m = true := by simpa [WsClient.takes, hf] using htakes
        dsimp only
        by_cases hm : m.kind = .announce ∨ m.sender ≠ k.name
        · rw [hheard, if_pos ⟨hhears, hm⟩]
          exact enqueue_feeds hmax hb hm
        · have hown : s.enqueue k now writes m = ([], s) := by
            push Not at hm
            unfold WsSession.enqueue
            rw [if_neg hm.1, if_pos hm.2]
          rw [hown]
          exact hquiet (by rw [hheard, if_neg fun h => hm h.2]) (.ends s s.ended)
  | _ =>
      refine hquiet rfl ?_
      split
      · exact .ends s s.ended
      · split
        · exact .ends s s.ended
        · exact .sendFrame s writes _

/-- One branch of the loop that is no stop. -/
theorem step_feeds (hf : k.filter = .mentions) (hmax : 1 < k.turnMax) (hb : Buffered k s q) (i : WsEvent)
    (hstop : ¬ i.Stops) :
    ∃ flushed q', Feeds k (q ++ (i.heard cfg k).toList) (s.step cfg k i).1 (s.step cfg k i).2 flushed q' := by
  have hquiet : ∀ {o s'}, i.heard cfg k = none → Passing o s s' →
      ∃ flushed q', Feeds k (q ++ (i.heard cfg k).toList) o s' flushed q' := by
    intro o s' hh hpass
    rw [hh]
    exact ⟨[], q, by rw [Option.toList_none, List.append_nil]; exact hpass.feeds hb⟩
  cases i with
  | gone => exact hquiet rfl (.ends s true)
  | alive allowed writes => exact hquiet rfl (.ends s _)
  | timer now writes =>
      show ∃ flushed q', Feeds k (q ++ []) (s.wake now writes).1 (s.wake now writes).2 flushed q'
      rw [List.append_nil]
      unfold WsSession.wake
      split
      · next hdue =>
        split
        · next hnil =>
          -- a deadline is only there while something is pending
          obtain rfl := List.map_eq_nil_iff.mp (hb.pending.symm.trans hnil)
          unfold WsSession.deadline at hdue
          rw [hb.hard, hb.idle] at hdue
          cases hdue
        · next hne =>
          have hq : q ≠ [] := by
            rintro rfl
            exact hne hb.pending
          rw [hb.pending]
          exact ⟨_, _, sendTurn_feeds hmax hq hb.room.le s writes⟩
      · exact ⟨[], q, (Passing.ends s s.ended).feeds hb⟩
  | frame w allowed now writes f =>
      cases allowed with
      | false =>
          refine hquiet rfl ?_
          show Passing (s.receive cfg k w false now writes f).1 s (s.receive cfg k w false now writes f).2
          unfold WsSession.receive
          cases f with
          | evicted name who session =>
              dsimp only
              split
              · exact .last _ s true
              · exact .ends s s.ended
          | kicked who banned =>
              dsimp only
              split
              · exact .last _ s true
              · exact .ends s s.ended
          | care signal =>
              dsimp only
              split
              · exact .ends s s.ended
              · exact .ends s true
          | _ => exact .ends s true
      | true =>
          have hne : f ≠ .control "stop" := fun h => hstop ⟨rfl, h⟩
          show ∃ flushed q', Feeds k _ (s.receive cfg k w true now writes f).1
            (s.receive cfg k w true now writes f).2 flushed q'
          unfold WsSession.receive
          cases f with
          | evicted name who session =>
              refine hquiet rfl ?_
              dsimp only
              split
              · exact .last _ s true
              · exact .ends s s.ended
          | kicked who banned =>
              refine hquiet rfl ?_
              dsimp only
              split
              · exact .last _ s true
              · exact .ends s s.ended
          | care signal =>
              dsimp only
              split
              · exact hquiet rfl (.ends s s.ended)
              · exact deliver_feeds hf hmax hb hne
          | _ => exact deliver_feeds hf hmax hb hne

end Steps

/-! ## Between two stops -/

/-- The law of a stretch without a stop that began with an empty buffer. -/
structure TurnLaw (cfg : Config) (k : WsClient) (seg : List (WsEvent × List Wire)) (s : WsSession) : Prop where
  delivered : (turnsIn seg).flatten ++ (unsentIn seg).flatten ++ s.pendingTurn =
    (heardIn cfg k seg).map Prod.snd
  /-- Every turn was written, or the loop has been left. -/
  written : s.ended = false → unsentIn seg = []
  idleSet : s.turnIdleDeadline.isSome ↔ s.pendingTurn ≠ []
  hardSet : s.turnHardDeadline.isSome ↔ s.pendingTurn ≠ []
  /-- The first message that has not left the buffer sets the hard deadline. -/
  hard : s.turnHardDeadline =
    ((heardIn cfg k seg).drop (flushedIn seg).length).head?.map fun p => p.1 + k.turnMaxWaitMs
  idle : s.turnIdleDeadline =
    ((heardIn cfg k seg).drop (flushedIn seg).length).getLast?.map fun p => p.1 + k.turnIdleMs

/-- What was heard has left the buffer in order, up to the part that is still there. -/
structure Fed (cfg : Config) (k : WsClient) (seg : List (WsEvent × List Wire)) (s : WsSession)
    (flushed q : List (Nat × Message)) : Prop where
  split : heardIn cfg k seg = flushed ++ q
  written : flushedIn seg = flushed.map Prod.snd
  backed : Buffered k s q
  kept : s.ended = false → unsentIn seg = []

theorem heardIn_cons (cfg : Config) (k : WsClient) (e : WsEvent × List Wire) (tr : List (WsEvent × List Wire)) :
    heardIn cfg k (e :: tr) = heardIn cfg k tr ++ (e.1.heard cfg k).toList := by
  unfold heardIn
  rw [List.reverse_cons, List.filterMap_append]
  cases h : e.1.heard cfg k <;> simp [h]

theorem turnsIn_cons (e : WsEvent × List Wire) (tr : List (WsEvent × List Wire)) :
    turnsIn (e :: tr) = turnsIn tr ++ e.2.filterMap Wire.turn? := by
  unfold turnsIn
  rw [List.reverse_cons, List.flatMap_append, List.flatMap_singleton]

theorem unsentIn_cons (e : WsEvent × List Wire) (tr : List (WsEvent × List Wire)) :
    unsentIn (e :: tr) = unsentIn tr ++ e.2.filterMap Wire.unsent? := by
  unfold unsentIn
  rw [List.reverse_cons, List.flatMap_append, List.flatMap_singleton]

section Runs

variable {cfg : Config} {k : WsClient} {s : WsSession} {seg tr : List (WsEvent × List Wire)}
  {flushed q : List (Nat × Message)}

theorem Fed.law (h : Fed cfg k seg s flushed q) : TurnLaw cfg k seg s := by
  have hdrop : (heardIn cfg k seg).drop (flushedIn seg).length = q := by
    rw [h.split, h.written, List.length_map, List.drop_left]
  have hpending : s.pendingTurn ≠ [] ↔ q ≠ [] := by
    rw [h.backed.pending, ne_eq, List.map_eq_nil_iff]
  refine ⟨?_, h.kept, ?_, ?_, hdrop ▸ h.backed.hard, hdrop ▸ h.backed.idle⟩
  · show flushedIn seg ++ s.pendingTurn = _
    rw [h.written, h.backed.pending, ← List.map_append, ← h.split]
  · rw [h.backed.idle, Option.isSome_map, List.getLast?_isSome, hpending]
  · rw [h.backed.hard, Option.isSome_map, List.isSome_head?, hpending]

/-- One more branch of the loop. -/
theorem Fed.snoc (hf : k.filter = .mentions) (hmax : 1 < k.turnMax) (h : Fed cfg k seg s flushed q)
    (hloop : s.ended = false) (i : WsEvent) (hstop : ¬ i.Stops) :
    ∃ flushed' q', Fed cfg k ((i, (s.step cfg k i).1) :: seg) (s.step cfg k i).2 flushed' q' := by
  obtain ⟨more, q', hfeed⟩ := @step_feeds cfg k s q hf hmax h.backed i hstop
  refine ⟨flushed ++ more, q', ?_, ?_, hfeed.backed, fun hover => ?_⟩
  · rw [heardIn_cons, h.split, List.append_assoc, hfeed.split, ← List.append_assoc]
  · have hwritten := h.written
    unfold flushedIn at hwritten ⊢
    rw [h.kept hloop, List.flatten_nil, List.append_nil] at hwritten
    rw [turnsIn_cons, unsentIn_cons, h.kept hloop, List.nil_append, List.flatten_append, List.append_assoc,
      hfeed.written, hwritten, List.map_append]
  · rw [unsentIn_cons, h.kept hloop, List.nil_append]
    exact hfeed.kept hover

/-- After a stop that the client may see nothing is pending; only the stop itself is passed on. -/
theorem step_stop (hf : k.filter = .mentions) (hmax : 1 < k.turnMax) (s : WsSession) (w : World) (now : Nat)
    (writes : Bool) : s.step cfg k (.frame w true now writes (.control "stop")) =
      s.clear.sendFrame writes (.control "stop") := by
  show s.receive cfg k w true now writes (.control "stop") = _
  unfold WsSession.receive
  simp [WsSession.deliver, WsClient.wants, WsClient.takes, WsClient.batching, hf, hmax]

theorem step_announce (hf : k.filter = .mentions) (hmax : 1 < k.turnMax) (s : WsSession) {w : World} {m : Message}
    (hm : m.kind = .announce) (hw : k.hears cfg w m = true) (now : Nat) (writes : Bool) :
    s.step cfg k (.frame w true now writes (.msg m)) = s.sendTurn writes (s.pendingTurn ++ [m]) := by
  show s.receive cfg k w true now writes (.msg m) = _
  unfold WsSession.receive
  simp [WsSession.deliver, WsSession.enqueue, WsClient.wants, WsClient.takes, WsClient.batching, hf, hmax, hw, hm]

theorem Fed.stopped (hf : k.filter = .mentions) (hmax : 1 < k.turnMax) (s : WsSession) {i : WsEvent} (hi : i.Stops) :
    Fed cfg k [] (s.step cfg k i).2 [] [] := by
  cases i with
  | frame w allowed now writes f =>
      obtain ⟨rfl, rfl⟩ := hi
      rw [step_stop hf hmax]
      refine ⟨rfl, rfl, ?_, fun _ => rfl⟩
      unfold WsSession.sendFrame
      split
      · exact .empty hmax rfl rfl rfl
      · exact .empty hmax rfl rfl rfl
  | _ => cases hi

theorem run_fed (hf : k.filter = .mentions) (hmax : 1 < k.turnMax) (r : Sys.Run (wsMachine cfg k) inLoop tr s) :
    ∀ seg pre, tr = seg ++ pre → (∀ e ∈ seg, ¬ e.1.Stops) → (∀ e ∈ pre.head?, e.1.Stops) →
      ∃ flushed q, Fed cfg k seg s flushed q := by
  refine Sys.Run.induction (P := fun tr s => ∀ seg pre, tr = seg ++ pre → (∀ e ∈ seg, ¬ e.1.Stops) →
    (∀ e ∈ pre.head?, e.1.Stops) → ∃ flushed q, Fed cfg k seg s flushed q) ?_ ?_ r
  · rintro s rfl seg pre htr - -
    obtain ⟨rfl, rfl⟩ := List.append_eq_nil_iff.mp htr.symm
    exact ⟨[], [], rfl, rfl, .empty hmax rfl rfl rfl, fun _ => rfl⟩
  · intro tr s i r ih hloop seg pre htr hseg hpre
    cases seg with
    | nil =>
        obtain rfl : _ = pre := htr
        exact ⟨[], [], .stopped hf hmax s (hpre _ rfl)⟩
    | cons e seg =>
        obtain ⟨rfl, rfl⟩ := List.cons.inj htr
        obtain ⟨flushed, q, hfed⟩ := ih seg pre rfl (fun e he => hseg e (List.mem_cons_of_mem _ he)) hpre
        exact hfed.snoc hf hmax hloop i (hseg _ List.mem_cons_self)

/-- The buffer of every reached state, since the last stop. -/
theorem run_backed (hf : k.filter = .mentions) (hmax : 1 < k.turnMax) (r : Sys.Run (wsMachine cfg k) inLoop tr s) :
    ∃ q, Buffered k s q := by
  refine Sys.Run.induction (P := fun _ s => ∃ q, Buffered k s q) ?_ ?_ r
  · rintro s rfl
    exact ⟨[], .empty hmax rfl rfl rfl⟩
  · rintro tr s i - ⟨q, hb⟩ -
    by_cases hi : i.Stops
    · exact ⟨[], (@Fed.stopped cfg k hf hmax s i hi).backed⟩
    · obtain ⟨flushed, q', hfeed⟩ := @step_feeds cfg k s q hf hmax hb i hi
      exact ⟨q', hfeed.backed⟩

/-- Every turn has a message, and not more than there is room for. -/
theorem run_sized (hf : k.filter = .mentions) (hmax : 1 < k.turnMax) (r : Sys.Run (wsMachine cfg k) inLoop tr s) :
    ∀ e ∈ tr, ∀ x ∈ e.2, x.messages.length ≤ k.turnMax ∧ ((∃ f, x = .frame f) ∨ x.messages ≠ []) := by
  refine Sys.Run.induction (P := fun tr _ => ∀ e ∈ tr, ∀ x ∈ e.2, x.messages.length ≤ k.turnMax ∧
    ((∃ f, x = .frame f) ∨ x.messages ≠ [])) (fun _ _ e he => (by cases he)) ?_ r
  intro tr s i r ih hloop e he
  rcases List.mem_cons.mp he with rfl | he
  · by_cases hi : i.Stops
    · cases i with
      | frame w allowed now writes f =>
          obtain ⟨rfl, rfl⟩ := hi
          show ∀ x ∈ (s.step cfg k _).1, _
          rw [step_stop hf hmax]
          intro x hx
          obtain ⟨f, rfl⟩ := (Passing.sendFrame s.clear writes (.control "stop")).frames x hx
          exact ⟨Nat.zero_le _, .inl ⟨f, rfl⟩⟩
      | _ => cases hi
    · obtain ⟨q, hb⟩ := run_backed hf hmax r
      obtain ⟨flushed, q', hfeed⟩ := @step_feeds cfg k s q hf hmax hb i hi
      exact hfeed.sized
  · exact ih e he

end Runs

/-- Turn batching delivers everything once and in order. -/
theorem turns_deliver_once {cfg : Config} {k : WsClient} (hf : k.filter = .mentions) (hmax : 1 < k.turnMax)
    {tr : List (WsEvent × List Wire)} {s : WsSession} (r : Sys.Run (wsMachine cfg k) inLoop tr s) :
    (∀ seg pre, tr = seg ++ pre → (∀ e ∈ seg, ¬ e.1.Stops) → (∀ e ∈ pre.head?, e.1.Stops) → TurnLaw cfg k seg s) ∧
    (∀ e ∈ tr, ∀ x ∈ e.2, ∀ ms, x = .turn ms ∨ x = .unsent ms → ms ≠ [] ∧ ms.length ≤ k.turnMax) ∧
    (∀ w m now writes, m.kind = .announce → k.hears cfg w m = true →
      s.step cfg k (.frame w true now writes (.msg m)) = s.sendTurn writes (s.pendingTurn ++ [m])) ∧
    ∀ w now writes, s.step cfg k (.frame w true now writes (.control "stop")) =
      s.clear.sendFrame writes (.control "stop") := by
  refine ⟨fun seg pre htr hseg hpre => ?_, fun e he x hx ms hms => ?_, ?_, fun w => step_stop hf hmax s w⟩
  · obtain ⟨flushed, q, hfed⟩ := run_fed hf hmax r seg pre htr hseg hpre
    exact hfed.law
  · have hsized := run_sized hf hmax r e he x hx
    rcases hms with rfl | rfl
    · exact ⟨hsized.2.resolve_left (by rintro ⟨f, h⟩; cases h), hsized.1⟩
    · exact ⟨hsized.2.resolve_left (by rintro ⟨f, h⟩; cases h), hsized.1⟩
  · exact fun w m now writes hm hw => step_announce hf hmax s hm hw now writes

/-! ## One connection -/

/-- `bob` listens to the den, with room for two messages in a turn. -/
def sampleClient : WsClient := ⟨⟨"den", "bob", none⟩, "bob", 1, .mentions, 2, 500, 4000, []⟩

/-- A message of `ann`'s that calls `bob`. -/
def callMessage (id ts : Nat) (kind : MessageKind) : Message := { samplePost.message [] none id ts with kind := kind }

def wsSample : List WsEvent :=
  let frame := fun now f => WsEvent.frame sampleWorld true now true f
  [frame 1000 (.msg (callMessage 1 1000 .say)), frame 1200 (.control "stop"), frame 1300 (.msg (callMessage 2 1300 .say)),
    .timer 1700 true, .timer 1800 true, frame 2000 (.msg (callMessage 3 2000 .say)),
    frame 2100 (.msg (callMessage 4 2100 .announce)), frame 2200 (.msg (callMessage 5 2200 .say))]

theorem turns_deliver_once_sample :
    (turnsIn ((wsMachine sampleConfig sampleClient).exec wsSample [] ⟨[], none, none, false⟩).1).map
        (fun ms => ms.map Message.id) = [[2], [3, 4]] ∧
    ∀ seg pre, ((wsMachine sampleConfig sampleClient).exec wsSample [] ⟨[], none, none, false⟩).1 = seg ++ pre →
      (∀ e ∈ seg, ¬ e.1.Stops) → (∀ e ∈ pre.head?, e.1.Stops) → TurnLaw sampleConfig sampleClient seg
        ((wsMachine sampleConfig sampleClient).exec wsSample [] ⟨[], none, none, false⟩).2 := by
  refine ⟨by decide +kernel, (turns_deliver_once rfl (by decide) (Sys.Run.exec wsSample ?_ (.nil rfl))).1⟩
  decide +kernel

end Loca
