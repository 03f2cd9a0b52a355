/-
# `Loca.Socket.Roster` — the seats of a room and the sockets that hold them

`Hub::join`, `Hub::leave` and the part of `ws_session` that gives a seat back, for any number of
connections in one room.  A connection subscribes to the room's bus, joins, reads the frames that were
sent since it subscribed, stops, and runs `leave`; each of these is a step, in any order between
connections.  A connection that stops because it read an eviction does not run `leave`: the seat is the
new holder's.  One that stops for any other reason does, and `leave` knows the identity only.

The bus keeps `BROADCAST_CAP` frames; a reader that is further behind is told so instead of being given
the next frame.  Sealing a room drops it with its bus and is left out; that a sealed room seats nobody
is an argument of the join.  A task that dies without running `leave` is left out too, and so are the
watchers, who take no seat.  A count is bounded by the number of sessions, so it does not saturate.
-/
import Loca.Base.Run
import Loca.Base.Table
import Loca.Hub.Doors

namespace Loca.Roster

open Table

/-! ## Frames and connections -/

inductive Frame
  | evicted (identity : String) (session : Nat)
  | kicked (name : String)
  | other
  deriving DecidableEq, Repr

/-- Where a connection stands: before its join, in its loop, between its loop and its `leave` (having
read an eviction or not), after. -/
inductive Phase
  | subscribed
  | open
  | closing (evicted : Bool)
  | gone
  deriving DecidableEq, Repr

structure Conn where
  session : Nat
  identity : String
  name : String
  kind : SenderType
  phase : Phase
  /-- The frames sent since it subscribed that it has not read. -/
  queue : List Frame
  deriving DecidableEq, Repr

/-- The two ways to stop: without a `leave`, or with one. -/
inductive Stop
  | evicted
  | leaving
  deriving DecidableEq, Repr

/-- What a frame tells a connection to do. -/
def Conn.bids (c : Conn) : Frame → Option Stop
  | .evicted identity session => if identity = c.identity && session ≠ c.session then some .evicted else none
  | .kicked name => if name = c.name then some .leaving else none
  | .other => none

/-- How the connection will stop, as far as it has been told: the first frame that stops it decides. -/
def Conn.fate (c : Conn) : Option Stop :=
  match c.phase with
  | .closing true => some .evicted
  | .closing false => some .leaving
  | _ => c.queue.findSome? c.bids

/-- Joined, and not through with its `leave`. -/
def Conn.seated (c : Conn) : Bool :=
  match c.phase with
  | .open => true
  | .closing _ => true
  | _ => false

/-- Seated, and no eviction stands between it and its `leave`. -/
def Conn.holds (c : Conn) : Bool := c.seated && c.fate ≠ some .evicted

def Conn.hear (f : Frame) (c : Conn) : Conn :=
  if c.phase = .gone then c else { c with queue := c.queue ++ [f] }

/-! ## The room -/

structure Seat where
  identity : String
  name : String
  kind : SenderType
  count : Nat
  deriving DecidableEq, Repr

structure Lounge where
  members : List Seat
  conns : List Conn
  nextSession : Nat

def broadcastCap : Nat := 256

namespace Lounge

variable (s : Lounge)

def send (f : Frame) : Lounge := { s with conns := s.conns.map (Conn.hear f) }

/-- The connection is now this. -/
def set (c : Conn) : Lounge := { s with conns := updateWhere (fun x => x.session = c.session) (fun _ => c) s.conns }

def seat? (identity : String) : Option Seat := s.members.find? fun x => x.identity = identity

/-- A human's seat that the same human takes again, under the same name. -/
def additionalHumanReader (x : Seat) (c : Conn) : Bool :=
  x.name = c.name && x.kind = .user && c.kind = .user

def onSeat (identity : String) (f : Seat → Seat) : List Seat → List Seat := updateWhere (fun x => x.identity = identity) f

def join (isSealed : Bool) (c : Conn) : Lounge :=
  if isSealed then s.set { c with phase := .gone }
  else match s.seat? c.identity with
    | none =>
      if locaKapasite ≤ s.members.length then s.set { c with phase := .gone }
      else ({ s.set { c with phase := .open } with
        members := s.members ++ [Seat.mk c.identity c.name c.kind 1] }).send .other
    | some x =>
      if additionalHumanReader x c then
        ({ s.set { c with phase := .open } with
          members := onSeat c.identity (fun x => { x with count := x.count + 1 }) s.members }).send .other
      else
        (({ s.set { c with phase := .open } with
          members := onSeat c.identity (fun x => { x with name := c.name, kind := c.kind, count := 1 }) s.members }).send
            (.evicted c.identity c.session)).send .other

def leave (identity : String) : Lounge :=
  ({ s with
    members := deleteWhere (fun x => x.identity = identity && x.count = 0)
      (onSeat identity (fun x => { x with count := x.count - 1 }) s.members) }).send .other

/-- A frame is read; a reader that lags stops. -/
def recv (c : Conn) : Lounge :=
  if broadcastCap < c.queue.length then s.set { c with phase := .closing false }
  else match c.queue with
    | [] => s
    | f :: rest =>
      match c.bids f with
      | some .evicted => s.set { c with phase := .closing true, queue := rest }
      | some _ => s.set { c with phase := .closing false, queue := rest }
      | none => s.set { c with queue := rest }

/-- A kick, a ban or a release: the seats that wear the name are gone. -/
def moderate (name : String) : Lounge :=
  ({ s.send (.kicked name) with members := s.members.filter fun x => x.name ≠ name }).send .other

end Lounge

inductive Event
  | connect (identity name : String) (kind : SenderType)
  | join (session : Nat) (isSealed : Bool)
  | recv (session : Nat)
  /-- The socket closes, a send fails, the credentials die. -/
  | close (session : Nat)
  | leave (session : Nat)
  | moderate (name : String)
  | closeConnections (name : String)
  | chatter
  deriving DecidableEq, Repr

open Lounge

def Lounge.at? (s : Lounge) (session : Nat) (phase : Phase → Bool) : Option Conn :=
  s.conns.find? fun c => c.session = session && phase c.phase

def Lounge.step (s : Lounge) : Event → Lounge
  | .connect identity name kind =>
      { s with
        conns := s.conns ++ [⟨s.nextSession, identity, name, kind, .subscribed, []⟩]
        nextSession := s.nextSession + 1 }
  | .join n isSealed => ((s.at? n (· = .subscribed)).map (s.join isSealed)).getD s
  | .recv n => ((s.at? n (· = .open)).map s.recv).getD s
  | .close n => ((s.at? n (· = .open)).map fun c => s.set { c with phase := .closing false }).getD s
  | .leave n =>
      match s.conns.find? fun c => c.session = n with
      | none => s
      | some c =>
        match c.phase with
        | .closing true => s.set { c with phase := .gone }
        | .closing false => (s.set { c with phase := .gone }).leave c.identity
        | _ => s
  | .moderate name => s.moderate name
  | .closeConnections name => s.send (.kicked name)
  | .chatter => s.send .other

/-- A room that nobody has entered. -/
def lounge : Sys.Machine Lounge Event Unit where
  init s := s = ⟨[], [], 0⟩
  step s e := ((), s.step e)

/-! ## What a frame does to a connection -/

@[simp] theorem Conn.hear_session (f : Frame) (c : Conn) : (c.hear f).session = c.session := by
  unfold Conn.hear
  split <;> rfl

@[simp] theorem Conn.hear_identity (f : Frame) (c : Conn) : (c.hear f).identity = c.identity := by
  unfold Conn.hear
  split <;> rfl

@[simp] theorem Conn.hear_name (f : Frame) (c : Conn) : (c.hear f).name = c.name := by
  unfold Conn.hear
  split <;> rfl

@[simp] theorem Conn.hear_phase (f : Frame) (c : Conn) : (c.hear f).phase = c.phase := by
  unfold Conn.hear
  split <;> rfl

@[simp] theorem Conn.hear_seated (f : Frame) (c : Conn) : (c.hear f).seated = c.seated := by
  simp [Conn.seated]

@[simp] theorem Conn.bids_hear (f : Frame) (c : Conn) : (c.hear f).bids = c.bids := by
  funext g
  cases g <;> simp [Conn.bids]

/-- A frame counts when nothing before it has told the connection to stop. -/
theorem Conn.fate_hear (f : Frame) {c : Conn} (hc : c.phase ≠ .gone) : (c.hear f).fate = c.fate.or (c.bids f) := by
  have hq : (c.hear f).queue = c.queue ++ [f] := by simp [Conn.hear, hc]
  cases hp : c.phase with
  | closing b => cases b <;> simp [Conn.fate, hp]
  | gone => exact absurd hp hc
  | subscribed => simp [Conn.fate, hp, hq, List.findSome?_append]
  | «open» => simp [Conn.fate, hp, hq, List.findSome?_append]

theorem Conn.seated_phase {c : Conn} (hs : c.seated = true) : c.phase ≠ .gone := by
  intro hp
  simp [Conn.seated, hp] at hs

theorem Conn.holds_iff {c : Conn} : c.holds = true ↔ c.seated = true ∧ c.fate ≠ some .evicted := by
  simp [Conn.holds]

/-- A frame that evicts nobody changes who holds a seat in nothing. -/
theorem Conn.holds_hear {f : Frame} {c : Conn} (hf : c.bids f ≠ some .evicted) : (c.hear f).holds = c.holds := by
  rw [Bool.eq_iff_iff, Conn.holds_iff, Conn.holds_iff, Conn.hear_seated]
  refine and_congr_right fun hs => ?_
  rw [Conn.fate_hear f (Conn.seated_phase hs)]
  cases hc : c.fate with
  | none => simpa using hf
  | some stop => simp

theorem Conn.staying_hear {f : Frame} {c : Conn} (hs : c.seated = true) (hf : (c.hear f).fate = none) :
    c.fate = none ∧ c.bids f = none := by
  rw [Conn.fate_hear f (Conn.seated_phase hs)] at hf
  exact Option.or_eq_none_iff.mp hf

/-! ## The seats and who holds them -/

/-- The connections of an identity that hold its seat. -/
def Lounge.holders (s : Lounge) (identity : String) : Nat :=
  s.conns.countP fun c => c.identity = identity && c.holds

structure Seating (s : Lounge) : Prop where
  sessions : (s.conns.map Conn.session).Nodup
  fresh : ∀ c ∈ s.conns, c.session < s.nextSession
  seats : (s.members.map Seat.identity).Nodup
  counted : ∀ x ∈ s.members, x.count = s.holders x.identity ∧ 0 < x.count
  labelled : ∀ x ∈ s.members, ∀ c ∈ s.conns, c.identity = x.identity → c.holds = true → c.name = x.name
  staying : ∀ c ∈ s.conns, c.seated = true → c.fate = none → ∃ x ∈ s.members, x.identity = c.identity

section

variable {s : Lounge}

theorem holders_send {f : Frame} {identity : String} (hf : ∀ c ∈ s.conns, c.identity = identity → c.bids f ≠ some .evicted) :
    (s.send f).holders identity = s.holders identity := by
  unfold Lounge.holders Lounge.send
  rw [List.countP_map]
  refine List.countP_congr fun c hc => ?_
  simp only [Function.comp, Conn.hear_identity, Bool.and_eq_true, decide_eq_true_eq]
  exact and_congr_right fun hi => by rw [Conn.holds_hear (hf c hc hi)]

/-- A frame that evicts nobody leaves the seats to those who hold them. -/
theorem Seating.send (hs : Seating s) {f : Frame} (hf : ∀ c : Conn, c.bids f ≠ some .evicted) : Seating (s.send f) where
  sessions := by simpa [Lounge.send, Function.comp_def] using hs.sessions
  fresh := by simpa [Lounge.send] using hs.fresh
  seats := hs.seats
  counted := fun x hx => by
    rw [holders_send fun c _ _ => hf c]
    exact hs.counted x hx
  labelled := by
    intro x hx c hc hi hh
    obtain ⟨c₀, hc₀, rfl⟩ := List.mem_map.mp hc
    rw [Conn.hear_identity] at hi
    rw [Conn.holds_hear (hf c₀)] at hh
    rw [Conn.hear_name]
    exact hs.labelled x hx c₀ hc₀ hi hh
  staying := by
    intro c hc hseat hfate
    obtain ⟨c₀, hc₀, rfl⟩ := List.mem_map.mp hc
    rw [Conn.hear_seated] at hseat
    rw [Conn.hear_identity]
    exact hs.staying c₀ hc₀ hseat (Conn.staying_hear hseat hfate).1

theorem bids_other (c : Conn) : c.bids .other ≠ some .evicted := by
  intro h
  cases h

theorem bids_kicked (name : String) (c : Conn) : c.bids (.kicked name) ≠ some .evicted := by
  intro h
  simp [Conn.bids] at h

theorem Seating.connect (hs : Seating s) (identity name : String) (kind : SenderType) :
    Seating (s.step (.connect identity name kind)) where
  sessions := by
    simp only [Lounge.step, List.map_append, List.map_cons, List.map_nil]
    refine List.nodup_append.mpr ⟨hs.sessions, List.nodup_singleton _, ?_⟩
    intro n hn m hm
    obtain ⟨c, hc, rfl⟩ := List.mem_map.mp hn
    rw [List.mem_singleton.mp hm]
    exact Nat.ne_of_lt (hs.fresh c hc)
  fresh := by
    intro c hc
    simp only [Lounge.step, List.mem_append, List.mem_singleton] at hc ⊢
    rcases hc with hc | rfl
    · exact Nat.lt_succ_of_lt (hs.fresh c hc)
    · exact Nat.lt_succ_self _
  seats := hs.seats
  counted := by
    intro x hx
    refine ⟨?_, (hs.counted x hx).2⟩
    rw [(hs.counted x hx).1]
    simp [Lounge.holders, Lounge.step, Conn.holds, Conn.seated]
  labelled := by
    intro x hx c hc hi hh
    rcases List.mem_append.mp hc with hc | hc
    · exact hs.labelled x hx c hc hi hh
    · rw [List.mem_singleton.mp hc] at hh
      simp [Conn.holds, Conn.seated] at hh
  staying := by
    intro c hc hseat hfate
    rcases List.mem_append.mp hc with hc | hc
    · exact hs.staying c hc hseat hfate
    · rw [List.mem_singleton.mp hc] at hseat
      simp [Conn.seated] at hseat

theorem Seating.moderate (hs : Seating s) (name : String) : Seating (s.moderate name) := by
  refine Seating.send ?_ bids_other
  have hk := hs.send (bids_kicked name)
  refine ⟨hk.sessions, hk.fresh, hs.seats.sublist (List.filter_sublist.map _), ?_, ?_, ?_⟩
  · intro x hx
    exact hk.counted x (List.mem_filter.mp hx).1
  · intro x hx
    exact hk.labelled x (List.mem_filter.mp hx).1
  · intro c hc hseat hfate
    obtain ⟨x, hx, hi⟩ := hk.staying c hc hseat hfate
    -- whoever stays does not bear the name, and his seat wears his own
    have hname : c.name = x.name := by
      refine hk.labelled x hx c hc hi.symm (Conn.holds_iff.mpr ⟨hseat, ?_⟩)
      rw [hfate]
      exact fun h => nomatch h
    refine ⟨x, List.mem_filter.mpr ⟨hx, ?_⟩, hi⟩
    obtain ⟨c₀, -, rfl⟩ := List.mem_map.mp hc
    rw [Conn.hear_seated] at hseat
    have hbid := (Conn.staying_hear hseat hfate).2
    rw [Conn.hear_name] at hname
    simp only [ne_eq, decide_not, Bool.not_eq_eq_eq_not, Bool.not_true, decide_eq_false_iff_not]
    intro hx
    rw [hx] at hname
    simp [Conn.bids, hname] at hbid

/-! ## One connection changes -/

variable {c c' : Conn}

theorem mem_set (hc : c' ∈ (s.set c).conns) : c' = c ∨ (c' ∈ s.conns ∧ c'.session ≠ c.session) := by
  obtain ⟨x, hx, rfl⟩ := mem_updateWhere.mp hc
  by_cases h : x.session = c.session
  · exact .inl (by simp [h])
  · exact .inr (by simp [h, hx])

theorem holders_set (hn : (s.conns.map Conn.session).Nodup) (hc : c ∈ s.conns) (hsess : c'.session = c.session)
    (identity : String) : (s.set c').holders identity + (if c.identity = identity && c.holds then 1 else 0) =
      s.holders identity + (if c'.identity = identity && c'.holds then 1 else 0) := by
  obtain ⟨l₁, l₂, hl, hset⟩ := @updateWhere_one Conn Nat _ Conn.session (fun x => x.session = c'.session) (fun _ => c')
    s.conns c hn hc (by simp [hsess]) (by simp [hsess])
  unfold Lounge.holders Lounge.set
  rw [hset, hl, List.countP_append, List.countP_append, List.countP_cons, List.countP_cons]
  omega

theorem set_sessions (c : Conn) : (s.set c).conns.map Conn.session = s.conns.map Conn.session := by
  unfold Lounge.set updateWhere
  rw [List.map_map]
  refine List.map_congr_left fun x _ => ?_
  simp only [Function.comp]
  split
  · next hx => exact (of_decide_eq_true hx).symm
  · rfl

theorem set_fresh (hs : Seating s) (hc : c ∈ s.conns) (hsess : c'.session = c.session) :
    ∀ x ∈ (s.set c').conns, x.session < s.nextSession := by
  intro x hx
  rcases mem_set hx with rfl | ⟨hx, -⟩
  · exact hsess ▸ hs.fresh c hc
  · exact hs.fresh x hx

/-- A connection that goes on as it is: it holds what it held, and it stays only if it stayed. -/
theorem Seating.set (hs : Seating s) (hc : c ∈ s.conns) (hsess : c'.session = c.session)
    (hid : c'.identity = c.identity) (hname : c'.name = c.name)
    (hholds : (∃ x ∈ s.members, x.identity = c.identity) → c'.holds = c.holds)
    (hstay : c'.seated = true → c'.fate = none → c.seated = true ∧ c.fate = none) : Seating (s.set c') where
  sessions := by rw [set_sessions]; exact hs.sessions
  fresh := set_fresh hs hc hsess
  seats := hs.seats
  counted := by
    intro x hx
    refine ⟨?_, (hs.counted x hx).2⟩
    rw [(hs.counted x hx).1]
    have hset := holders_set hs.sessions hc hsess x.identity
    rw [hid] at hset
    by_cases hi : c.identity = x.identity
    · rw [hholds ⟨x, hx, hi.symm⟩] at hset
      omega
    · simp only [hi, decide_false, Bool.false_and, Bool.false_eq_true, if_false] at hset
      omega
  labelled := by
    intro x hx y hy hi hh
    rcases mem_set hy with rfl | ⟨hy, -⟩
    · rw [hid] at hi
      rw [hname]
      rw [hholds ⟨x, hx, hi.symm⟩] at hh
      exact hs.labelled x hx c hc hi hh
    · exact hs.labelled x hx y hy hi hh
  staying := by
    intro y hy hseat hfate
    rcases mem_set hy with rfl | ⟨hy, -⟩
    · obtain ⟨hseat, hfate⟩ := hstay hseat hfate
      rw [hid]
      exact hs.staying c hc hseat hfate
    · exact hs.staying y hy hseat hfate

theorem not_holds_of_phase {ph : Phase} (hp : c.phase = ph) (hno : ph = .subscribed ∨ ph = .gone) : c.holds = false := by
  rcases hno with rfl | rfl <;> simp [Conn.holds, Conn.seated, hp]

/-- A connection that never joined, or that was evicted, is gone. -/
theorem Seating.gone (hs : Seating s) (hc : c ∈ s.conns) (hno : c.holds = false) :
    Seating (s.set { c with phase := .gone }) := by
  refine hs.set hc rfl rfl rfl (fun _ => ?_) fun hseat _ => ?_
  · rw [hno]
    exact not_holds_of_phase rfl (.inr rfl)
  · simp [Conn.seated] at hseat

/-- A connection stops without having read an eviction. -/
theorem Seating.close (hs : Seating s) (hc : c ∈ s.conns) (hopen : c.phase = .open)
    (hok : c.fate = some .evicted → ∀ x ∈ s.members, x.identity ≠ c.identity) :
    Seating (s.set { c with phase := .closing false }) := by
  refine hs.set hc rfl rfl rfl (fun ⟨x, hx, hi⟩ => ?_) fun _ hfate => ?_
  · have hne : c.fate ≠ some .evicted := fun he => hok he x hx hi
    rw [Bool.eq_iff_iff, Conn.holds_iff, Conn.holds_iff]
    simp [Conn.seated, Conn.fate, hopen] at hne ⊢
    exact hne
  · simp [Conn.fate] at hfate

theorem Seating.recv (hs : Seating s) (hc : c ∈ s.conns) (hopen : c.phase = .open)
    (hok : broadcastCap < c.queue.length → c.fate = some .evicted → ∀ x ∈ s.members, x.identity ≠ c.identity) :
    Seating (s.recv c) := by
  unfold Lounge.recv
  split
  · next hlag => exact hs.close hc hopen (hok hlag)
  · cases hq : c.queue with
    | nil => exact hs
    | cons f rest =>
        have hfate : c.fate = (c.bids f).or (rest.findSome? c.bids) := by
          simp only [Conn.fate, hopen, hq, List.findSome?_cons]
          cases c.bids f <;> rfl
        dsimp only
        cases hb : c.bids f with
        | none =>
            rw [hb, Option.none_or] at hfate
            have hsame : ({ c with queue := rest } : Conn).fate = c.fate := by
              rw [hfate]
              simp only [Conn.fate, hopen]
              rfl
            refine hs.set hc rfl rfl rfl (fun _ => ?_) fun hseat hf => ⟨hseat, hsame ▸ hf⟩
            rw [Conn.holds, Conn.holds, hsame]
            rfl
        | some stop =>
            rw [hb, Option.some_or] at hfate
            cases stop with
            | evicted =>
                refine hs.set hc rfl rfl rfl (fun _ => ?_) fun _ hf => ?_
                · have hno : c.holds = false := by rw [Conn.holds, hfate]; simp
                  rw [hno]
                  rfl
                · simp [Conn.fate] at hf
            | leaving =>
                refine hs.set hc rfl rfl rfl (fun _ => ?_) fun _ hf => ?_
                · have hyes : c.holds = true := by rw [Conn.holds, hfate]; simp [Conn.seated, hopen]
                  rw [hyes]
                  rfl
                · simp [Conn.fate] at hf

theorem mem_onSeat {identity : String} {f : Seat → Seat} (hf : ∀ x, (f x).identity = x.identity) {members : List Seat}
    {y : Seat} (hy : y ∈ onSeat identity f members) :
    ∃ x ∈ members, y.identity = x.identity ∧ (x.identity = identity ∧ y = f x ∨ x.identity ≠ identity ∧ y = x) := by
  obtain ⟨x, hx, rfl⟩ := mem_updateWhere.mp hy
  refine ⟨x, hx, ?_⟩
  by_cases hi : x.identity = identity
  · simp [hi, hf]
  · simp [hi]

theorem seat_mem {x : Seat} {identity : String} (hx : s.seat? identity = some x) :
    x ∈ s.members ∧ x.identity = identity :=
  ⟨List.mem_of_find?_eq_some hx, by simpa using List.find?_some hx⟩

theorem seat_none {identity : String} (hx : s.seat? identity = none) : ∀ x ∈ s.members, x.identity ≠ identity := by
  intro x hx'
  simpa using List.find?_eq_none.mp hx x hx'

/-- The last step of a connection that gives its seat back. -/
theorem Seating.leave (hs : Seating s) (hc : c ∈ s.conns) (hp : c.phase = .closing false) :
    Seating ((s.set { c with phase := .gone }).leave c.identity) := by
  refine Seating.send ?_ bids_other
  have hholds : c.holds = true := by simp [Conn.holds, Conn.seated, Conn.fate, hp]
  have hgone : ({ c with phase := .gone } : Conn).holds = false := not_holds_of_phase rfl (.inr rfl)
  have hset := @holders_set _ c { c with phase := .gone } hs.sessions hc rfl
  simp only [hholds, hgone, Bool.and_true, Bool.and_false, Bool.false_eq_true, if_false, decide_eq_true_eq] at hset
  have hseat : ∀ y ∈ deleteWhere (fun x => x.identity = c.identity && x.count = 0)
      (onSeat c.identity (fun x => { x with count := x.count - 1 }) s.members), ∃ x ∈ s.members,
        y.identity = x.identity ∧ y.name = x.name ∧ 0 < y.count ∧
          y.count + (if c.identity = y.identity then 1 else 0) = x.count := by
    intro y hy
    obtain ⟨hy, hzero⟩ := mem_deleteWhere.mp hy
    obtain ⟨x, hx, hxy, ⟨hi, rfl⟩ | ⟨hi, rfl⟩⟩ :=
      mem_onSeat (f := fun x => { x with count := x.count - 1 }) (fun _ => rfl) hy
    · have hpos := (hs.counted x hx).2
      simp only [hi, decide_true, Bool.true_and, decide_eq_false_iff_not] at hzero
      refine ⟨x, hx, rfl, rfl, Nat.pos_of_ne_zero hzero, ?_⟩
      simp only [hi, if_true]
      omega
    · refine ⟨y, hx, rfl, rfl, (hs.counted y hx).2, ?_⟩
      rw [if_neg (Ne.symm hi)]
      rfl
  refine ⟨?_, set_fresh hs hc rfl, ?_, ?_, ?_, ?_⟩
  · rw [set_sessions]
    exact hs.sessions
  · refine List.Nodup.sublist (List.filter_sublist.map _) ?_
    exact nodup_updateWhere (fun _ => rfl) hs.seats
  · intro y hy
    obtain ⟨x, hx, hi, -, hpos, hcount⟩ := hseat y hy
    refine ⟨?_, hpos⟩
    have hx' := (hs.counted x hx).1
    have := hset y.identity
    rw [← hi] at hx'
    change y.count = (s.set { c with phase := .gone }).holders y.identity
    omega
  · intro y hy z hz hi hh
    obtain ⟨x, hx, hxy, hname, -, -⟩ := hseat y hy
    rcases mem_set hz with rfl | ⟨hz, -⟩
    · rw [hgone] at hh
      cases hh
    · rw [hname]
      exact hs.labelled x hx z hz (hi.trans hxy) hh
  · intro z hz hseated hfate
    rcases mem_set hz with rfl | ⟨hz, hne⟩
    · simp [Conn.seated] at hseated
    · obtain ⟨x, hx, hi⟩ := hs.staying z hz hseated hfate
      by_cases hxi : x.identity = c.identity
      · -- both `c` and `z` hold the seat, so one of them is left
        have hzh : z.holds = true := Conn.holds_iff.mpr ⟨hseated, by rw [hfate]; exact fun h => nomatch h⟩
        have htwo : 0 < (s.set { c with phase := .gone }).holders c.identity := by
          refine List.countP_pos_iff.mpr ⟨z, ?_, by simp [hzh, ← hi, hxi]⟩
          exact mem_updateWhere.mpr ⟨z, hz, by simp [hne]⟩
        have hx' := (hs.counted x hx).1
        have hsum := hset c.identity
        rw [hxi] at hx'
        rw [if_pos rfl] at hsum
        refine ⟨{ x with count := x.count - 1 }, mem_deleteWhere.mpr ⟨?_, ?_⟩, hi⟩
        · exact mem_updateWhere.mpr ⟨x, hx, by simp [hxi]⟩
        · simp only [hxi, decide_true, Bool.true_and, decide_eq_false_iff_not]
          omega
      · refine ⟨x, mem_deleteWhere.mpr ⟨mem_updateWhere.mpr ⟨x, hx, by simp [hxi]⟩, by simp [hxi]⟩, hi⟩

/-! ## A join -/

/-- The connection's own join does not evict it. -/
theorem bids_own (c : Conn) : c.bids (.evicted c.identity c.session) = none := by
  simp [Conn.bids]

theorem open_holds (hp : c.phase = .subscribed) (hfate : c.fate ≠ some .evicted) :
    ({ c with phase := .open } : Conn).holds = true := by
  have hsame : ({ c with phase := .open } : Conn).fate = c.fate := by
    simp only [Conn.fate, hp]
    rfl
  exact Conn.holds_iff.mpr ⟨rfl, hsame ▸ hfate⟩

/-- The holders of the seats once `c` is in. -/
theorem holders_open (hs : Seating s) (hc : c ∈ s.conns) (hp : c.phase = .subscribed) (hfate : c.fate ≠ some .evicted)
    (identity : String) : (s.set { c with phase := .open }).holders identity =
      s.holders identity + (if c.identity = identity then 1 else 0) := by
  have hset := @holders_set _ c { c with phase := .open } hs.sessions hc rfl identity
  rw [open_holds hp hfate, not_holds_of_phase hp (.inl rfl)] at hset
  simpa using hset

/-- Another device of a human who is seated. -/
theorem Seating.another (hs : Seating s) (hc : c ∈ s.conns) (hp : c.phase = .subscribed)
    (hfate : c.fate ≠ some .evicted) {x : Seat} (hx : s.seat? c.identity = some x) (hname : x.name = c.name) :
    Seating ({ s.set { c with phase := .open } with
      members := onSeat c.identity (fun x => { x with count := x.count + 1 }) s.members } : Lounge) where
  sessions := by
    change ((s.set { c with phase := .open }).conns.map Conn.session).Nodup
    rw [set_sessions]
    exact hs.sessions
  fresh := set_fresh hs hc rfl
  seats := nodup_updateWhere (fun _ => rfl) hs.seats
  counted := by
    intro y hy
    obtain ⟨z, hz, -, hcase⟩ := mem_onSeat (f := fun x => { x with count := x.count + 1 }) (fun _ => rfl) hy
    change y.count = (s.set { c with phase := .open }).holders y.identity ∧ 0 < y.count
    rw [holders_open hs hc hp hfate]
    have hz' := hs.counted z hz
    rcases hcase with ⟨hi, rfl⟩ | ⟨hi, rfl⟩
    · simp only [hi, if_true]
      rw [hi] at hz'
      omega
    · rw [if_neg (Ne.symm hi)]
      exact hz'
  labelled := by
    intro y hy z hz hi hh
    obtain ⟨y₀, hy₀, hyi, hcase⟩ := mem_onSeat (f := fun x => { x with count := x.count + 1 }) (fun _ => rfl) hy
    have hyn : y.name = y₀.name := by rcases hcase with ⟨-, rfl⟩ | ⟨-, rfl⟩ <;> rfl
    rcases mem_set hz with rfl | ⟨hz, -⟩
    · obtain ⟨hxm, hxi⟩ := seat_mem hx
      rw [hyn, ← eq_of_key hs.seats hxm hy₀ (hxi.trans (hi.trans hyi))]
      exact hname.symm
    · rw [hyn]
      exact hs.labelled y₀ hy₀ z hz (hi.trans hyi) hh
  staying := by
    intro z hz hseat hfree
    have hsome : ∃ y ∈ s.members, y.identity = z.identity := by
      rcases mem_set hz with rfl | ⟨hz, -⟩
      · exact ⟨x, seat_mem hx⟩
      · exact hs.staying z hz hseat hfree
    obtain ⟨y, hy, hyi⟩ := hsome
    refine ⟨_, mem_updateWhere.mpr ⟨y, hy, rfl⟩, ?_⟩
    split <;> exact hyi

/-- A seat that nobody has, and whose former holders have all been evicted. -/
theorem Seating.insert (hs : Seating s) (hc : c ∈ s.conns) (hp : c.phase = .subscribed)
    (hfate : c.fate ≠ some .evicted) (hx : s.seat? c.identity = none)
    (hrest : ∀ z ∈ s.conns, z.identity = c.identity → z.seated = true → z.fate ≠ some .leaving) :
    Seating ({ s.set { c with phase := .open } with
      members := s.members ++ [Seat.mk c.identity c.name c.kind 1] } : Lounge) := by
  have hnone := seat_none hx
  have hout : ∀ z ∈ s.conns, z.identity = c.identity → z.holds = false := by
    intro z hz hi
    by_contra hh
    obtain ⟨hseat, hne⟩ := Conn.holds_iff.mp (Bool.eq_true_of_not_eq_false hh)
    cases hf : z.fate with
    | none =>
        obtain ⟨x, hx, hxi⟩ := hs.staying z hz hseat hf
        exact hnone x hx (hxi.trans hi)
    | some stop =>
        cases stop with
        | evicted => exact hne hf
        | leaving => exact hrest z hz hi hseat hf
  have hzero : s.holders c.identity = 0 := by
    refine List.countP_eq_zero.mpr fun z hz hh => ?_
    simp only [Bool.and_eq_true, decide_eq_true_eq] at hh
    rw [hout z hz hh.1] at hh
    cases hh.2
  refine ⟨?_, set_fresh hs hc rfl, ?_, ?_, ?_, ?_⟩
  · change ((s.set { c with phase := .open }).conns.map Conn.session).Nodup
    rw [set_sessions]
    exact hs.sessions
  · rw [List.map_append]
    refine List.nodup_append.mpr ⟨hs.seats, List.nodup_singleton _, ?_⟩
    intro i hi j hj
    obtain ⟨x, hx, rfl⟩ := List.mem_map.mp hi
    rw [List.mem_singleton.mp hj]
    exact hnone x hx
  · intro y hy
    change y.count = (s.set { c with phase := .open }).holders y.identity ∧ 0 < y.count
    rw [holders_open hs hc hp hfate]
    rcases List.mem_append.mp hy with hy | hy
    · rw [if_neg (Ne.symm (hnone y hy))]
      exact hs.counted y hy
    · rw [List.mem_singleton.mp hy]
      simp [hzero]
  · intro y hy z hz hi hh
    rcases List.mem_append.mp hy with hy | hy
    · rcases mem_set hz with rfl | ⟨hz, -⟩
      · exact absurd hi.symm (hnone y hy)
      · exact hs.labelled y hy z hz hi hh
    · rw [List.mem_singleton.mp hy] at hi ⊢
      rcases mem_set hz with rfl | ⟨hz, -⟩
      · rfl
      · rw [hout z hz hi] at hh
        cases hh
  · intro z hz hseat hfree
    rcases mem_set hz with rfl | ⟨hz, -⟩
    · exact ⟨_, List.mem_append_right _ (List.mem_singleton.mpr rfl), rfl⟩
    · obtain ⟨y, hy, hyi⟩ := hs.staying z hz hseat hfree
      exact ⟨y, List.mem_append_left _ hy, hyi⟩

/-- Who holds a seat once an eviction has been sent: of the identity, the newcomer alone. -/
theorem evicted_holds {z : Conn} (hin : c.identity = z.identity → z.session ≠ c.session → z.seated = true →
    z.fate ≠ some .leaving) (hne : z.session ≠ c.session) :
    (z.hear (.evicted c.identity c.session)).holds = (z.holds && z.identity ≠ c.identity) := by
  by_cases hi : c.identity = z.identity
  · simp only [hi, ne_eq, not_true_eq_false, decide_false, Bool.and_false]
    by_contra hh
    obtain ⟨hseat, hfate⟩ := Conn.holds_iff.mp (Bool.eq_true_of_not_eq_false hh)
    rw [Conn.hear_seated] at hseat
    rw [Conn.fate_hear _ (Conn.seated_phase hseat)] at hfate
    cases hf : z.fate with
    | none => simp [hf, Conn.bids, Ne.symm hne] at hfate
    | some stop =>
        cases stop with
        | evicted => simp [hf] at hfate
        | leaving => exact hin hi hne hseat hf
  · rw [Conn.holds_hear]
    · simp [Ne.symm hi]
    · simp [Conn.bids, hi]

/-- The newcomer ignores its own eviction. -/
theorem newcomer_holds (hp : c.phase = .subscribed) (hfate : c.fate ≠ some .evicted) :
    (({ c with phase := .open } : Conn).hear (.evicted c.identity c.session)).holds = true := by
  rw [Conn.holds_hear, open_holds hp hfate]
  simp [Conn.bids]

/-- After a takeover the newcomer alone holds the seat; the others' holders are who they were. -/
theorem holders_takeover (hs : Seating s) (hc : c ∈ s.conns) (hp : c.phase = .subscribed)
    (hfate : c.fate ≠ some .evicted)
    (hrest : ∀ z ∈ s.conns, z.identity = c.identity → z.seated = true → z.fate ≠ some .leaving) (identity : String) :
    ((s.set { c with phase := .open }).send (.evicted c.identity c.session)).holders identity =
      if identity = c.identity then 1 else s.holders identity := by
  have hold : ∀ z ∈ s.conns, z.session ≠ c.session →
      (z.hear (.evicted c.identity c.session)).holds = (z.holds && z.identity ≠ c.identity) :=
    fun z hz hne => evicted_holds (fun hi _ => hrest z hz hi.symm) hne
  obtain ⟨l₁, l₂, hl, hset⟩ := @updateWhere_one Conn Nat _ Conn.session (fun x => x.session = c.session)
    (fun _ => { c with phase := .open }) s.conns c hs.sessions hc (by simp) (by simp)
  have hside : ∀ l : List Conn, (∀ z ∈ l, z ∈ s.conns ∧ z.session ≠ c.session) →
      (l.map (Conn.hear (.evicted c.identity c.session))).countP (fun z => z.identity = identity && z.holds) =
        if identity = c.identity then 0 else l.countP fun z => z.identity = identity && z.holds := by
    intro l hall
    rw [List.countP_map]
    split
    · next he =>
        refine List.countP_eq_zero.mpr fun z hz hh => ?_
        simp only [Function.comp, Conn.hear_identity, Bool.and_eq_true, decide_eq_true_eq] at hh
        rw [hold z (hall z hz).1 (hall z hz).2] at hh
        simp [hh.1, he] at hh
    · next he =>
        refine List.countP_congr fun z hz => ?_
        simp only [Function.comp, Conn.hear_identity, Bool.and_eq_true, decide_eq_true_eq]
        refine and_congr_right fun hi => ?_
        rw [hold z (hall z hz).1 (hall z hz).2, hi]
        simp [he]
  have hn := hs.sessions
  rw [hl] at hn
  obtain ⟨h₁, h₂⟩ := key_ne_of_nodup hn
  have hl₁ := hside l₁ fun z hz => ⟨hl ▸ List.mem_append_left _ hz, by simpa using h₁ z hz⟩
  have hl₂ := hside l₂ fun z hz => ⟨hl ▸ List.mem_append_right _ (List.mem_cons_of_mem _ hz), by simpa using h₂ z hz⟩
  simp only [Lounge.holders, Lounge.send, Lounge.set]
  rw [hset, hl, List.map_append, List.map_cons, List.countP_append, List.countP_cons, hl₁, hl₂, List.countP_append,
    List.countP_cons, newcomer_holds hp hfate, not_holds_of_phase hp (.inl rfl), Conn.hear_identity]
  by_cases he : identity = c.identity
  · simp [he]
  · simp [he, Ne.symm he]

/-- A newcomer takes the seat from those who hold it. -/
theorem Seating.takeover (hs : Seating s) (hc : c ∈ s.conns) (hp : c.phase = .subscribed)
    (hfate : c.fate ≠ some .evicted)
    (hrest : ∀ z ∈ s.conns, z.identity = c.identity → z.seated = true → z.fate ≠ some .leaving) {x : Seat}
    (hx : s.seat? c.identity = some x) :
    Seating (({ s.set { c with phase := .open } with
      members := onSeat c.identity (fun x => { x with name := c.name, kind := c.kind, count := 1 }) s.members } : Lounge).send
        (.evicted c.identity c.session)) := by
  have hold : ∀ z ∈ s.conns, z.session ≠ c.session →
      (z.hear (.evicted c.identity c.session)).holds = (z.holds && z.identity ≠ c.identity) :=
    fun z hz hne => evicted_holds (fun hi _ => hrest z hz hi.symm) hne
  have hmem : ∀ y ∈ (s.set { c with phase := .open }).conns.map (Conn.hear (.evicted c.identity c.session)),
      y = ({ c with phase := .open } : Conn).hear (.evicted c.identity c.session) ∨
        ∃ z ∈ s.conns, z.session ≠ c.session ∧ y = z.hear (.evicted c.identity c.session) := by
    intro y hy
    obtain ⟨z, hz, rfl⟩ := List.mem_map.mp hy
    rcases mem_set hz with rfl | ⟨hz, hne⟩
    · exact .inl rfl
    · exact .inr ⟨z, hz, hne, rfl⟩
  refine ⟨?_, ?_, nodup_updateWhere (fun _ => rfl) hs.seats, ?_, ?_, ?_⟩
  · have := hs.sessions
    rw [← set_sessions { c with phase := .open }] at this
    simpa [Lounge.send, Function.comp_def] using this
  · intro w hw
    obtain ⟨z, hz, rfl⟩ := List.mem_map.mp hw
    rw [Conn.hear_session]
    exact @set_fresh _ c { c with phase := .open } hs hc rfl z hz
  · intro y hy
    obtain ⟨z, hz, -, hcase⟩ :=
      mem_onSeat (f := fun x => { x with name := c.name, kind := c.kind, count := 1 }) (fun _ => rfl) hy
    change y.count = ((s.set { c with phase := .open }).send (.evicted c.identity c.session)).holders y.identity ∧ 0 < y.count
    rw [holders_takeover hs hc hp hfate hrest]
    rcases hcase with ⟨hi, rfl⟩ | ⟨hi, rfl⟩
    · simp [hi]
    · rw [if_neg hi]
      exact hs.counted y hz
  · intro y hy w hw hi hh
    obtain ⟨y₀, hy₀, hyi, hcase⟩ :=
      mem_onSeat (f := fun x => { x with name := c.name, kind := c.kind, count := 1 }) (fun _ => rfl) hy
    rcases hmem w hw with rfl | ⟨z, hz, hne, rfl⟩
    · rw [Conn.hear_identity] at hi
      rcases hcase with ⟨-, rfl⟩ | ⟨hno, rfl⟩
      · rw [Conn.hear_name]
      · exact absurd hi.symm hno
    · rw [hold z hz hne] at hh
      simp only [Bool.and_eq_true, decide_eq_true_eq] at hh
      rw [Conn.hear_identity] at hi
      rcases hcase with ⟨hyes, rfl⟩ | ⟨-, rfl⟩
      · exact absurd (hi.trans hyes) hh.2
      · rw [Conn.hear_name]
        exact hs.labelled y hy₀ z hz hi hh.1
  · intro w hw hseat hfree
    have hsome : ∃ y ∈ s.members, y.identity = w.identity := by
      rcases hmem w hw with rfl | ⟨z, hz, hne, rfl⟩
      · rw [Conn.hear_identity]
        exact ⟨x, seat_mem hx⟩
      · rw [Conn.hear_seated] at hseat
        rw [Conn.hear_identity]
        exact hs.staying z hz hseat (Conn.staying_hear hseat hfree).1
    obtain ⟨y, hy, hyi⟩ := hsome
    refine ⟨_, mem_updateWhere.mpr ⟨y, hy, rfl⟩, ?_⟩
    split <;> exact hyi

end

/-! ## Every order of steps -/

/-- The connection may stop on its own: if it has been evicted, nobody has the seat. -/
def Lounge.MayStop (s : Lounge) (c : Conn) : Prop :=
  c.fate = some .evicted → ∀ x ∈ s.members, x.identity ≠ c.identity

/-- The connection may take a seat: no eviction was sent to its identity since it subscribed, and unless it
is another device at a human's seat, no connection of its identity is on its way out to a `leave`. -/
def Lounge.MayJoin (s : Lounge) (c : Conn) : Prop :=
  c.fate ≠ some .evicted ∧
    ((∃ x, s.seat? c.identity = some x ∧ additionalHumanReader x c = true) ∨
      ∀ z ∈ s.conns, z.identity = c.identity → z.seated = true → z.fate ≠ some .leaving)

def Lounge.Orderly (s : Lounge) : Event → Prop
  | .join n _ => ∀ c, s.at? n (· = .subscribed) = some c → s.MayJoin c
  | .recv n => ∀ c, s.at? n (· = .open) = some c → broadcastCap < c.queue.length → s.MayStop c
  | .close n => ∀ c, s.at? n (· = .open) = some c → s.MayStop c
  | _ => True

section

variable {s : Lounge} {c : Conn}

theorem at_some {n : Nat} {ph : Phase → Bool} (hc : s.at? n ph = some c) :
    c ∈ s.conns ∧ c.session = n ∧ ph c.phase = true := by
  have hsome := List.find?_some hc
  simp only [Bool.and_eq_true, decide_eq_true_eq] at hsome
  exact ⟨List.mem_of_find?_eq_some hc, hsome⟩

theorem Seating.join (hs : Seating s) (hc : c ∈ s.conns) (hp : c.phase = .subscribed) (hok : s.MayJoin c)
    (isSealed : Bool) : Seating (s.join isSealed c) := by
  unfold Lounge.join
  split
  · exact hs.gone hc (not_holds_of_phase hp (.inl rfl))
  cases hx : s.seat? c.identity with
  | none =>
      dsimp only
      split
      · exact hs.gone hc (not_holds_of_phase hp (.inl rfl))
      · refine (hs.insert hc hp hok.1 hx ?_).send bids_other
        rcases hok.2 with ⟨x, hsome, -⟩ | hrest
        · rw [hx] at hsome
          cases hsome
        · exact hrest
  | some x =>
      dsimp only
      split
      · next hreader =>
          refine (hs.another hc hp hok.1 hx ?_).send bids_other
          simp only [additionalHumanReader, Bool.and_eq_true, decide_eq_true_eq] at hreader
          exact hreader.1.1
      · next hno =>
          refine (hs.takeover hc hp hok.1 ?_ hx).send bids_other
          rcases hok.2 with ⟨y, hsome, hyes⟩ | hrest
          · rw [hx] at hsome
            rw [Option.some.inj hsome] at hno
            exact absurd hyes hno
          · exact hrest

/-- What one step preserves. -/
theorem step_seating (hs : Seating s) {e : Event} (hok : s.Orderly e) : Seating (s.step e) := by
  cases e with
  | connect identity name kind => exact hs.connect identity name kind
  | join n isSealed =>
      simp only [Lounge.step]
      cases hc : s.at? n (· = .subscribed) with
      | none => exact hs
      | some c =>
          obtain ⟨hmem, -, hp⟩ := at_some hc
          exact hs.join hmem (of_decide_eq_true hp) (hok c hc) isSealed
  | recv n =>
      simp only [Lounge.step]
      cases hc : s.at? n (· = .open) with
      | none => exact hs
      | some c =>
          obtain ⟨hmem, -, hp⟩ := at_some hc
          exact hs.recv hmem (of_decide_eq_true hp) (hok c hc)
  | close n =>
      simp only [Lounge.step]
      cases hc : s.at? n (· = .open) with
      | none => exact hs
      | some c =>
          obtain ⟨hmem, -, hp⟩ := at_some hc
          exact hs.close hmem (of_decide_eq_true hp) (hok c hc)
  | leave n =>
      simp only [Lounge.step]
      cases hc : s.conns.find? fun c => c.session = n with
      | none => exact hs
      | some c =>
          have hmem := List.mem_of_find?_eq_some hc
          dsimp only
          split
          · next hp => exact hs.gone hmem (by simp [Conn.holds, Conn.fate, hp])
          · next hp => exact hs.leave hmem hp
          · exact hs
  | moderate name => exact hs.moderate name
  | closeConnections name => exact hs.send (bids_kicked name)
  | chatter => exact hs.send bids_other

end

theorem length_onSeat (identity : String) (f : Seat → Seat) (members : List Seat) :
    (onSeat identity f members).length = members.length := by
  simp [onSeat, updateWhere]

/-- The room is never overfull, whatever happens. -/
theorem step_kapasite {s : Lounge} (hs : s.members.length ≤ locaKapasite) (e : Event) :
    (s.step e).members.length ≤ locaKapasite := by
  cases e with
  | join n isSealed =>
      simp only [Lounge.step]
      cases s.at? n (· = .subscribed) with
      | none => exact hs
      | some c =>
          simp only [Option.map_some, Option.getD_some, Lounge.join]
          split
          · exact hs
          · cases s.seat? c.identity with
            | none =>
                dsimp only
                split
                · exact hs
                · next hroom =>
                    simp only [Lounge.send, List.length_append, List.length_singleton]
                    omega
            | some x =>
                dsimp only
                split <;> exact (length_onSeat _ _ _).trans_le hs
  | recv n =>
      simp only [Lounge.step]
      cases s.at? n (· = .open) with
      | none => exact hs
      | some c =>
          simp only [Option.map_some, Option.getD_some, Lounge.recv]
          repeat' split
          all_goals exact hs
  | close n =>
      simp only [Lounge.step]
      cases s.at? n (· = .open) <;> exact hs
  | leave n =>
      simp only [Lounge.step]
      cases s.conns.find? fun c => c.session = n with
      | none => exact hs
      | some c =>
          dsimp only
          split
          · exact hs
          · refine (List.length_filter_le _ _).trans ?_
            exact (length_onSeat _ _ _).trans_le hs
          · exact hs
  | moderate name => exact (List.length_filter_le _ _).trans hs
  | connect identity name kind => exact hs
  | closeConnections name => exact hs
  | chatter => exact hs

theorem run_kapasite {ok : Lounge → Event → Prop} {tr : List (Event × Unit)} {s : Lounge}
    (r : Sys.Run lounge ok tr s) : s.members.length ≤ locaKapasite := by
  refine Sys.Run.invariant (I := fun s => s.members.length ≤ locaKapasite) ?_ (fun s e hs _ => step_kapasite hs e) r
  intro s hs
  rw [hs]
  exact Nat.zero_le _

theorem run_seating {tr : List (Event × Unit)} {s : Lounge} (r : Sys.Run lounge Lounge.Orderly tr s) : Seating s := by
  refine r.invariant ?_ fun s e hs hok => step_seating hs hok
  intro s hs
  rw [hs]
  exact ⟨List.nodup_nil, fun _ h => (nomatch h), List.nodup_nil, fun _ h => (nomatch h), fun _ h => (nomatch h),
    fun _ h => (nomatch h)⟩

/-- Along every orderly run: whoever is in the loop and has not been told to stop has a seat; a seat's count is
the number of the connections that hold it; a seat has a connection that has not run `leave`; and there are
at most `LOCA_KAPASITE` seats, one for each identity. -/
theorem seats_follow_connections {tr : List (Event × Unit)} {s : Lounge} (r : Sys.Run lounge Lounge.Orderly tr s) :
    (∀ c ∈ s.conns, c.phase = .open → (∀ f ∈ c.queue, c.bids f = none) → ∃ x ∈ s.members, x.identity = c.identity) ∧
      (∀ x ∈ s.members, x.count = s.conns.countP fun c => c.identity = x.identity && c.seated && c.fate ≠ some .evicted) ∧
      (∀ x ∈ s.members, ∃ c ∈ s.conns, c.identity = x.identity ∧ c.seated = true) ∧
      (s.members.map Seat.identity).Nodup ∧ s.members.length ≤ locaKapasite := by
  have hs := run_seating r
  refine ⟨?_, ?_, ?_, hs.seats, run_kapasite r⟩
  · intro c hc hopen hfree
    refine hs.staying c hc (by simp [Conn.seated, hopen]) ?_
    simpa only [Conn.fate, hopen] using List.findSome?_eq_none_iff.mpr hfree
  · intro x hx
    rw [(hs.counted x hx).1]
    simp only [Lounge.holders, Conn.holds, Bool.and_assoc]
  · intro x hx
    have hpos := (hs.counted x hx).2
    rw [(hs.counted x hx).1] at hpos
    obtain ⟨c, hc, hh⟩ := List.countP_pos_iff.mp hpos
    simp only [Bool.and_eq_true, decide_eq_true_eq] at hh
    exact ⟨c, hc, hh.1, (Conn.holds_iff.mp hh.2).1⟩

instance (s : Lounge) (c : Conn) : Decidable (s.MayStop c) :=
  inferInstanceAs (Decidable (_ → ∀ x ∈ s.members, _))

instance (s : Lounge) (c : Conn) : Decidable (s.MayJoin c) :=
  decidable_of_iff (c.fate ≠ some .evicted ∧
      (((s.seat? c.identity).map fun x => additionalHumanReader x c) = some true ∨
        ∀ z ∈ s.conns, z.identity = c.identity → z.seated = true → z.fate ≠ some .leaving)) <| by
    rw [Option.map_eq_some_iff]
    rfl

instance (s : Lounge) : (e : Event) → Decidable (s.Orderly e)
  | .join _ _ => inferInstanceAs (Decidable (∀ c, _ = some c → _))
  | .recv _ => inferInstanceAs (Decidable (∀ c, _ = some c → _))
  | .close _ => inferInstanceAs (Decidable (∀ c, _ = some c → _))
  | .connect _ _ _ => inferInstanceAs (Decidable True)
  | .leave _ => inferInstanceAs (Decidable True)
  | .moderate _ => inferInstanceAs (Decidable True)
  | .closeConnections _ => inferInstanceAs (Decidable True)
  | .chatter => inferInstanceAs (Decidable True)

/-- Ada reads on two devices; Bob's runtime is started anew, and the old one steps aside. -/
def sampleEvening : List Event :=
  [.connect "mb:1" "ada" .user, .join 0 false, .connect "mb:1" "ada" .user, .join 1 false,
    .connect "mb:2" "bob" .agent, .join 2 false, .connect "mb:2" "bob" .agent, .join 3 false,
    .recv 2, .recv 2, .leave 2]

theorem seats_follow_connections_sample :
    ((lounge.exec sampleEvening [] ⟨[], [], 0⟩).2.members =
      [⟨"mb:1", "ada", .user, 2⟩, ⟨"mb:2", "bob", .agent, 1⟩]) ∧
    ∀ x ∈ (lounge.exec sampleEvening [] ⟨[], [], 0⟩).2.members,
      ∃ c ∈ (lounge.exec sampleEvening [] ⟨[], [], 0⟩).2.conns, c.identity = x.identity ∧ c.seated = true := by
  have hrun : Sys.Run lounge Lounge.Orderly (lounge.exec sampleEvening [] ⟨[], [], 0⟩).1
      (lounge.exec sampleEvening [] ⟨[], [], 0⟩).2 := .exec sampleEvening (by decide +kernel) (.nil rfl)
  exact ⟨by decide +kernel, (seats_follow_connections hrun).2.2.1⟩

/-- Bob's old socket closes before it has read that it was evicted. -/
def sampleHasty : List Event :=
  [.connect "mb:2" "bob" .agent, .join 0 false, .connect "mb:2" "bob" .agent, .join 1 false, .close 0, .leave 0]

/-- A third socket of Bob's has subscribed when the second joins, and joins after it. -/
def sampleCrossed : List Event :=
  [.connect "mb:2" "bob" .agent, .join 0 false, .connect "mb:2" "bob" .agent, .connect "mb:2" "bob" .agent,
    .join 1 false, .join 2 false, .recv 0, .recv 0, .leave 0, .recv 1, .recv 1, .recv 1, .recv 1, .leave 1,
    .recv 2, .leave 2]

/-- The seat is taken from under the new holder; and a seat is left that nobody has. -/
theorem seats_lost_and_haunted :
    (¬ ∀ (tr : List (Event × Unit)) (s : Lounge), Sys.Run lounge (fun _ _ => True) tr s →
      ∀ c ∈ s.conns, c.phase = .open → (∀ f ∈ c.queue, c.bids f = none) → ∃ x ∈ s.members, x.identity = c.identity) ∧
    ¬ ∀ (tr : List (Event × Unit)) (s : Lounge), Sys.Run lounge (fun _ _ => True) tr s →
      ∀ x ∈ s.members, ∃ c ∈ s.conns, c.identity = x.identity ∧ c.seated = true := by
  have hrun : ∀ es, Sys.Run lounge (fun _ _ => True) (lounge.exec es [] ⟨[], [], 0⟩).1 (lounge.exec es [] ⟨[], [], 0⟩).2 :=
    fun es => .exec es (Sys.Machine.admits_of_all (fun _ _ => trivial) es _) (.nil rfl)
  constructor
  · intro hall
    obtain ⟨x, hx, -⟩ := hall _ _ (hrun sampleHasty)
      ⟨1, "mb:2", "bob", .agent, .open, [.evicted "mb:2" 1, .other, .other]⟩ (by decide +kernel) rfl (by decide)
    have hempty : (lounge.exec sampleHasty [] ⟨[], [], 0⟩).2.members = [] := by decide +kernel
    rw [hempty] at hx
    cases hx
  · intro hall
    have hhaunted := hall _ _ (hrun sampleCrossed) ⟨"mb:2", "bob", .agent, 1⟩ (by decide +kernel)
    revert hhaunted
    decide +kernel

end Loca.Roster
