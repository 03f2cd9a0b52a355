/-
# `Loca.Socket.Filter` — what a mentions socket lets through

`msg_addresses` of `main.rs` and the two tests the mentions filter of `ws_session` makes: one
on a message frame, one on a care frame.  A socket is known by the room it listens to, the
display name it joined with and the principal it authenticated as, if any.
-/
import Loca.Hub.Post

namespace Loca

structure Socket where
  room : String
  name : String
  principalId : Option String
  deriving DecidableEq, Repr

/-- The words of a text, lower case, cut at every character no mention has. -/
def mentionWords (cfg : Config) (text : String) : List String :=
  ((cfg.lowercase text).toList.splitOnP fun c => !mentionChar cfg c).map String.ofList

/-- `@name` stands in the text as a word of its own. -/
def mentionsName (cfg : Config) (text name : String) : Bool :=
  (mentionWords cfg text).contains ("@" ++ cfg.lowercase name)

def mentionsAll (cfg : Config) (text : String) : Bool :=
  (mentionWords cfg text).contains "@all"

/-- Does a message address a participant?  An announcement to all calls nobody. -/
def msgAddresses (cfg : Config) (m : Message) (name : String) (acceptsAll : Bool) : Bool :=
  let allIsACall := acceptsAll && m.kind ≠ .announce
  m.target = some name || m.replyToSender = some name ||
    (allIsACall && m.target = some "all") ||
    mentionsName cfg m.text name || (allIsACall && mentionsAll cfg m.text)

namespace Socket

def isCaretaker (cfg : Config) (k : Socket) : Bool := cfg.caretakers.contains k.name

/-- A caretaker hears `@all` only at its private home table. -/
def acceptsAll (cfg : Config) (k : Socket) : Bool := !k.isCaretaker cfg || k.room = cfg.homeRoom

end Socket

def World.isLive (room : String) (w : World) : Bool :=
  ((w.room? room).map fun r => r.settings.live).getD false

def World.isLead (room name : String) (w : World) : Bool :=
  ((w.room? room).bind fun r => r.settings.lead) = some name

namespace Socket

/-- The mentions filter on a message frame of the socket's room. -/
def hears (cfg : Config) (w : World) (k : Socket) (m : Message) : Bool :=
  m.sender = k.name || msgAddresses cfg m k.name (k.acceptsAll cfg) || w.isLive k.room ||
    w.isLead k.room k.name

/-- The two tests on a care frame: it is at home here, and it is for this participant. -/
def caresFor (k : Socket) (s : CareSignal) : Bool :=
  s.room = k.room &&
    (s.sourceRoom = "" || s.sourceRoom = k.room || s.owner = some k.name) &&
    match s.ownerPrincipalId with
    | some pid => k.principalId = some pid
    | none => s.owner = some k.name ||
      match s.audience with
      | .group names => names.contains k.name
      | _ => false

/-- A stranger to an ordinary conversation hears what addresses it, and nothing else. -/
theorem hears_of_stranger {cfg : Config} {w : World} {k : Socket} {m : Message}
    (hs : m.sender ≠ k.name) (hl : w.isLive k.room = false) (hd : w.isLead k.room k.name = false) :
    k.hears cfg w m = msgAddresses cfg m k.name (k.acceptsAll cfg) := by
  simp only [hears, decide_eq_false hs, hl, hd, Bool.false_or, Bool.or_false]

end Socket

end Loca
