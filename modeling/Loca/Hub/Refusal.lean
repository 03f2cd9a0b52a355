/-
# `Loca.Hub.Refusal` — a refused post is invisible

Whatever stops a post, a gate or a failing call to the store, nobody can tell afterwards
that it was tried: memory, database and channels are as before.  Two things may differ.
The global counters have moved on, and expired stamps are gone from the sender's window,
which no later post can observe either.
-/
import Loca.Hub.Post

namespace Loca

/-- The room is the same but for one sender's window, which has at most lost expired stamps. -/
structure SameButExpired (sender : String) (now : Nat) (r r' : Room) : Prop where
  rest : r' = { r with postTimes := r'.postTimes }
  others : ∀ s, s ≠ sender → r'.postTimes.get s = r.postTimes.get s
  window : r'.stampsOf sender = r.stampsOf sender ∨
    r'.stampsOf sender = liveStamps r.rateWindowMs now (r.stampsOf sender)

/-- The server after a refused post to an existing room. -/
structure Invisible (env : Env) (q : PostRequest) (r : Room) (w w' : World) : Prop where
  room : ∃ r', w'.room? q.room = some r' ∧ SameButExpired q.body.sender env.now r r'
  others : ∀ name, name ≠ q.room → w'.room? name = w.room? name
  /-- Beside the rooms, only the two counters may differ, and they only grow. -/
  hub : w'.hub = { w.hub with
    rooms := w'.hub.rooms, nextId := w'.hub.nextId,
    conditionGeneration := w'.hub.conditionGeneration }
  nextId : w.hub.nextId ≤ w'.hub.nextId
  generation : w.hub.conditionGeneration ≤ w'.hub.conditionGeneration
  db : w'.db = w.db
  sent : w'.sent = w.sent

theorem sameButExpired_refl (sender : String) (now : Nat) (r : Room) :
    SameButExpired sender now r r :=
  ⟨rfl, fun _ _ => rfl, .inl rfl⟩

theorem sameButExpired_expireStamps (q : PostRequest) (now : Nat) (r : Room) :
    SameButExpired q.body.sender now r (q.expireStamps now r) := by
  unfold PostRequest.expireStamps
  split
  · refine ⟨rfl, fun s hs => Assoc.get_put_ne hs _ _, .inr ?_⟩
    simp [Room.stampsOf]
  · exact sameButExpired_refl _ _ _

/-- The stamps that are dropped are all outside the window, so the window that the next
post sees is the one it would have seen. -/
theorem liveStamps_idem {windowMs now later : Nat} (h : now ≤ later) (stamps : List Nat) :
    liveStamps windowMs later (liveStamps windowMs now stamps) = liveStamps windowMs later stamps := by
  unfold liveStamps
  induction stamps with
  | nil => rfl
  | cons t stamps ih =>
      by_cases ht : t ≤ now - windowMs
      · have hl : t ≤ later - windowMs := by omega
        simp only [List.dropWhile_cons, ht, hl, decide_true, if_true]
        exact ih
      · simp [ht]

theorem refusedTo_invisible {cfg : Config} {env : Env} {q : PostRequest} {w w' : World} {r : Room}
    (hr : w.room? q.room = some r) (h : RefusedTo cfg env q w w') : Invisible env q r w w' := by
  have hor : w.roomOr cfg q.room = r := World.roomOr_of_some hr
  refine ⟨?_, h.others, h.hub, h.nextId, h.generation, h.db, h.sent⟩
  obtain ⟨r', hr', hroom⟩ := h.room
  refine ⟨r', hroom, ?_⟩
  rw [hor] at hr'
  rcases hr' with rfl | rfl
  · exact sameButExpired_refl _ _ _
  · exact sameButExpired_expireStamps q env.now r

/-- Every error of a post, in any state and with any calls to the store failing, leaves an
existing room's server as it was. -/
theorem failed_post_invisible (cfg : Config) (env : Env) (q : PostRequest) (w : World) (r : Room)
    (hr : w.room? q.room = some r) (e : PostReject) (he : (post cfg env q w).1 = .error e) :
    Invisible env q r w (post cfg env q w).2 := by
  have hsame : Invisible env q r w w :=
    ⟨⟨r, hr, sameButExpired_refl _ _ _⟩, fun _ _ => rfl, rfl, le_refl _, le_refl _, rfl, rfl⟩
  unfold post at he ⊢
  split
  · exact hsame
  · exact hsame
  · next attachments hb =>
    rw [hb] at he
    rcases postLocked_cases cfg env q attachments w with ⟨m, -, hp⟩ | ⟨e', w', hp, href⟩ |
      ⟨r', d, db, -, hp⟩
    · simp [hp] at he
    · rw [hp]
      exact refusedTo_invisible hr href
    · simp [hp] at he

/-- A Building with one database and two caretakers. -/
def sampleConfig : Config where
  homeRoom := "iye"
  reservedRoom := "iye"
  caretakers := ["iye", "loca-care"]
  defaultSettings := RoomSettings.default
  adminToken := "root"
  masterName := "Master"
  persistent := true
  digests := ⟨id, fun kind value => kind ++ value⟩
  lowercase := fun s => String.ofList (s.toList.map Char.toLower)
  alphanumeric := Char.isAlphanum

def sampleEnv (now : Nat) (fails : StoreCall → Bool) : Env :=
  ⟨now, fun room use => room ++ "/" ++ use ++ "/" ++ toString now, fun _ => true, fails, []⟩

/-- `ann` holds the turn, `bob` waits for her, and the room has been silent. -/
def sampleRoom : Room :=
  { Room.fresh (.roundRobin ["ann", "bob"] 0) RoomSettings.default 1 with
    waits := (∅ : Assoc String WaitState).put "bob" ⟨"den", "bob", "ann", "review", 3, none, 0⟩
    careMarks := (∅ : Assoc String CareMark).put "silence" ⟨4, 1⟩
    postTimes := (∅ : Assoc String (List Nat)).put "ann" [1, 39000] }

def sampleWorld : World :=
  ⟨⟨(∅ : Assoc String Room).put "den" sampleRoom, [], 1, 5, ∅, ∅, ∅⟩, {}, []⟩

def samplePost : PostRequest :=
  ⟨"den", ⟨.say, "ann", .user, some "bob", "done", none, some "op-1", []⟩, false, "p-ann"⟩

/-- The write of a post that moves the turn and wakes a waiter fails. -/
theorem failed_post_sample :
    (post sampleConfig (sampleEnv 40000 fun c => c = .write) samplePost sampleWorld).1 =
        .error .storage ∧
      Invisible (sampleEnv 40000 fun c => c = .write) samplePost sampleRoom sampleWorld
        (post sampleConfig (sampleEnv 40000 fun c => c = .write) samplePost sampleWorld).2 :=
  ⟨rfl, failed_post_invisible _ _ _ _ _ rfl .storage rfl⟩

end Loca
