/-
# `Loca.Hub.Rotation` — the turn goes round

From the moment a room is set to round robin until its mode is set again, the only thing that
moves its turn is an accepted post by whoever holds it.  Posts are in flight in any number and
end in any order, the store fails where it likes, and the server may be restarted in between;
the ghost log has the posts that were newly accepted in the room.

`Rota` has the order of turns.  What is proved here is that the room is one: its turn stands
where the log of the takers puts it (`Turning.mode`), and nobody but an admin gets in out of
turn (`Turning.obeys`).  A restart reads the turn back from the room's row, which is right
because rooms agree with their rows in every state a run can reach.
-/
import Loca.Base.Rota
import Loca.Hub.Rate
import Loca.Hub.Reboot

namespace Loca

open Check

/-- The post that a step newly accepts in the room, if it does. -/
def Server.spoke (cfg : Config) (room : String) (s : Server) : HubInput → List PostRequest
  | .advance env k =>
      match s.posts[k]? with
      | some (.cited q attachments) =>
          if q.room = room ∧ acceptedNew s.world (postLocked cfg env q attachments s.world) = true
          then [q] else []
      | _ => []
  | _ => []

/-- The server, and the posts accepted in the room since its mode was set, oldest first. -/
structure Rotation where
  server : Server
  log : List PostRequest

def Rotation.step (cfg : Config) (room : String) (s : Rotation) (i : HubInput) : HubAnswer × Rotation :=
  let x := s.server.step cfg i
  (x.1, ⟨x.2, s.log ++ s.server.spoke cfg room i⟩)

/-- The mode of the room has just been set. -/
def RotationInit (cfg : Config) (room : String) (order : List String) (start : Nat) (s : Rotation) : Prop :=
  ∃ tr s₀ env clock turn, Sys.Run (hubMachine cfg) anyHubInput tr s₀ ∧
    s₀.world.isDeleted cfg room = false ∧
    (setMode cfg env room (.roundRobin order turn) clock s₀.world).1.toOption.isSome = true ∧
    start = (if turn < order.length then turn else 0) ∧
    s = ⟨(s₀.step cfg (.call env (.setMode room (.roundRobin order turn) clock))).2, []⟩

def rotationMachine (cfg : Config) (room : String) (order : List String) (start : Nat) :
    Sys.Machine Rotation HubInput HubAnswer where
  init := RotationInit cfg room order start
  step := Rotation.step cfg room

/-- A step of a post, or a restart. -/
def HubInput.isPosting : HubInput → Bool
  | .call _ _ => false
  | _ => true

/-- The posts that took a turn. -/
abbrev takers (order : List String) (start : Nat) (log : List PostRequest) : List PostRequest :=
  Rota.taken order (fun q : PostRequest => q.body.sender) start log

theorem takers_snoc (order : List String) (start : Nat) (log : List PostRequest) (q : PostRequest) :
    takers order start (log ++ [q]) =
      if order[Rota.turn order start (takers order start log).length]? = some q.body.sender
      then takers order start log ++ [q] else takers order start log :=
  Rota.taken_snoc log q

/-- A step accepts one post at most. -/
theorem spoke_cases (cfg : Config) (room : String) (s : Server) (i : HubInput) :
    s.spoke cfg room i = [] ∨ ∃ q, s.spoke cfg room i = [q] := by
  unfold Server.spoke
  split
  · split
    · split
      · exact .inr ⟨_, rfl⟩
      · exact .inl rfl
    · exact .inl rfl
  · exact .inl rfl

/-! ## What a post does to the mode -/

section Mode

variable {cfg : Config} {env : Env}

theorem mirror_mode (q : PostRequest) (db : Db) (d : PostDraft) (r : Room) :
    (d.mirror env q db r).mode = d.moved.getD r.mode := by
  obtain ⟨marks, attentions, hm⟩ := @mirror_eq env q db d r
  have hkept := @heard_kept env q d r
  simp only [Room.kept, Prod.mk.injEq] at hkept
  rw [hm]
  exact hkept.2.2.2.2.2.2.2.1

/-- A post that is not newly accepted leaves the mode; one that is was admitted, and moves the
turn when the sender holds it. -/
theorem postLocked_mode (hp : cfg.persistent = true) (q : PostRequest) (attachments : List Attachment)
    (w : World) :
    ∃ r, (postLocked cfg env q attachments w).2.roomOr cfg = Function.update (w.roomOr cfg) q.room r ∧
      (∀ n, isSealed n (postLocked cfg env q attachments w).2.db = isSealed n w.db) ∧
      ((acceptedNew w (postLocked cfg env q attachments w) = false ∧ r.mode = (w.roomOr cfg q.room).mode) ∨
        (acceptedNew w (postLocked cfg env q attachments w) = true ∧
          q.admitted (w.roomOr cfg q.room) = .ok () ∧
          r.mode = (advanceTurn q.body.sender (w.roomOr cfg q.room).mode).getD
            (w.roomOr cfg q.room).mode)) := by
  have hexp : (q.expireStamps env.now (w.roomOr cfg q.room)).mode = (w.roomOr cfg q.room).mode := by
    obtain ⟨times, h⟩ := expireStamps_eq q env.now (w.roomOr cfg q.room)
    rw [h]
  rcases postLocked_cases cfg env q attachments w with ⟨m, -, hx⟩ | ⟨e, w', hx, href⟩ |
    ⟨r, d, db, ha, hx⟩
  · rw [hx]
    exact ⟨_, World.roomOr_setRoom .., fun _ => rfl, .inl ⟨by simp [acceptedNew, World.setRoom], rfl⟩⟩
  · rw [hx]
    obtain ⟨r, hr, hroom⟩ := href.room
    refine ⟨r, ?_, fun n => by rw [href.db], .inl ⟨by simp [acceptedNew, Except.toOption], ?_⟩⟩
    · funext n
      by_cases hn : n = q.room
      · subst hn
        rw [Function.update_self, World.roomOr_of_some hroom]
      · rw [Function.update_of_ne hn]
        simp only [World.roomOr, href.others n hn]
    · rcases hr with rfl | rfl
      · rfl
      · exact hexp
  · rw [hx]
    obtain ⟨author, hd⟩ := ha.draft
    refine ⟨_, (count_accept q r db d w).rooms, fun n => ?_, .inr ⟨?_, ha.admitted, ?_⟩⟩
    · rw [(@count_accept cfg env q r db d w).db]
      rcases commit_ok.mp ha.stored with ⟨-, -, hdb⟩ | ⟨hn, -⟩
      · exact persist_seals (by rw [hd]; rfl) hdb n
      · rw [hp] at hn
        cases hn
    · simp [acceptedNew, accept_nextId, Except.toOption]
    · rw [mirror_mode, hd, ha.room, hexp]
      show (advanceTurn q.body.sender _).getD _ = _
      rw [hexp]

/-- In round robin, who is not an admin holds the turn when the post is admitted. -/
theorem admitted_turn {q : PostRequest} {r : Room} {order : List String} {turn : Nat}
    (h : q.admitted r = .ok ()) (hm : r.mode = .roundRobin order turn) (ha : q.isAdmin = false) :
    order[turn]? = some q.body.sender := by
  simp only [PostRequest.admitted, bind_ok, require_ok, exists_const, ha, Bool.false_eq_true, if_false,
    hm] at h
  exact h.2.2.2

/-- An accepted post moves the turn exactly when its sender holds it. -/
theorem advanceTurn_getD (sender : String) (order : List String) (turn : Nat) :
    (advanceTurn sender (.roundRobin order turn)).getD (.roundRobin order turn) =
      .roundRobin order (if order[turn]? = some sender then (turn + 1) % order.length else turn) := by
  dsimp only [advanceTurn]
  by_cases h : order[turn]? = some sender
  · rw [if_pos h, if_pos h, Option.getD_some]
  · rw [if_neg h, if_neg h, Option.getD_none]

end Mode

/-! ## Runs -/

section Runs

variable {cfg : Config} {room : String} {order : List String} {start : Nat}

/-- The room is in round robin, its turn where the takers have brought it. -/
structure Turning (cfg : Config) (room : String) (order : List String) (start : Nat) (s : Rotation) :
    Prop where
  reached : ∃ tr, Sys.Run (hubMachine cfg) anyHubInput tr s.server
  unsealed : isSealed room s.server.world.db = false
  mode : (s.server.world.roomOr cfg room).mode =
    .roundRobin order (Rota.turn order start (takers order start s.log).length)
  obeys : Rota.Obeys order (fun q : PostRequest => q.body.sender) start PostRequest.isAdmin s.log

/-- The mode that is set is the one asked for, with a turn that is in the list. -/
theorem setMode_ok {env : Env} {mode : ChatMode} {clock : Nat} {w : World} (hp : cfg.persistent = true)
    (hdel : w.isDeleted cfg room = false)
    (h : (setMode cfg env room mode clock w).1.toOption.isSome = true) :
    ((setMode cfg env room mode clock w).2.roomOr cfg room).mode = mode.normal ∧
      isSealed room (setMode cfg env room mode clock w).2.db = false := by
  unfold setMode at h ⊢
  rw [hdel] at h ⊢
  simp only [Bool.false_eq_true, if_false] at h ⊢
  split at h
  · cases h
  · next w' hs =>
    obtain ⟨db, hdb, rfl⟩ := World.store_ok hp hs
    obtain ⟨hsealed, rfl⟩ := saveRoom_ok hdb
    refine ⟨?_, (isSealed_roomRow room room _ _ _).trans hsealed⟩
    rw [World.roomOr_send, World.roomOr_setRoom, Function.update_self]

theorem Turning.init (hp : cfg.persistent = true) {s : Rotation} (h : RotationInit cfg room order start s) :
    Turning cfg room order start s := by
  obtain ⟨tr, s₀, env, clock, turn, hrun, hdel, hok, rfl, rfl⟩ := h
  obtain ⟨hmode, hsealed⟩ := setMode_ok hp hdel hok
  refine ⟨⟨_, hrun.snoc _ trivial⟩, hsealed, hmode.trans ?_, .nil⟩
  show ChatMode.roundRobin order _ = .roundRobin order ((_ + 0) % order.length)
  congr 1
  split
  · next h => exact (Nat.mod_eq_of_lt h).symm
  · exact (Nat.zero_mod _).symm

/-- The row of a room in round robin has the mode that the room has. -/
theorem Turning.stored (hp : cfg.persistent = true) {s : Rotation} (h : Turning cfg room order start s) :
    ∃ settings, loadState room s.server.world.db =
      ((s.server.world.roomOr cfg room).mode, settings) ∧ ∃ row ∈ s.server.world.db.rooms, row.room = room := by
  obtain ⟨tr, hrun⟩ := h.reached
  have hsync := (run_agreed hp hrun).2 room h.unsealed
  rcases loadState_of_synced hsync with ⟨hl, hrow⟩ | ⟨-, hnone⟩
  · exact ⟨_, hl, hrow⟩
  · have hfree := (hsync.bare hnone).1
    rw [h.mode] at hfree
    cases hfree

/-- A step that leaves the room's mode and its seal, and accepts nothing in it. -/
theorem Turning.quiet {s s' : Rotation} (h : Turning cfg room order start s)
    (hreach : ∃ tr, Sys.Run (hubMachine cfg) anyHubInput tr s'.server)
    (hmode : (s'.server.world.roomOr cfg room).mode = (s.server.world.roomOr cfg room).mode)
    (hseal : isSealed room s'.server.world.db = isSealed room s.server.world.db)
    (hlog : s'.log = s.log) : Turning cfg room order start s' :=
  ⟨hreach, hseal.trans h.unsealed, hmode.trans (hlog ▸ h.mode), hlog ▸ h.obeys⟩

/-- The step of an accepted post. -/
theorem Turning.accept {s s' : Rotation} {q : PostRequest} (h : Turning cfg room order start s)
    (hreach : ∃ tr, Sys.Run (hubMachine cfg) anyHubInput tr s'.server)
    (hadm : q.admitted (s.server.world.roomOr cfg room) = .ok ())
    (hmode : (s'.server.world.roomOr cfg room).mode =
      (advanceTurn q.body.sender (s.server.world.roomOr cfg room).mode).getD
        (s.server.world.roomOr cfg room).mode)
    (hseal : isSealed room s'.server.world.db = isSealed room s.server.world.db)
    (hlog : s'.log = s.log ++ [q]) : Turning cfg room order start s' := by
  refine ⟨hreach, hseal.trans h.unsealed, ?_, ?_⟩
  · rw [hmode, h.mode, advanceTurn_getD, hlog, takers_snoc]
    split
    · rw [List.length_append, List.length_singleton, Rota.turn_succ]
    · rfl
  · rw [hlog]
    exact h.obeys.snoc fun ha => admitted_turn hadm h.mode ha

theorem Turning.step (hp : cfg.persistent = true) {s : Rotation} (i : HubInput) (hi : i.isPosting = true)
    (h : Turning cfg room order start s) : Turning cfg room order start (s.step cfg room i).2 := by
  have hreach : ∃ tr, Sys.Run (hubMachine cfg) anyHubInput tr (s.step cfg room i).2.server := by
    obtain ⟨tr, hrun⟩ := h.reached
    exact ⟨_, hrun.snoc i trivial⟩
  have hnone : s.server.spoke cfg room i = [] → (s.step cfg room i).2.log = s.log := by
    intro hs
    show s.log ++ _ = s.log
    rw [hs, List.append_nil]
  cases i with
  | call env c => cases hi
  | post env q =>
      have hw : (s.server.step cfg (.post env q)).2.world = s.server.world := by
        simp only [Server.step]
        split <;> rfl
      refine h.quiet hreach ?_ ?_ (hnone rfl)
      · show ((s.server.step cfg (.post env q)).2.world.roomOr cfg room).mode = _
        rw [hw]
      · show isSealed room (s.server.step cfg (.post env q)).2.world.db = _
        rw [hw]
  | restart env clock =>
      obtain ⟨settings, hload, hrow⟩ := h.stored hp
      refine h.quiet hreach ?_ ((build_content cfg env clock s.server.world.db).2 room) (hnone rfl)
      refine (build_state h.unsealed hload fun hno => ?_).1
      obtain ⟨row, hmem, hname⟩ := hrow
      exact absurd hname (hno row hmem)
  | advance env k =>
      cases hpost : s.server.posts[k]? with
      | none =>
          have hw : (s.server.step cfg (.advance env k)).2.world = s.server.world := by
            simp only [Server.step, hpost]
          refine h.quiet hreach ?_ ?_ (hnone (by simp only [Server.spoke, hpost]))
          · show ((s.server.step cfg (.advance env k)).2.world.roomOr cfg room).mode = _
            rw [hw]
          · show isSealed room (s.server.step cfg (.advance env k)).2.world.db = _
            rw [hw]
      | some p =>
      cases p with
      | lookedUp q =>
          have hw : (s.server.step cfg (.advance env k)).2.world = s.server.world := by
            simp only [Server.step, hpost, PostPhase.advance]
            split <;> rfl
          refine h.quiet hreach ?_ ?_ (hnone (by simp only [Server.spoke, hpost]))
          · show ((s.server.step cfg (.advance env k)).2.world.roomOr cfg room).mode = _
            rw [hw]
          · show isSealed room (s.server.step cfg (.advance env k)).2.world.db = _
            rw [hw]
      | cited q attachments =>
          have hw : (s.server.step cfg (.advance env k)).2.world =
              (postLocked cfg env q attachments s.server.world).2 := by
            simp only [Server.step, hpost, PostPhase.advance, answered]
          obtain ⟨r, hrooms, hseals, hcase⟩ :=
            @postLocked_mode _ env hp q attachments s.server.world
          have hseal : isSealed room (s.step cfg room (.advance env k)).2.server.world.db =
              isSealed room s.server.world.db := by
            show isSealed room (s.server.step cfg (.advance env k)).2.world.db = _
            rw [hw, hseals]
          by_cases hroom : q.room = room
          · subst hroom
            have hmode : ((s.step cfg q.room (.advance env k)).2.server.world.roomOr cfg q.room).mode =
                r.mode := by
              show ((s.server.step cfg (.advance env k)).2.world.roomOr cfg q.room).mode = _
              rw [hw, hrooms, Function.update_self]
            rcases hcase with ⟨hnew, hkeep⟩ | ⟨hnew, hadm, hmove⟩
            · exact h.quiet hreach (hmode.trans hkeep) hseal
                (hnone (by simp [Server.spoke, hpost, hnew]))
            · refine h.accept hreach hadm (hmode.trans hmove) hseal ?_
              show s.log ++ s.server.spoke cfg q.room (.advance env k) = _
              simp only [Server.spoke, hpost, hnew, and_self, if_true]
          · refine h.quiet hreach ?_ hseal (hnone (by simp [Server.spoke, hpost, hroom]))
            show ((s.server.step cfg (.advance env k)).2.world.roomOr cfg room).mode = _
            rw [hw, hrooms, Function.update_of_ne (Ne.symm hroom)]

/-- Posts in flight and restarts, from the moment the mode was set. -/
abbrev posting (_ : Rotation) (i : HubInput) : Prop := i.isPosting = true

theorem Turning.of_run (hp : cfg.persistent = true) {tr : List (HubInput × HubAnswer)} {s : Rotation}
    (hrun : Sys.Run (rotationMachine cfg room order start) posting tr s) :
    Turning cfg room order start s :=
  hrun.invariant (fun _ h => .init hp h) fun _ i h hi => h.step hp i hi

/-- In every run of posts and restarts after the mode was set: the turn is in the list and as far
as the takers have brought it, in memory and on disk; the takers are the names of the order, one
after the other; and the accepted posts of non-admins are exactly those among the takers. -/
theorem round_robin_goes_round (hp : cfg.persistent = true) {tr : List (HubInput × HubAnswer)}
    {s : Rotation} (hrun : Sys.Run (rotationMachine cfg room order start) posting tr s) :
    ((s.server.world.roomOr cfg room).mode =
        .roundRobin order (Rota.turn order start (takers order start s.log).length) ∧
      (order ≠ [] → Rota.turn order start (takers order start s.log).length < order.length)) ∧
    (loadState room s.server.world.db).1 = (s.server.world.roomOr cfg room).mode ∧
    (∀ i q, (takers order start s.log)[i]? = some q →
      order[(start + i) % order.length]? = some q.body.sender) ∧
    s.log.filter (fun q => !q.isAdmin) = (takers order start s.log).filter (fun q => !q.isAdmin) ∧
    (order = [] → s.log.filter (fun q => !q.isAdmin) = []) ∧
    ∀ i, i.isPosting = true → ∀ turn, (s.server.world.roomOr cfg room).mode = .roundRobin order turn →
      ((s.step cfg room i).2.server.world.roomOr cfg room).mode = .roundRobin order
        (if (s.server.spoke cfg room i).any (fun q => order[turn]? = some q.body.sender)
          then (turn + 1) % order.length else turn) := by
  have h := Turning.of_run hp hrun
  obtain ⟨settings, hload, -⟩ := h.stored hp
  refine ⟨⟨h.mode, fun hne => Rota.turn_lt hne _ _⟩, by rw [hload],
    fun i q hq => @Rota.name_taken _ _ _ order (fun q : PostRequest => q.body.sender) start s.log i q hq,
    h.obeys.filter_eq, ?_, ?_⟩
  · rintro rfl
    rw [h.obeys.filter_eq, Rota.taken_nil, List.filter_nil]
  · intro i hi turn hturn
    have hnext := (h.step hp i hi).mode
    have hlog : (s.step cfg room i).2.log = s.log ++ s.server.spoke cfg room i := rfl
    obtain rfl : Rota.turn order start (takers order start s.log).length = turn := by
      have hsame := h.mode.symm.trans hturn
      injection hsame
    rw [hnext, hlog]
    rcases spoke_cases cfg room s.server i with hs | ⟨q, hs⟩
    · rw [hs, List.append_nil]
      rfl
    · rw [hs, takers_snoc]
      simp only [List.any_cons, List.any_nil, Bool.or_false, decide_eq_true_eq]
      split
      · rw [List.length_append, List.length_singleton, Rota.turn_succ]
      · rfl

end Runs

/-! ## Ann, Bob and Cem -/

/-- All three steps of one post. -/
def turnPost (now : Nat) (sender : String) (isAdmin : Bool) : List HubInput :=
  let env := sampleEnv now fun _ => false
  [.post env ⟨"den", ⟨.say, sender, .user, none, "done", none, none, []⟩, isAdmin, "p"⟩,
    .advance env 0, .advance env 0]

/-- Ann speaks, Dan may not, an admin speaks as Bob, the server restarts, and Cem speaks. -/
def turnInputs : List HubInput :=
  turnPost 2000 "ann" false ++ turnPost 3000 "dan" false ++ turnPost 4000 "bob" true ++
    [.restart (sampleEnv 5000 fun _ => false) 5000] ++ turnPost 6000 "cem" false

def turnStart : Rotation :=
  ⟨(sampleServer.step sampleConfig (.call (sampleEnv 1000 fun _ => false)
    (.setMode "den" (.roundRobin ["ann", "bob", "cem"] 9) 1000))).2, []⟩

theorem turnStart_init : RotationInit sampleConfig "den" ["ann", "bob", "cem"] 0 turnStart :=
  ⟨_, _, _, _, 9, sampleServer_run [], rfl, rfl, rfl, rfl⟩

def turnEnd : Rotation :=
  ((rotationMachine sampleConfig "den" ["ann", "bob", "cem"] 0).exec turnInputs [] turnStart).2

theorem round_robin_goes_round_sample :
    (turnEnd.log.map fun q => (q.body.sender, q.isAdmin)) = [("ann", false), ("bob", true), ("cem", false)] ∧
      (loadState "den" turnEnd.server.world.db).1 = (turnEnd.server.world.roomOr sampleConfig "den").mode :=
  ⟨by decide +kernel, (round_robin_goes_round rfl
    (.exec turnInputs (by decide) (.nil turnStart_init))).2.1⟩

end Loca
