/-
# `Loca.Hub.Rate` — the rate limit is a sliding window

One sender in one room, over any sequence of posts by anyone.  The room keeps the stamps of the
sender's accepted posts and drops from the front, at each further post, those that are no later
than the clock less the window.  The ghost log has every accepted post of the sender; a post is
new when the server took an id for it, so a replayed answer is not in the log.

Expired stamps are dropped by comparison with a saturated difference: while the clock reads
less than the window the cutoff is 0, and a stamp of 0 is dropped though its window is not over.
`Dated` says that this does not happen.  Then the stamps, once expired, are exactly what still
counts of the log, and the three laws are those of `Pace`.
-/
import Loca.Base.Run
import Loca.Base.Window
import Loca.Hub.Effect
import Loca.Hub.Refusal
import Loca.Hub.Tail

namespace Loca

open Check

/-- A post that the limit is about. -/
def PostRequest.limited (room sender : String) (q : PostRequest) : Prop :=
  q.room = room ∧ q.body.sender = sender ∧ q.isAdmin = false

instance (room sender : String) (q : PostRequest) : Decidable (q.limited room sender) :=
  inferInstanceAs (Decidable (_ ∧ _))

/-- The answer is a message, and the server took an id for it. -/
def acceptedNew (w : World) (x : Except PostReject Message × World) : Bool :=
  x.1.toOption.isSome && decide (w.hub.nextId < x.2.hub.nextId)

/-- The server, the clock at the last post, and when the sender's new posts were accepted. -/
structure Pacing where
  world : World
  clock : Nat
  log : List Nat

def Pacing.step (cfg : Config) (room sender : String) (s : Pacing) (i : Env × PostRequest) :
    Except PostReject Message × Pacing :=
  let x := post cfg i.1 i.2 s.world
  (x.1, ⟨x.2, i.1.now,
    if i.2.limited room sender ∧ acceptedNew s.world x = true then s.log ++ [i.1.now] else s.log⟩)

/-- The room's limit and window, and no stamps yet. -/
structure PacingInit (cfg : Config) (room sender : String) (limit window : Nat) (s : Pacing) : Prop where
  limit : (s.world.roomOr cfg room).settings.rateLimit = limit
  window : (s.world.roomOr cfg room).rateWindowMs = window
  stamps : (s.world.roomOr cfg room).stampsOf sender = []
  log : s.log = []

def paceMachine (cfg : Config) (room sender : String) (limit window : Nat) :
    Sys.Machine Pacing (Env × PostRequest) (Except PostReject Message) where
  init := PacingInit cfg room sender limit window
  step := Pacing.step cfg room sender

/-- The clock does not go back. -/
def Pacing.onward (s : Pacing) (i : Env × PostRequest) : Prop := s.clock ≤ i.1.now

/-- The cutoff of the sender's post is not a saturated one that meets a stamp of 0. -/
def Pacing.Dated (cfg : Config) (room sender : String) (window : Nat) (s : Pacing)
    (i : Env × PostRequest) : Prop :=
  i.2.limited room sender →
    window ≤ i.1.now ∨ 0 ∉ (s.world.roomOr cfg room).stampsOf sender

/-! ## What one post does to the stamps -/

section Stamps

variable {cfg : Config} {env : Env} {q : PostRequest}

theorem settings_expireStamps (q : PostRequest) (now : Nat) (r : Room) :
    (q.expireStamps now r).settings = r.settings := by
  obtain ⟨times, h⟩ := expireStamps_eq q now r
  rw [h]

/-- What the expiry of another post leaves of the stamps. -/
theorem stampsOf_expireStamps (q : PostRequest) (now : Nat) (r : Room) (sender : String) :
    (q.expireStamps now r).stampsOf sender =
      if q.recordsRate r = true ∧ sender = q.body.sender
      then liveStamps r.rateWindowMs now (r.stampsOf sender) else r.stampsOf sender := by
  unfold PostRequest.expireStamps
  by_cases hr : q.recordsRate r = true
  · by_cases hs : sender = q.body.sender
    · subst hs
      simp [hr, Room.stampsOf]
    · simp [hr, hs, Room.stampsOf, Assoc.get_put_ne hs]
  · simp [hr]

theorem heard_stamps (q : PostRequest) (d : PostDraft) (r : Room) :
    (d.heard env q r).settings = r.settings ∧
      (d.heard env q r).postTimes = (q.stampRate env.now r).postTimes := by
  obtain ⟨times, ht⟩ := stampRate_eq q env.now r
  obtain ⟨ops, ord, ho⟩ := rememberOperation_eq q.operation d.msg (q.stampRate env.now r)
  unfold PostDraft.heard Room.appendHistory
  rw [ho, ht]
  exact ⟨rfl, rfl⟩

/-- The room of an accepted post keeps its settings and gets the post's stamp. -/
theorem mirror_stamps (q : PostRequest) (db : Db) (d : PostDraft) (r : Room) (sender : String) :
    (d.mirror env q db r).settings = r.settings ∧
      (d.mirror env q db r).stampsOf sender =
        if q.recordsRate r = true ∧ sender = q.body.sender
        then r.stampsOf sender ++ [env.now] else r.stampsOf sender := by
  obtain ⟨marks, attentions, hm⟩ := @mirror_eq env q db d r
  obtain ⟨hset, htimes⟩ := @heard_stamps env q d r
  have hmirror : (d.mirror env q db r).stampsOf sender = (q.stampRate env.now r).stampsOf sender := by
    rw [hm]
    unfold Room.stampsOf
    rw [← htimes]
  refine ⟨by rw [hm]; exact hset, hmirror.trans ?_⟩
  unfold PostRequest.stampRate
  by_cases hr : q.recordsRate r = true
  · by_cases hs : sender = q.body.sender
    · subst hs
      simp [hr, Room.stampsOf]
    · simp [hr, hs, Room.stampsOf, Assoc.get_put_ne hs]
  · simp [hr]

/-- The gate that refuses for the rate says when the oldest stamp runs out. -/
theorem withinRate_cases (q : PostRequest) (now : Nat) (r : Room) :
    (q.withinRate now r = .ok () ∧
      (q.recordsRate r = true → (r.stampsOf q.body.sender).length < r.settings.rateLimit)) ∨
    (q.recordsRate r = true ∧ r.settings.rateLimit ≤ (r.stampsOf q.body.sender).length ∧
      ∃ k, q.withinRate now r = .error (.rateLimited k) ∧
        ∀ t, (r.stampsOf q.body.sender).head? = some t → k = (t + r.rateWindowMs - now + 999) / 1000) := by
  unfold PostRequest.withinRate
  dsimp only
  by_cases h : q.recordsRate r = true → (r.stampsOf q.body.sender).length < r.settings.rateLimit
  · exact .inl ⟨require_ok.mpr h, h⟩
  · obtain ⟨hr, hl⟩ := Classical.not_imp.mp h
    refine .inr ⟨hr, Nat.le_of_not_lt hl, _, if_neg h, fun t ht => ?_⟩
    rw [ht]

/-! ## The other refusals -/

/-- The refusal is not for the rate. -/
def PostReject.elsewhere (e : PostReject) : Prop := ∀ k, e ≠ .rateLimited k

theorem admitted_refuses (q : PostRequest) (r : Room) :
    Refuses PostReject.elsewhere (q.admitted r) := by
  unfold PostRequest.admitted
  refine .bind (.require fun _ _ he => by cases he) fun _ _ => ?_
  split
  · exact .pure ()
  · refine .bind (.require fun _ _ he => by cases he) fun _ _ => .bind (.require fun _ _ he => by cases he) fun _ _ => ?_
    split
    · exact .pure ()
    · exact .error fun _ he => by cases he
    · exact .require fun _ _ he => by cases he
    · exact .require fun _ _ he => by cases he

theorem replyAuthor_refuses (q : PostRequest) (r : Room) (db : Db) :
    Refuses PostReject.elsewhere (q.replyAuthor cfg env r db) := by
  unfold PostRequest.replyAuthor
  split
  · exact .pure none
  · dsimp only
    split
    · exact .pure _
    · exact .bind (.require fun _ _ => nofun) fun _ _ => .pure _

theorem failure_elsewhere (d : PostDraft) (db : Db) : (d.failure env q db).elsewhere := by
  unfold PostDraft.failure
  split
  · exact fun _ => nofun
  · exact fun _ => nofun

theorem beginPost_refuses (q : PostRequest) (w : World) :
    Refuses PostReject.elsewhere (beginPost cfg env q w) := by
  have hlook : Refuses PostReject.elsewhere (lookUp cfg env q w) :=
    .bind (.require fun _ _ => nofun) fun _ _ => .bind (.require fun _ _ => nofun) fun _ _ => .pure _
  refine .bind hlook fun m _ => ?_
  split
  · exact .pure _
  · refine .bind ?_ fun _ _ => .pure _
    refine .bind (.require fun _ _ => nofun) fun _ _ => .foldlM (fun resolved id => ?_) _ _
    split
    · exact .pure _
    · exact .bind (.found fun _ => nofun) fun _ _ => .pure _

/-! ## One post -/

/-- What a post does to the stamps of its room; the flag says whether it was newly accepted. -/
inductive PostPace (now : Nat) (q : PostRequest) (r : Room) :
    Bool → Except PostReject Message → Room → Prop
  /-- Answered before the rate limit was looked at. -/
  | before {x : Except PostReject Message} : Refuses PostReject.elsewhere x → PostPace now q r false x r
  | refused {e : PostReject} : (∀ k, e = .rateLimited k → q.recordsRate r = true ∧
        r.settings.rateLimit ≤ ((q.expireStamps now r).stampsOf q.body.sender).length ∧
        ∀ t, ((q.expireStamps now r).stampsOf q.body.sender).head? = some t →
          k = (t + r.rateWindowMs - now + 999) / 1000) →
      PostPace now q r false (.error e) (q.expireStamps now r)
  | accepted {m : Message} {r' : Room} : (q.recordsRate r = true →
        ((q.expireStamps now r).stampsOf q.body.sender).length < r.settings.rateLimit) →
      r'.settings = r.settings →
      (∀ sender, r'.stampsOf sender = if q.recordsRate r = true ∧ sender = q.body.sender
        then (q.expireStamps now r).stampsOf sender ++ [now] else (q.expireStamps now r).stampsOf sender) →
      PostPace now q r true (.ok m) r'

theorem recordsRate_expireStamps (q : PostRequest) (now : Nat) (r : Room) :
    q.recordsRate (q.expireStamps now r) = q.recordsRate r := by
  unfold PostRequest.recordsRate
  rw [settings_expireStamps]

theorem rateWindowMs_expireStamps (q : PostRequest) (now : Nat) (r : Room) :
    (q.expireStamps now r).rateWindowMs = r.rateWindowMs := by
  unfold Room.rateWindowMs
  rw [settings_expireStamps]

theorem postLocked_pace (q : PostRequest) (attachments : List Attachment) (w : World) :
    ∃ r, (postLocked cfg env q attachments w).2.roomOr cfg = Function.update (w.roomOr cfg) q.room r ∧
      PostPace env.now q (w.roomOr cfg q.room) (acceptedNew w (postLocked cfg env q attachments w))
        (postLocked cfg env q attachments w).1 r := by
  unfold postLocked
  dsimp only
  split
  · exact ⟨_, World.roomOr_setRoom .., by
      simpa [acceptedNew, World.setRoom] using .before (.pure _)⟩
  · split
    · next e he =>
      exact ⟨_, World.roomOr_setRoom .., by
        simpa [acceptedNew] using .before (.error (admitted_refuses q _ e he))⟩
    · split
      · next e he =>
        refine ⟨_, World.roomOr_setRoom .., .refused fun k hk => ?_⟩
        subst hk
        rcases withinRate_cases q env.now (q.expireStamps env.now (w.roomOr cfg q.room)) with
          ⟨hw, -⟩ | ⟨hr, hl, k', hw, hk'⟩
        · rw [hw] at he
          exact absurd rfl (replyAuthor_refuses q _ _ _ he k)
        · rw [hw] at he
          obtain rfl : k' = k := by simpa using he
          rw [recordsRate_expireStamps] at hr
          rw [settings_expireStamps] at hl
          rw [rateWindowMs_expireStamps] at hk'
          exact ⟨hr, hl, hk'⟩
      · next author hok =>
        split
        · exact ⟨_, World.roomOr_setRoom .., .refused fun k hk =>
            absurd hk (failure_elsewhere _ _ k)⟩
        · next db _ =>
          generalize hd : q.draft cfg env attachments author
            (q.expireStamps env.now (w.roomOr cfg q.room)) w.hub = d
          refine ⟨_, (count_accept q _ db d w).rooms, ?_⟩
          have hnew : acceptedNew w (Except.ok d.msg,
              d.accept cfg env q (q.expireStamps env.now (w.roomOr cfg q.room)) db w) = true := by
            simp [acceptedNew, accept_nextId, Except.toOption]
          rw [hnew]
          refine .accepted (fun hr => ?_) ?_ fun sender => ?_
          · rcases withinRate_cases q env.now (q.expireStamps env.now (w.roomOr cfg q.room)) with
              ⟨-, hl⟩ | ⟨-, -, k, hw, -⟩
            · rw [recordsRate_expireStamps, settings_expireStamps] at hl
              exact hl hr
            · rw [hw] at hok
              cases hok
          · rw [(mirror_stamps q db d _ q.body.sender).1, settings_expireStamps]
          · rw [(mirror_stamps q db d _ sender).2, recordsRate_expireStamps]

theorem post_pace (q : PostRequest) (w : World) :
    ∃ r, (post cfg env q w).2.roomOr cfg = Function.update (w.roomOr cfg) q.room r ∧
      PostPace env.now q (w.roomOr cfg q.room) (acceptedNew w (post cfg env q w))
        (post cfg env q w).1 r := by
  unfold post
  split
  · next e he =>
    refine ⟨_, (Function.update_eq_self q.room (w.roomOr cfg)).symm, ?_⟩
    simpa [acceptedNew] using .before (.error (beginPost_refuses q w e he))
  · refine ⟨_, (Function.update_eq_self q.room (w.roomOr cfg)).symm, ?_⟩
    simpa [acceptedNew] using .before (.pure _)
  · exact postLocked_pace q _ w

end Stamps

/-! ## Runs -/

section Runs

variable {cfg : Config} {room sender : String} {limit window : Nat}

/-- The room's stamps are what the log leaves of a window. -/
structure Pacing.Kept (cfg : Config) (room sender : String) (limit window : Nat) (s : Pacing) : Prop where
  allows : (s.world.roomOr cfg room).settings.rateLimit = limit
  width : (s.world.roomOr cfg room).rateWindowMs = window
  stamps : Pace.Window limit window s.clock s.log ((s.world.roomOr cfg room).stampsOf sender)

/-- The source drops a stamp exactly when it has run out. -/
theorem Pacing.Dated.cutoff {s : Pacing} {i : Env × PostRequest} (h : s.Dated cfg room sender window i)
    (hl : i.2.limited room sender) :
    ∀ t ∈ (s.world.roomOr cfg room).stampsOf sender,
      decide (t ≤ i.1.now - window) = true ↔ t + window ≤ i.1.now := by
  intro t ht
  rw [decide_eq_true_iff]
  rcases h hl with hw | hz
  · omega
  · have : t ≠ 0 := fun h0 => hz (h0 ▸ ht)
    omega

theorem limited_recordsRate {q : PostRequest} {r : Room} (hpos : 0 < r.settings.rateLimit)
    (hl : q.limited room sender) : q.recordsRate r = true := by
  simp [PostRequest.recordsRate, hl.2.2, hpos]

/-- Once expired, the stamps are what counts of the log. -/
theorem Pacing.Kept.live {s : Pacing} {i : Env × PostRequest} (h : s.Kept cfg room sender limit window)
    (hpos : 0 < limit) (ho : s.onward i) (hd : s.Dated cfg room sender window i)
    (hl : i.2.limited room sender) :
    (i.2.expireStamps i.1.now (s.world.roomOr cfg room)).stampsOf sender =
      Pace.recent window i.1.now s.log := by
  have hr := limited_recordsRate (h.allows.symm ▸ hpos) hl
  rw [stampsOf_expireStamps, if_pos ⟨hr, hl.2.1.symm⟩, h.width]
  exact (h.stamps.later ho).live (hd.cutoff hl)

/-- A post that the limit is not about leaves the sender's stamps. -/
theorem expireStamps_other {q : PostRequest} (hroom : q.room = room) (hl : ¬q.limited room sender)
    (r : Room) : ¬(q.recordsRate r = true ∧ sender = q.body.sender) := by
  rintro ⟨hr, hs⟩
  unfold PostRequest.recordsRate at hr
  rw [Bool.and_eq_true, Bool.not_eq_true'] at hr
  exact hl ⟨hroom, hs.symm, hr.1⟩

theorem Pacing.Kept.step {s : Pacing} (i : Env × PostRequest) (hpos : 0 < limit)
    (h : s.Kept cfg room sender limit window) (ho : s.onward i)
    (hd : s.Dated cfg room sender window i) :
    (s.step cfg room sender i).2.Kept cfg room sender limit window := by
  obtain ⟨env, q⟩ := i
  obtain ⟨r, hrooms, hpace⟩ := @post_pace cfg env q s.world
  have hlater := h.stamps.later ho
  unfold Pacing.step
  dsimp only
  by_cases hroom : q.room = room
  case neg =>
    -- another room
    have hsame : (post cfg env q s.world).2.roomOr cfg room = s.world.roomOr cfg room := by
      rw [hrooms, Function.update_of_ne (Ne.symm hroom)]
    rw [if_neg fun hc => hroom hc.1.1]
    exact ⟨hsame ▸ h.allows, hsame ▸ h.width, by rw [hsame]; exact hlater⟩
  case pos =>
  subst hroom
  have hself : (post cfg env q s.world).2.roomOr cfg q.room = r := by
    rw [hrooms, Function.update_self]
  generalize hnew : acceptedNew s.world (post cfg env q s.world) = new at hpace
  generalize (post cfg env q s.world).1 = x at hpace
  have hset : r.settings = (s.world.roomOr cfg q.room).settings := by
    cases hpace with
    | before _ => rfl
    | refused _ => exact settings_expireStamps q env.now _
    | accepted _ hs _ => exact hs
  refine ⟨by dsimp only; rw [hself, hset]; exact h.allows,
    by dsimp only [Room.rateWindowMs]; rw [hself, hset]; exact h.width, ?_⟩
  dsimp only
  rw [hself]
  by_cases hl : q.limited q.room sender
  · have hlive := h.live hpos ho hd hl
    have hr := limited_recordsRate (h.allows.symm ▸ hpos) hl
    have hexp : Pace.Window limit window env.now s.log
        ((q.expireStamps env.now (s.world.roomOr cfg q.room)).stampsOf sender) := by
      rw [stampsOf_expireStamps, if_pos ⟨hr, hl.2.1.symm⟩, h.width]
      exact hlater.expire (hd.cutoff hl)
    cases hpace with
    | before _ =>
        rw [if_neg (by simp)]
        exact hlater
    | refused _ =>
        rw [if_neg (by simp)]
        exact hexp
    | accepted hless _ hstamps =>
        rw [if_pos ⟨hl, rfl⟩, hstamps, if_pos ⟨hr, hl.2.1.symm⟩]
        refine hexp.push ?_
        have hroomLeft := hless hr
        rw [hl.2.1, h.allows, hlive] at hroomLeft
        exact hroomLeft
  · have hkeep : r.stampsOf sender = (s.world.roomOr cfg q.room).stampsOf sender := by
      have hne := expireStamps_other rfl hl (s.world.roomOr cfg q.room)
      cases hpace with
      | before _ => rfl
      | refused _ => rw [stampsOf_expireStamps, if_neg hne]
      | accepted _ _ hstamps => rw [hstamps, if_neg hne, stampsOf_expireStamps, if_neg hne]
    rw [if_neg fun hc => hl hc.1, hkeep]
    exact hlater

theorem Pacing.Kept.init {s : Pacing} (h : PacingInit cfg room sender limit window s) :
    s.Kept cfg room sender limit window :=
  ⟨h.limit, h.window, by rw [h.stamps, h.log]; exact .empty _ _ _⟩

/-- What a post may be: the clock has not gone back, and its cutoff is not a saturated one that
meets a stamp of 0. -/
def Pacing.Regular (cfg : Config) (room sender : String) (window : Nat) (s : Pacing)
    (i : Env × PostRequest) : Prop :=
  s.onward i ∧ s.Dated cfg room sender window i

theorem Pacing.Kept.of_run (hpos : 0 < limit) {tr : List ((Env × PostRequest) × Except PostReject Message)}
    {s : Pacing} (hrun : Sys.Run (paceMachine cfg room sender limit window)
      (Pacing.Regular cfg room sender window) tr s) : s.Kept cfg room sender limit window :=
  hrun.invariant (fun _ h => .init h) fun _ i h hi => h.step i hpos hi.1 hi.2

/-- A refusal for the rate: so many posts count, and the answer says when the first runs out. -/
theorem Pacing.Kept.rateLimited {s : Pacing} {i : Env × PostRequest} {k : Nat} (hpos : 0 < limit)
    (h : s.Kept cfg room sender limit window) (hi : s.Regular cfg room sender window i)
    (hl : i.2.limited room sender) (hk : (s.step cfg room sender i).1 = .error (.rateLimited k)) :
    limit ≤ (Pace.recent window i.1.now s.log).length ∧
      (s.step cfg room sender i).2.log = s.log ∧
      ∃ t rest, Pace.recent window i.1.now s.log = t :: rest ∧ t + window ≤ i.1.now + 1000 * k := by
  obtain ⟨env, q⟩ := i
  obtain ⟨r, -, hpace⟩ := @post_pace cfg env q s.world
  have hlive := h.live hpos hi.1 hi.2 hl
  obtain ⟨rfl, hsender, -⟩ := id hl
  unfold Pacing.step at hk ⊢
  dsimp only at hk hlive ⊢
  rw [hk] at hpace
  generalize hnew : acceptedNew s.world (post cfg env q s.world) = new at hpace
  cases hpace with
  | before hx => exact absurd rfl (hx _ rfl k)
  | refused hx =>
      obtain ⟨-, hfull, hfirst⟩ := hx k rfl
      rw [hsender, h.allows, hlive] at hfull
      rw [hsender, hlive, h.width] at hfirst
      refine ⟨hfull, by rw [if_neg (by simp)], ?_⟩
      cases hrec : Pace.recent window env.now s.log with
      | nil =>
          rw [hrec, List.length_nil] at hfull
          omega
      | cons t rest =>
          rw [hrec] at hfirst
          have hkt := hfirst t rfl
          exact ⟨t, rest, rfl, by omega⟩

/-- In every run: no stretch of the window's length has more than the limit of accepted posts;
a post is refused for the rate only when so many count; and once the answer's seconds are over,
without an accepted post in between, it is not refused for the rate again. -/
theorem rate_limit_slides (hpos : 0 < limit) {tr : List ((Env × PostRequest) × Except PostReject Message)}
    {s : Pacing} (hrun : Sys.Run (paceMachine cfg room sender limit window)
      (Pacing.Regular cfg room sender window) tr s) :
    (∀ start, (Pace.within window start s.log).length ≤ limit) ∧
    ∀ i k, s.Regular cfg room sender window i → i.2.limited room sender →
      (s.step cfg room sender i).1 = .error (.rateLimited k) →
      (limit ≤ (Pace.recent window i.1.now s.log).length ∧ ∀ t ∈ s.log, t ≤ i.1.now) ∧
      ∀ is, (paceMachine cfg room sender limit window).Admits (Pacing.Regular cfg room sender window) is
          (s.step cfg room sender i).2 →
        ∀ s', s' = (paceMachine cfg room sender limit window).after is (s.step cfg room sender i).2 →
          s'.log = s.log → ∀ j, s'.Regular cfg room sender window j → j.2.limited room sender →
            i.1.now + 1000 * k ≤ j.1.now → ∀ k', (s'.step cfg room sender j).1 ≠ .error (.rateLimited k') := by
  have hkept := Pacing.Kept.of_run hpos hrun
  refine ⟨hkept.stamps.paced.stretch, fun i k hi hl hk => ?_⟩
  obtain ⟨hfull, hlog, t, rest, hfront, ht⟩ := hkept.rateLimited hpos hi hl hk
  have hpast := (hkept.stamps.later hi.1).past
  refine ⟨⟨hfull, hpast⟩, ?_⟩
  intro is his s' hs' hsame j hj hlj hwait k' hk'
  have hkept' : s'.Kept cfg room sender limit window := by
    rw [hs']
    exact his.after (fun _ i h hi => h.step i hpos hi.1 hi.2) (hkept.step i hpos hi.1 hi.2)
  have hfull' := (hkept'.rateLimited hpos hj hlj hk').1
  rw [hsame] at hfull'
  have hless := hkept.stamps.paced.recent_lt hpast hfront (Nat.le_trans ht hwait)
  omega

end Runs

/-! ## One post a minute -/

/-- One post a minute in a free room. -/
def slowWorld : World :=
  ⟨⟨(∅ : Assoc String Room).put "den" (Room.fresh .free
    { RoomSettings.default with rateLimit := 1, rateWindowSecs := 60 } 1), [], 1, 5, ∅, ∅, ∅⟩, {}, []⟩

def slowPost (now : Nat) (op : String) : Env × PostRequest :=
  (sampleEnv now fun _ => false,
    ⟨"den", ⟨.say, "ann", .user, none, "done", none, some op, []⟩, false, "p-ann"⟩)

def slowStart : Pacing := ⟨slowWorld, 0, []⟩

theorem slowStart_init : PacingInit sampleConfig "den" "ann" 1 60000 slowStart := ⟨rfl, rfl, rfl, rfl⟩

/-- Ann posts at 100000 and at 100001; the second post has to wait for 60 seconds, and at
160001 it need not. -/
theorem rate_limit_slides_slow :
    (∀ start, (Pace.within 60000 start
      (slowStart.step sampleConfig "den" "ann" (slowPost 100000 "op-1")).2.log).length ≤ 1) ∧
    ((slowStart.step sampleConfig "den" "ann" (slowPost 100000 "op-1")).2.step sampleConfig "den" "ann"
      (slowPost 100001 "op-2")).1 = .error (.rateLimited 60) ∧
    ∀ k, (((slowStart.step sampleConfig "den" "ann" (slowPost 100000 "op-1")).2.step sampleConfig "den" "ann"
      (slowPost 100001 "op-2")).2.step sampleConfig "den" "ann" (slowPost 160001 "op-3")).1 ≠
        .error (.rateLimited k) :=
  have hone : ∀ now op (s : Pacing), 60000 ≤ now → s.clock ≤ now →
      s.Regular sampleConfig "den" "ann" 60000 (slowPost now op) :=
    fun _ _ _ hw hc => ⟨hc, fun _ => .inl hw⟩
  have hlaw := rate_limit_slides Nat.one_pos (.snoc (slowPost 100000 "op-1") (.nil slowStart_init)
    (hone _ _ _ (by decide) (Nat.zero_le _)))
  have hlimited : ((slowStart.step sampleConfig "den" "ann" (slowPost 100000 "op-1")).2.step sampleConfig
      "den" "ann" (slowPost 100001 "op-2")).1 = .error (.rateLimited 60) := rfl
  ⟨hlaw.1, hlimited, (hlaw.2 (slowPost 100001 "op-2") 60 (hone _ _ _ (by decide) (by decide))
    ⟨rfl, rfl, rfl⟩ hlimited).2 [] trivial _ rfl rfl (slowPost 160001 "op-3")
    (hone _ _ _ (by decide) (by decide)) ⟨rfl, rfl, rfl⟩ (by decide)⟩

/-- While the clock reads 0, every stamp is dropped as soon as it is looked at: with one post a
minute allowed, two are accepted. -/
theorem rate_limit_slips_at_zero :
    ∃ tr s, Sys.Run (paceMachine sampleConfig "den" "ann" 1 60000) Pacing.onward tr s ∧
      1 < (Pace.within 60000 0 s.log).length :=
  ⟨_, _, .snoc (slowPost 0 "op-2") (.snoc (slowPost 0 "op-1") (.nil slowStart_init) (Nat.le_refl _))
    (Nat.le_refl _), by
      have hlog : ((slowStart.step sampleConfig "den" "ann" (slowPost 0 "op-1")).2.step sampleConfig
        "den" "ann" (slowPost 0 "op-2")).2.log = [0, 0] := rfl
      show 1 < (Pace.within 60000 0 ((slowStart.step sampleConfig "den" "ann" (slowPost 0 "op-1")).2.step
        sampleConfig "den" "ann" (slowPost 0 "op-2")).2.log).length
      rw [hlog]
      decide⟩

end Loca
