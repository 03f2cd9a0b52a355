/-
# `Loca.Adapter.Links` — the attentions of a turn

A turn's attentions are linked to it at the position that a count of its links gives, with
`INSERT OR IGNORE`.  An interruption takes links out of the middle, a requeue takes them all, and a
count then names a position that is taken, or one below another.  Where no attention enters a turn
with a gap, none enters a second turn while it is in a first, and no turn is requeued that has
answered, the links are complete, in the order of acceptance, and `accepted_for_turn` lists them.

`log` is the history of acceptances, each attention at its latest one; the store does not look at it.
-/
import Loca.Adapter.Store

namespace Loca.Adapter

open Check Table

/-! ## The log of acceptances -/

structure Logged where
  ledger : Ledger
  /-- The turn and the attention of each attention's latest acceptance, in order. -/
  log : List (String × String)

/-- An attention enters a turn that it is not in. -/
def Ledger.enters (l : Ledger) (attentionId turnId : String) : Bool :=
  (l.attention? attentionId).any fun a => a.turnId ≠ some turnId

def logOf (l : Ledger) (log : List (String × String)) (i : StoreInput) (o : Except Fault Reply) :
    List (String × String) :=
  match i.mutation.bind Mutation.accepts, o with
  | some (a, _, u), .ok _ => if l.enters a u then (log.filter fun e => e.2 ≠ a) ++ [(u, a)] else log
  | _, _ => log

def loggedStore (py : Python) : Sys.Machine Logged StoreInput (Except Fault Reply) where
  init s := s = ⟨{}, []⟩
  step s i := ((s.ledger.storeStep py i).1,
    ⟨(s.ledger.storeStep py i).2, logOf s.ledger s.log i (s.ledger.storeStep py i).1⟩)

/-! ## The links -/

/-- The columns that say which turn an attention is in. -/
def Attention.seat (a : Attention) : String × Option String := (a.attentionId, a.turnId)

structure LinksHold (l : Ledger) (log : List (String × String)) : Prop where
  ids : (l.attentions.map Attention.attentionId).Nodup
  ordered : l.turnLinks.Pairwise fun k k' => k.turnId = k'.turnId → k.position < k'.position
  member : ∀ k ∈ l.turnLinks, ∃ a ∈ l.attentions, a.attentionId = k.attentionId ∧ a.turnId = some k.turnId
  complete : ∀ a ∈ l.attentions, ∀ turnId, a.turnId = some turnId →
    ∃ k ∈ l.turnLinks, k.turnId = turnId ∧ k.attentionId = a.attentionId
  logged : (l.turnLinks.map fun k => (k.turnId, k.attentionId)).Sublist log
  once : (log.map Prod.snd).Nodup

section

variable {l l' : Ledger} {log : List (String × String)} {f : Fence}

theorem LinksHold.one_turn (h : LinksHold l log) {k k' : TurnLink} (hk : k ∈ l.turnLinks) (hk' : k' ∈ l.turnLinks)
    (he : k.attentionId = k'.attentionId) : k.turnId = k'.turnId := by
  obtain ⟨a, ha, hi, ht⟩ := h.member k hk
  obtain ⟨b, hb, hi', ht'⟩ := h.member k' hk'
  obtain rfl := eq_of_key h.ids ha hb (hi.trans (he.trans hi'.symm))
  exact Option.some.inj (ht.symm.trans ht')

theorem mem_seat {a : Attention} {as : List Attention} (h : a ∈ as) : a.seat ∈ as.map Attention.seat :=
  List.mem_map_of_mem h

theorem ids_of_seats (h : l'.attentions.map Attention.seat = l.attentions.map Attention.seat) :
    l'.attentions.map Attention.attentionId = l.attentions.map Attention.attentionId := by
  have := congrArg (List.map Prod.fst) h
  simpa [List.map_map, Function.comp_def, Attention.seat] using this

/-- Links and seats are as they were. -/
theorem LinksHold.same (h : LinksHold l log) (ha : l'.attentions.map Attention.seat = l.attentions.map Attention.seat)
    (hk : l'.turnLinks = l.turnLinks) : LinksHold l' log where
  ids := by rw [ids_of_seats ha]; exact h.ids
  ordered := by rw [hk]; exact h.ordered
  member := by
    intro k hk'
    rw [hk] at hk'
    obtain ⟨a, hmem, hid, ht⟩ := h.member k hk'
    have hs := mem_seat hmem
    rw [← ha] at hs
    obtain ⟨b, hb, he⟩ := List.mem_map.mp hs
    obtain ⟨he₁, he₂⟩ := Prod.mk.inj he
    exact ⟨b, hb, he₁.trans hid, he₂.trans ht⟩
  complete := by
    intro a hmem turnId ht
    have hs := mem_seat hmem
    rw [ha] at hs
    obtain ⟨b, hb, he⟩ := List.mem_map.mp hs
    obtain ⟨he₁, he₂⟩ := Prod.mk.inj he
    rw [hk, ← he₁]
    exact h.complete b hb turnId (he₂.trans ht)
  logged := by rw [hk]; exact h.logged
  once := h.once

/-- Some attentions leave their turns, and their links go. -/
theorem LinksHold.release (h : LinksHold l log) {o : String → Bool}
    (hk : l'.turnLinks = deleteWhere (fun k => o k.attentionId) l.turnLinks)
    (ha : l'.attentions.map Attention.seat =
      l.attentions.map fun a => if o a.attentionId then (a.attentionId, none) else a.seat) : LinksHold l' log where
  ids := by
    have hids : l'.attentions.map Attention.attentionId = l.attentions.map Attention.attentionId := by
      have := congrArg (List.map Prod.fst) ha
      rw [List.map_map, List.map_map] at this
      refine (Eq.trans ?_ this).trans ?_
      · exact List.map_congr_left fun a _ => rfl
      · refine List.map_congr_left fun a _ => ?_
        simp only [Function.comp]
        split <;> rfl
    rw [hids]
    exact h.ids
  ordered := by rw [hk]; exact h.ordered.filter _
  member := by
    intro k hmem
    rw [hk, mem_deleteWhere] at hmem
    obtain ⟨a, hin, hid, ht⟩ := h.member k hmem.1
    have hs : a.seat ∈ l'.attentions.map Attention.seat := by
      rw [ha]
      refine List.mem_map.mpr ⟨a, hin, ?_⟩
      rw [hid, hmem.2, if_neg (by decide)]
    obtain ⟨b, hb, he⟩ := List.mem_map.mp hs
    obtain ⟨he₁, he₂⟩ := Prod.mk.inj he
    exact ⟨b, hb, he₁.trans hid, he₂.trans ht⟩
  complete := by
    intro a hmem turnId ht
    have hs := mem_seat hmem
    rw [ha] at hs
    obtain ⟨b, hb, he⟩ := List.mem_map.mp hs
    split at he
    · exact absurd (ht.symm.trans (Prod.mk.inj he).2.symm) (by simp)
    · next hout =>
        obtain ⟨he₁, he₂⟩ := Prod.mk.inj he
        obtain ⟨k, hin, hkt, hka⟩ := h.complete b hb turnId (he₂.trans ht)
        refine ⟨k, ?_, hkt, hka.trans he₁⟩
        rw [hk, mem_deleteWhere, hka]
        exact ⟨hin, by simpa using hout⟩
  logged := by
    rw [hk]
    exact (List.filter_sublist.map _).trans h.logged
  once := h.once

/-! ## An acceptance -/

/-- The number of links of a turn, which is the position the next one is given. -/
def Ledger.linkCount (l : Ledger) (turnId : String) : Nat := (l.turnLinks.filter fun k => k.turnId = turnId).length

theorem accept_seats (a : Attention) (threadId turnId : String) :
    (l.accept f a threadId turnId).attentions.map Attention.seat =
      l.attentions.map fun r => if r.attentionId = a.attentionId then (r.attentionId, some turnId) else r.seat := by
  simp only [Ledger.accept, Ledger.updateAttentions, updateWhere, linkTurn_attentions, List.map_map]
  refine List.map_congr_left fun r _ => ?_
  simp only [Function.comp, decide_eq_true_eq]
  split <;> rfl

theorem accept_turnLinks (a : Attention) (threadId turnId : String) :
    (l.accept f a threadId turnId).turnLinks = (l.linkTurn turnId a.attentionId).turnLinks := by
  simp only [Ledger.accept, Ledger.updateAttentions, Ledger.linkTurn]
  split <;> rfl

/-- The attention is in the turn already: nothing moves. -/
theorem LinksHold.accept_again (h : LinksHold l log) {a : Attention} (ha : a ∈ l.attentions) {turnId : String}
    (ht : a.turnId = some turnId) (threadId : String) : LinksHold (l.accept f a threadId turnId) log := by
  refine h.same ?_ ?_
  · rw [accept_seats]
    refine List.map_congr_left fun r hr => ?_
    split
    · next he => rw [Attention.seat, eq_of_key h.ids hr ha he, ht]
    · rfl
  · obtain ⟨k, hk, hkt, hka⟩ := h.complete a ha turnId ht
    rw [accept_turnLinks, Ledger.linkTurn, if_pos]
    exact List.any_eq_true.mpr ⟨k, hk, by simp [hkt, hka]⟩

/-- The attention enters a turn whose links have no gap. -/
theorem LinksHold.accept_new (h : LinksHold l log) {a : Attention} (ha : a ∈ l.attentions) {turnId : String}
    (ht : a.turnId = none) (hgap : ∀ k ∈ l.turnLinks, k.turnId = turnId → k.position < l.linkCount turnId)
    (threadId : String) : LinksHold (l.accept f a threadId turnId)
      ((log.filter fun e => e.2 ≠ a.attentionId) ++ [(turnId, a.attentionId)]) := by
  have hfree : ∀ k ∈ l.turnLinks, k.attentionId ≠ a.attentionId := by
    intro k hk he
    obtain ⟨b, hb, hid, hbt⟩ := h.member k hk
    rw [eq_of_key h.ids hb ha (hid.trans he), ht] at hbt
    cases hbt
  have hlinks : (l.accept f a threadId turnId).turnLinks =
      l.turnLinks ++ [⟨turnId, a.attentionId, l.linkCount turnId⟩] := by
    rw [accept_turnLinks, Ledger.linkTurn, if_neg]
    · rfl
    · intro htaken
      obtain ⟨k, hk, hc⟩ := List.any_eq_true.mp htaken
      simp only [Bool.and_eq_true, Bool.or_eq_true, decide_eq_true_eq] at hc
      rcases hc.2 with hc' | hc'
      · exact hfree k hk hc'
      · exact absurd hc' (Nat.ne_of_lt (hgap k hk hc.1))
  refine ⟨?_, ?_, ?_, ?_, ?_, ?_⟩
  · have hids := congrArg (List.map Prod.fst) (@accept_seats l f a threadId turnId)
    rw [List.map_map, List.map_map] at hids
    have : (l.accept f a threadId turnId).attentions.map Attention.attentionId =
        l.attentions.map Attention.attentionId := by
      refine (Eq.trans ?_ hids).trans ?_
      · exact List.map_congr_left fun r _ => rfl
      · refine List.map_congr_left fun r _ => ?_
        simp only [Function.comp]
        split <;> rfl
    rw [this]
    exact h.ids
  · rw [hlinks]
    refine List.pairwise_append.mpr ⟨h.ordered, List.pairwise_singleton _ _, ?_⟩
    intro k hk k' hk' he
    rw [List.mem_singleton.mp hk'] at he ⊢
    exact hgap k hk he
  · intro k hk
    rw [hlinks] at hk
    rcases List.mem_append.mp hk with hk | hk
    · obtain ⟨b, hb, hid, hbt⟩ := h.member k hk
      have hs : b.seat ∈ (l.accept f a threadId turnId).attentions.map Attention.seat := by
        rw [accept_seats]
        refine List.mem_map.mpr ⟨b, hb, ?_⟩
        rw [if_neg]
        rw [hid]
        exact hfree k hk
      obtain ⟨c, hc, he⟩ := List.mem_map.mp hs
      exact ⟨c, hc, (Prod.mk.inj he).1.trans hid, (Prod.mk.inj he).2.trans hbt⟩
    · rw [List.mem_singleton.mp hk]
      have hs : (a.attentionId, some turnId) ∈ (l.accept f a threadId turnId).attentions.map Attention.seat := by
        rw [accept_seats]
        exact List.mem_map.mpr ⟨a, ha, by rw [if_pos rfl]⟩
      obtain ⟨c, hc, he⟩ := List.mem_map.mp hs
      exact ⟨c, hc, (Prod.mk.inj he).1, (Prod.mk.inj he).2⟩
  · intro b hb turnId' hbt
    have hs := mem_seat hb
    rw [accept_seats] at hs
    obtain ⟨c, hc, he⟩ := List.mem_map.mp hs
    rw [hlinks]
    split at he
    · next hca =>
        obtain ⟨he₁, he₂⟩ := Prod.mk.inj he
        refine ⟨⟨turnId, a.attentionId, l.linkCount turnId⟩, List.mem_append_right _ (List.mem_singleton.mpr rfl), ?_, ?_⟩
        · exact Option.some.inj (he₂.trans hbt)
        · exact hca.symm.trans he₁
    · obtain ⟨he₁, he₂⟩ := Prod.mk.inj he
      obtain ⟨k, hk, hkt, hka⟩ := h.complete c hc turnId' (he₂.trans hbt)
      exact ⟨k, List.mem_append_left _ hk, hkt, hka.trans he₁⟩
  · rw [hlinks, List.map_append]
    refine List.Sublist.append ?_ (List.Sublist.refl _)
    have hkeep : (l.turnLinks.map fun k => (k.turnId, k.attentionId)).filter (fun e => e.2 ≠ a.attentionId) =
        l.turnLinks.map fun k => (k.turnId, k.attentionId) := by
      refine List.filter_eq_self.mpr fun e he => ?_
      obtain ⟨k, hk, rfl⟩ := List.mem_map.mp he
      simpa using hfree k hk
    rw [← hkeep]
    exact h.logged.filter _
  · rw [List.map_append]
    refine List.nodup_append.mpr ⟨h.once.sublist (List.filter_sublist.map _), List.nodup_singleton _, ?_⟩
    intro x hx y hy
    obtain ⟨e, he, rfl⟩ := List.mem_map.mp hx
    simp only [List.map_cons, List.map_nil, List.mem_singleton] at hy
    rw [hy]
    simpa using (List.mem_filter.mp he).2

/-! ## A requeue and an interruption -/

theorem updateAttentions_seats {p : Attention → Bool} {g : Attention → Attention} (hg : ∀ r, (g r).seat = r.seat)
    (l : Ledger) : (l.updateAttentions p g).attentions.map Attention.seat = l.attentions.map Attention.seat :=
  map_key_updateWhere hg l.attentions

theorem mem_linkedTo {turnId id : String} :
    id ∈ l.linkedTo turnId ↔ ∃ k ∈ l.turnLinks, k.turnId = turnId ∧ k.attentionId = id := by
  unfold Ledger.linkedTo orderBy
  constructor
  · intro hid
    obtain ⟨k, hk, rfl⟩ := List.mem_map.mp hid
    have := (List.perm_insertionSort _ _).mem_iff.mp hk
    simp only [List.mem_filter, decide_eq_true_eq] at this
    exact ⟨k, this.1, this.2, rfl⟩
  · rintro ⟨k, hk, ht, rfl⟩
    refine List.mem_map_of_mem ((List.perm_insertionSort _ _).mem_iff.mpr ?_)
    exact List.mem_filter.mpr ⟨hk, by simpa using ht⟩

/-- A turn that has not answered gives all its attentions back. -/
theorem LinksHold.requeue (h : LinksHold l log) {back : Attention → Attention}
    (hback : ∀ r, (back r).seat = (r.attentionId, none)) {turnId : String}
    (hopen : ∀ a ∈ l.attentions, a.turnId = some turnId → a.finalResponseAtMs = none) (reason : String) (now : Int)
    (n : Nat) : LinksHold (Ledger.requeueTurn back reason now (n, l) turnId).2 log := by
  unfold Ledger.requeueTurn
  dsimp only
  split
  · exact h
  · refine h.release (o := fun id => (l.linkedTo turnId).contains id) ?_ ?_
    · refine List.filter_congr fun k hk => ?_
      rw [Bool.eq_iff_iff]
      simp only [Bool.not_eq_true', decide_eq_false_iff_not, List.contains_eq_mem, mem_linkedTo]
      constructor
      · rintro hne ⟨k', hk', ht, he⟩
        exact hne ((h.one_turn hk' hk he).symm.trans ht)
      · intro hne ht
        exact hne ⟨k, hk, ht, rfl⟩
    · simp only [Ledger.updateAttentions, Ledger.updateTurns, updateWhere, List.map_map]
      refine List.map_congr_left fun a ha => ?_
      have hin : (l.linkedTo turnId).contains a.attentionId = true → a.finalResponseAtMs = none := by
        intro hc
        obtain ⟨k, hk, ht, he⟩ := mem_linkedTo.mp (List.contains_iff_mem.mp hc)
        obtain ⟨b, hb, hid, hbt⟩ := h.member k hk
        rw [ht] at hbt
        exact hopen a ha (eq_of_key h.ids hb ha (hid.trans he) ▸ hbt)
      by_cases hc : (l.linkedTo turnId).contains a.attentionId = true
      · simp only [Function.comp, hc, hin hc, Option.isNone_none, Bool.and_true, if_true, hback]
      · simp only [Function.comp, hc, Bool.false_and, Bool.false_eq_true, if_false]

/-- One attention of an interrupted turn. -/
theorem LinksHold.interrupt (h : LinksHold l log) {turnId : String} {a : Attention}
    (hturn : ∀ k ∈ l.turnLinks, k.attentionId = a.attentionId → k.turnId = turnId) (reason : String) (now : Int) (n : Nat) :
    LinksHold (Ledger.interruptAttention turnId reason now (n, l) a).2 log := by
  unfold Ledger.interruptAttention
  split
  · refine h.release (o := fun id => id = a.attentionId) ?_ ?_
    · refine List.filter_congr fun k hk => ?_
      rw [Bool.eq_iff_iff]
      simp only [Bool.not_eq_true', Bool.and_eq_false_imp, decide_eq_true_eq, decide_eq_false_iff_not]
      exact ⟨fun hne he => hne (hturn k hk he) he, fun hne _ => hne⟩
    · simp only [Ledger.updateAttentions, updateWhere, List.map_map]
      refine List.map_congr_left fun r _ => ?_
      simp only [Function.comp, decide_eq_true_eq]
      split <;> rfl
  · exact h.same (updateAttentions_seats (by exact fun _ => rfl) l) rfl

theorem interruptAttention_links (turnId reason : String) (now : Int) (acc : Nat × Ledger) (a : Attention) :
    (Ledger.interruptAttention turnId reason now acc a).2.turnLinks.Sublist acc.2.turnLinks := by
  unfold Ledger.interruptAttention
  split
  · exact List.filter_sublist
  · exact List.Sublist.refl _

theorem LinksHold.interruptRows {turnId reason : String} {now : Int} {rows : List Attention} {acc : Nat × Ledger}
    (h : LinksHold acc.2 log)
    (hrows : ∀ a ∈ rows, ∀ k ∈ acc.2.turnLinks, k.attentionId = a.attentionId → k.turnId = turnId) :
    LinksHold (rows.foldl (Ledger.interruptAttention turnId reason now) acc).2 log := by
  induction rows generalizing acc with
  | nil => exact h
  | cons a rows ih =>
      refine ih (h.interrupt (hrows a List.mem_cons_self) reason now acc.1) ?_
      intro b hb k hk he
      exact hrows b (List.mem_cons_of_mem _ hb) k ((interruptAttention_links _ _ _ acc a).subset hk) he

theorem LinksHold.interruptTurn (h : LinksHold l log) (turnId reason : String) :
    LinksHold (l.interruptTurn f turnId reason) log := by
  have h₁ : LinksHold (l.updateTurns (fun t => t.turnId = turnId) fun t =>
      { t with
        completedAtMs := some f.now, terminalStatus := some .interrupted, terminalReason := some reason }) log :=
    h.same rfl rfl
  refine (@LinksHold.interruptRows _ _ _ _ _ (0, _) h₁ ?_).same rfl rfl
  -- each row of the loop is linked to this turn only
  intro a ha k hk he
  obtain ⟨id, hid, hrow⟩ := List.mem_filterMap.mp ha
  obtain ⟨k', hk', ht, hid'⟩ := mem_linkedTo.mp hid
  have hae := (attention_some hrow).2
  exact (h₁.one_turn hk hk' (he.trans (hae.trans hid'.symm))).trans ht

/-! ## Every call -/

/-- The calls that move attentions in and out of turns. -/
def Mutation.seats : Mutation → Bool
  | .markAccepted .. | .finalizeDispatch .. | .requeueMissingThread .. | .requeueMissingTurn .. |
    .interruptTurnForControl .. => true
  | _ => false

theorem deferred_seat (reason : String) (delayMs : Int) (attempts : Nat) (now : Int) (r : Attention) :
    (r.deferred reason delayMs attempts now).seat = r.seat := by
  unfold Attention.deferred
  dsimp only
  split
  · rfl
  · split <;> rfl

/-- Every other call leaves them where they are. -/
theorem effect_seats {m : Mutation} (hm : m.seats = false) :
    (m.effect f l).attentions.map Attention.seat = l.attentions.map Attention.seat ∧
      (m.effect f l).turnLinks = l.turnLinks := by
  cases m <;> simp only [Mutation.effect]
  case markAccepted => cases hm
  case finalizeDispatch => cases hm
  case requeueMissingThread => cases hm
  case requeueMissingTurn => cases hm
  case interruptTurnForControl => cases hm
  case setThread => exact ⟨by trivial, by trivial⟩
  case prepareDispatch => split <;> exact ⟨rfl, rfl⟩
  case retryUnobservedDispatch =>
    split
    · exact ⟨rfl, rfl⟩
    · exact ⟨updateAttentions_seats (by exact fun _ => rfl) _, rfl⟩
  case deferAttention =>
    split
    · exact ⟨rfl, rfl⟩
    · exact ⟨updateAttentions_seats (deferred_seat _ _ _ _) _, rfl⟩
  case adoptRecoveredTurn =>
    split
    · exact ⟨rfl, rfl⟩
    · exact ⟨updateAttentions_seats (by exact fun _ => rfl) _, rfl⟩
  case reapStaleTurnsAfterRecovery =>
    constructor
    · refine foldl_view (fun l : Ledger => l.attentions.map Attention.seat) ?_ _ l
      exact fun _ _ => updateAttentions_seats (by exact fun _ => rfl) _
    · refine foldl_view (fun l : Ledger => l.turnLinks) ?_ _ l
      exact fun _ _ => rfl
  case cancelPendingBeforeControl =>
    split
    · exact ⟨rfl, rfl⟩
    · refine ⟨(updateAttentions_seats ?_ _).trans (updateAttentions_seats ?_ _), rfl⟩
      · exact fun _ => rfl
      · exact fun _ => rfl
  case closeRoomForControl =>
    split
    · exact ⟨rfl, rfl⟩
    · refine ⟨(updateAttentions_seats ?_ _).trans (updateAttentions_seats ?_ _), rfl⟩
      · exact fun _ => rfl
      · exact fun _ => rfl
  case retireLegacyContext =>
    split
    · exact ⟨rfl, rfl⟩
    · split
      · exact ⟨rfl, rfl⟩
      · exact ⟨updateAttentions_seats (by exact fun _ => rfl) _, rfl⟩
  case createRelayItem => split <;> exact ⟨rfl, rfl⟩
  case markRelayFailed => split <;> exact ⟨rfl, rfl⟩
  case markRelayAccepted =>
    split
    · exact ⟨rfl, rfl⟩
    · constructor
      · refine foldl_view (fun l : Ledger => l.attentions.map Attention.seat) ?_ _ _
        exact fun _ _ => updateAttentions_seats (by exact fun _ => rfl) _
      · refine foldl_view (fun l : Ledger => l.turnLinks) ?_ _ _
        exact fun _ _ => rfl
  case markTurnNoReply =>
    split
    · exact ⟨rfl, rfl⟩
    · exact ⟨updateAttentions_seats (by exact fun _ => rfl) _, rfl⟩
  case markTurnCompleted =>
    split
    · unfold Ledger.completeTurn
      dsimp only
      split
      · exact ⟨updateAttentions_seats (by exact fun _ => rfl) _, rfl⟩
      · exact ⟨updateAttentions_seats (by exact fun _ => rfl) _, rfl⟩
    · exact ⟨rfl, rfl⟩

/-- The turns that a requeue is about: of the thread, or the one it names. -/
def Mutation.requeues (l : Ledger) : Mutation → List String
  | .requeueMissingThread identity threadId _ => (l.turns.filter fun t => t.identity = identity &&
      t.threadId = threadId && t.completedAtMs.isNone).map Turn.turnId
  | .requeueMissingTurn identity threadId turnId _ =>
      if l.turns.any fun t => t.identity = identity && t.threadId = threadId && t.turnId = turnId &&
        t.completedAtMs.isNone then [turnId] else []
  | _ => []

/-- An attention enters a turn from no other turn, and a turn without a gap in its positions; and a turn
that is requeued has given no final answer. -/
def Ledger.Tidy (l : Ledger) (i : StoreInput) : Prop :=
  ∀ m, i.mutation = some m →
    (∀ a t u, m.accepts = some (a, t, u) → ∀ row, l.attention? a = some row →
      row.turnId = some u ∨ row.turnId = none ∧ ∀ k ∈ l.turnLinks, k.turnId = u → k.position < l.linkCount u) ∧
    ∀ turnId ∈ m.requeues l, (l.relays.any fun r => r.turnId = turnId) = false →
      ∀ a ∈ l.attentions, a.turnId = some turnId → a.finalResponseAtMs = none

instance (l : Ledger) (i : StoreInput) : Decidable (l.Tidy i) :=
  decidable_of_iff (∀ m ∈ i.mutation.toList,
    (∀ x ∈ m.accepts.toList, ∀ row ∈ (l.attention? x.1).toList, row.turnId = some x.2.2 ∨
      row.turnId = none ∧ ∀ k ∈ l.turnLinks, k.turnId = x.2.2 → k.position < l.linkCount x.2.2) ∧
    ∀ turnId ∈ m.requeues l, (l.relays.any fun r => r.turnId = turnId) = false →
      ∀ a ∈ l.attentions, a.turnId = some turnId → a.finalResponseAtMs = none) <| by
    simp only [Ledger.Tidy, Option.mem_toList, Prod.forall]

/-- The columns a requeue decides by, and those that it resets, along the loop. -/
theorem requeueTurn_later {back : Attention → Attention} (hback : ∀ r, (back r).turnId = none ∧
      (back r).finalResponseAtMs = r.finalResponseAtMs) (reason : String) (now : Int) (acc : Nat × Ledger)
    (turnId : String) :
    (Ledger.requeueTurn back reason now acc turnId).2.relays = acc.2.relays ∧
      ∀ a ∈ (Ledger.requeueTurn back reason now acc turnId).2.attentions, ∀ u, a.turnId = some u →
        ∃ b ∈ acc.2.attentions, b.turnId = some u ∧ a.finalResponseAtMs = b.finalResponseAtMs := by
  unfold Ledger.requeueTurn
  dsimp only
  split
  · exact ⟨rfl, fun a ha u hu => ⟨a, ha, hu, rfl⟩⟩
  · refine ⟨rfl, fun a ha u hu => ?_⟩
    obtain ⟨b, hb, rfl⟩ := mem_updateWhere.mp ha
    refine ⟨b, hb, ?_⟩
    split at hu
    · rw [(hback b).1] at hu
      cases hu
    · next hc => exact ⟨hu, by rw [if_neg hc]⟩

theorem LinksHold.requeueTurns {back : Attention → Attention} (hback : ∀ r, (back r).seat = (r.attentionId, none))
    (hfinal : ∀ r, (back r).turnId = none ∧ (back r).finalResponseAtMs = r.finalResponseAtMs) {reason : String}
    {now : Int} {turns : List String} {acc : Nat × Ledger} (h : LinksHold acc.2 log)
    (hopen : ∀ turnId ∈ turns, (acc.2.relays.any fun r => r.turnId = turnId) = false →
      ∀ a ∈ acc.2.attentions, a.turnId = some turnId → a.finalResponseAtMs = none) :
    LinksHold (turns.foldl (Ledger.requeueTurn back reason now) acc).2 log := by
  induction turns generalizing acc with
  | nil => exact h
  | cons t turns ih =>
      have hstep : LinksHold (Ledger.requeueTurn back reason now acc t).2 log := by
        cases hrel : acc.2.relays.any fun r => r.turnId = t with
        | true =>
            rw [Ledger.requeueTurn, if_pos hrel]
            exact h
        | false => exact h.requeue hback (hopen t List.mem_cons_self hrel) reason now acc.1
      obtain ⟨hr, ha⟩ := requeueTurn_later hfinal reason now acc t
      refine ih hstep fun u hu hrel a hin hat => ?_
      rw [hr] at hrel
      obtain ⟨b, hb, hbt, he⟩ := ha a hin u hat
      rw [he]
      exact hopen u (List.mem_cons_of_mem _ hu) hrel b hb hbt

/-- What an acceptance does to the links and the log. -/
theorem LinksHold.acceptId (h : LinksHold l log) {a t u : String}
    (hok : ∀ row, l.attention? a = some row →
      row.turnId = some u ∨ row.turnId = none ∧ ∀ k ∈ l.turnLinks, k.turnId = u → k.position < l.linkCount u) :
    LinksHold (l.acceptId f a t u)
      (if l.enters a u then (log.filter fun e => e.2 ≠ a) ++ [(u, a)] else log) := by
  cases hrow : l.attention? a with
  | none =>
      simp only [Ledger.acceptId, Ledger.enters, hrow, Option.any_none, Bool.false_eq_true, if_false]
      exact h
  | some row =>
      obtain ⟨hin, rfl⟩ := attention_some hrow
      simp only [Ledger.acceptId, Ledger.enters, hrow, Option.any_some, decide_eq_true_eq]
      rcases hok row hrow with ht | ⟨ht, hgap⟩
      · rw [if_neg (by simp [ht])]
        exact h.accept_again hin ht t
      · rw [if_pos (by simp [ht])]
        exact h.accept_new hin ht hgap t

theorem LinksHold.filed (h : LinksHold l log) (hf : Filed l l') : LinksHold l' log := by
  obtain ⟨new, he, hu, hn, hfree⟩ := hf.attentions
  refine ⟨?_, ?_, ?_, ?_, ?_, h.once⟩
  · rw [he, List.map_append]
    refine List.nodup_append.mpr ⟨h.ids, hn, ?_⟩
    intro x hx y hy
    obtain ⟨r, hr, rfl⟩ := List.mem_map.mp hx
    obtain ⟨a, ha, rfl⟩ := List.mem_map.mp hy
    exact hfree a ha r hr
  · rw [hf.turnLinks]
    exact h.ordered
  · intro k hk
    rw [hf.turnLinks] at hk
    obtain ⟨a, ha, hid, ht⟩ := h.member k hk
    exact ⟨a, he ▸ List.mem_append_left _ ha, hid, ht⟩
  · intro a ha turnId ht
    rw [he] at ha
    rw [hf.turnLinks]
    rcases List.mem_append.mp ha with ha | ha
    · exact h.complete a ha turnId ht
    · rw [(hu a ha).turn] at ht
      cases ht
  · rw [hf.turnLinks]
    exact h.logged

theorem LinksHold.quiet (h : LinksHold l log) {m : Mutation} (hm : m.seats = false) (crashed : Bool) (r : Reply) :
    LinksHold (m.effect f l) (logOf l log (.call (.mutate m f) crashed) (.ok r)) := by
  have hno : m.accepts = none := by cases m <;> first | rfl | cases hm
  have hlog : logOf l log (.call (.mutate m f) crashed) (.ok r) = log := by
    simp [logOf, StoreInput.mutation, hno]
  rw [hlog]
  obtain ⟨hs, hk⟩ := @effect_seats l f m hm
  exact h.same hs hk

/-- What one call preserves. -/
theorem LinksHold.effect (h : LinksHold l log) {m : Mutation} {crashed : Bool}
    (hok : l.Tidy (.call (.mutate m f) crashed)) (r : Reply) :
    LinksHold (m.effect f l) (logOf l log (.call (.mutate m f) crashed) (.ok r)) := by
  obtain ⟨haccept, hrequeue⟩ := hok m rfl
  cases m with
  | markAccepted a t u => exact h.acceptId (haccept a t u rfl)
  | finalizeDispatch a t u b => exact (h.acceptId (f := f) (t := t) (haccept a t u rfl)).same rfl rfl
  | requeueMissingThread identity threadId reason =>
      refine LinksHold.same (@LinksHold.requeueTurns log _ ?_ ?_ reason f.now _ (0, l) h hrequeue) rfl rfl
      · exact fun _ => rfl
      · exact fun _ => ⟨rfl, rfl⟩
  | requeueMissingTurn identity threadId turnId reason =>
      change LinksHold (Mutation.effect f l (.requeueMissingTurn identity threadId turnId reason)) log
      simp only [Mutation.effect]
      split
      · next hc =>
          simp only [Mutation.requeues, if_pos hc] at hrequeue
          refine @LinksHold.requeueTurns log _ ?_ ?_ reason f.now [turnId] (0, l) h hrequeue
          · exact fun _ => rfl
          · exact fun _ => ⟨rfl, rfl⟩
      · exact h
  | interruptTurnForControl turnId reason =>
      change LinksHold (Mutation.effect f l (.interruptTurnForControl turnId reason)) log
      simp only [Mutation.effect]
      split
      · exact h.interruptTurn turnId reason
      · exact h
  | _ => exact h.quiet rfl crashed r

theorem logOf_other {i : StoreInput} (hi : i.mutation = none) (o : Except Fault Reply) : logOf l log i o = log := by
  simp [logOf, hi]

theorem logOf_error (i : StoreInput) (e : Fault) : logOf l log i (.error e) = log := by
  unfold logOf
  split
  · next h => cases h
  · rfl

/-- What one step of the store preserves. -/
theorem step_links {py : Python} {s : Logged} {i : StoreInput} (h : LinksHold s.ledger s.log) (hok : s.ledger.Tidy i) :
    LinksHold ((loggedStore py).step s i).2.ledger ((loggedStore py).step s i).2.log := by
  simp only [loggedStore]
  rcases storeStep_cases py s.ledger i with ⟨e, hs⟩ | ⟨hi, hf⟩ | ⟨m, f, crashed, r, rfl, hs⟩
  · rw [hs, logOf_error]
    exact h
  · rw [logOf_other hi]
    exact h.filed hf
  · rw [hs]
    exact h.effect hok r

/-! ## Whose turn it is -/

/-- The identity, the server and the room of an attention. -/
def Attention.place (a : Attention) : String × String × String := (a.identity, a.server, a.room)

def Turn.place (t : Turn) : String × String × String := (t.identity, t.server, t.room)

def Thread.place (t : Thread) : String × String × String := (t.identity, t.server, t.room)

/-- The thread that a call maps a place to, and the place. -/
def Mutation.maps : Mutation → Option (String × String × String × String)
  | .setThread identity server room threadId => some (threadId, identity, server, room)
  | _ => none

/-- A thread is one room's for good; an attention is accepted through the thread that its room is mapped to,
into a turn of that thread. -/
def Ledger.Housed (home : String → String × String × String) (l : Ledger) (i : StoreInput) : Prop :=
  ∀ m, i.mutation = some m →
    (∀ threadId place, m.maps = some (threadId, place) → home threadId = place) ∧
    ∀ a t u, m.accepts = some (a, t, u) → (∀ row, l.attention? a = some row →
      ∃ x ∈ l.threads, x.threadId = t ∧ x.place = row.place) ∧ ∀ turn, l.turn? u = some turn → turn.threadId = t

instance (home : String → String × String × String) (l : Ledger) (i : StoreInput) : Decidable (l.Housed home i) :=
  decidable_of_iff (∀ m ∈ i.mutation.toList,
    (∀ x ∈ m.maps.toList, home x.1 = x.2) ∧
    ∀ x ∈ m.accepts.toList, (∀ row ∈ (l.attention? x.1).toList,
      ∃ y ∈ l.threads, y.threadId = x.2.1 ∧ y.place = row.place) ∧
      ∀ turn ∈ (l.turn? x.2.2).toList, turn.threadId = x.2.1) <| by
    simp only [Ledger.Housed, Option.mem_toList, Prod.forall]

theorem sublist_of_eq {α : Type} {a b : List α} (h : a = b) : a.Sublist b := h ▸ List.Sublist.refl _

structure Roomed (home : String → String × String × String) (l : Ledger) : Prop where
  turnIds : (l.turns.map Turn.turnId).Nodup
  threads : ∀ x ∈ l.threads, home x.threadId = x.place
  turns : ∀ t ∈ l.turns, home t.threadId = t.place
  links : ∀ k ∈ l.turnLinks, ∃ t ∈ l.turns, t.turnId = k.turnId ∧
    ∀ a ∈ l.attentions, a.attentionId = k.attentionId → a.place = t.place

theorem requeueTurn_rest (back : Attention → Attention) (reason : String) (now : Int) (acc : Nat × Ledger)
    (turnId : String) : (Ledger.requeueTurn back reason now acc turnId).2.turnLinks.Sublist acc.2.turnLinks ∧
      (Ledger.requeueTurn back reason now acc turnId).2.threads = acc.2.threads := by
  unfold Ledger.requeueTurn
  dsimp only
  split
  · exact ⟨List.Sublist.refl _, rfl⟩
  · exact ⟨List.filter_sublist, rfl⟩

theorem interruptAttention_threads (turnId reason : String) (now : Int) (acc : Nat × Ledger) (a : Attention) :
    (Ledger.interruptAttention turnId reason now acc a).2.threads = acc.2.threads := by
  unfold Ledger.interruptAttention
  split <;> rfl

/-- Apart from an acceptance and a new thread, links and threads only go. -/
theorem effect_rest {m : Mutation} (hm : m.accepts = none) (hno : m.maps = none) :
    (m.effect f l).turnLinks.Sublist l.turnLinks ∧ (m.effect f l).threads.Sublist l.threads := by
  cases m with
  | setThread identity server room threadId => cases hno
  | markAccepted a t u => cases hm
  | finalizeDispatch a t u b => cases hm
  | requeueMissingThread identity threadId reason =>
      simp only [Mutation.effect]
      have hloop : ∀ (turns : List String) (acc : Nat × Ledger),
          (turns.foldl (Ledger.requeueTurn (Attention.requeued reason f.now) reason f.now) acc).2.turnLinks.Sublist
            acc.2.turnLinks ∧
          (turns.foldl (Ledger.requeueTurn (Attention.requeued reason f.now) reason f.now) acc).2.threads =
            acc.2.threads := by
        intro turns
        induction turns with
        | nil => exact fun acc => ⟨List.Sublist.refl _, rfl⟩
        | cons t turns ih =>
            intro acc
            obtain ⟨h₁, h₂⟩ := requeueTurn_rest (Attention.requeued reason f.now) reason f.now acc t
            obtain ⟨h₃, h₄⟩ := ih (Ledger.requeueTurn (Attention.requeued reason f.now) reason f.now acc t)
            exact ⟨h₃.trans h₁, h₄.trans h₂⟩
      obtain ⟨h₁, h₂⟩ := hloop ((l.turns.filter fun t => t.identity = identity && t.threadId = threadId &&
        t.completedAtMs.isNone).map Turn.turnId) (0, l)
      exact ⟨h₁, by rw [h₂]; exact List.filter_sublist⟩
  | requeueMissingTurn identity threadId turnId reason =>
      simp only [Mutation.effect]
      split
      · obtain ⟨h₁, h₂⟩ := requeueTurn_rest
          (fun r => { r.requeued reason f.now with firstResponseAtMs := none }) reason f.now (0, l) turnId
        exact ⟨h₁, by rw [h₂]⟩
      · exact ⟨List.Sublist.refl _, List.Sublist.refl _⟩
  | interruptTurnForControl turnId reason =>
      simp only [Mutation.effect]
      split
      · constructor
        · refine Sys.foldl_rel (R := fun b b' : Nat × Ledger => b'.2.turnLinks.Sublist b.2.turnLinks)
            (fun _ => List.Sublist.refl _) (fun _ _ _ h₁ h₂ => h₂.trans h₁) ?_ _ _
          exact fun acc a => interruptAttention_links turnId reason f.now acc a
        · refine (sublist_of_eq (foldl_view (fun acc : Nat × Ledger => acc.2.threads) ?_ _ _))
          exact fun acc a => interruptAttention_threads turnId reason f.now acc a
      · exact ⟨List.Sublist.refl _, List.Sublist.refl _⟩
  | closeRoomForControl control reason =>
      refine ⟨sublist_of_eq (effect_seats rfl).2, ?_⟩
      simp only [Mutation.effect]
      split
      · exact List.Sublist.refl _
      · exact List.filter_sublist
  | reapStaleTurnsAfterRecovery identity =>
      refine ⟨sublist_of_eq (effect_seats rfl).2, sublist_of_eq ?_⟩
      refine foldl_view (fun l : Ledger => l.threads) ?_ _ l
      exact fun _ _ => rfl
  | markRelayAccepted op =>
      refine ⟨sublist_of_eq (effect_seats rfl).2, sublist_of_eq ?_⟩
      simp only [Mutation.effect]
      split
      · rfl
      · refine foldl_view (fun l : Ledger => l.threads) ?_ _ _
        exact fun _ _ => rfl
  | markTurnCompleted turnId status reason =>
      refine ⟨sublist_of_eq (effect_seats rfl).2, sublist_of_eq ?_⟩
      simp only [Mutation.effect]
      split
      · unfold Ledger.completeTurn
        dsimp only
        split <;> rfl
      · rfl
  | _ =>
      refine ⟨sublist_of_eq (effect_seats rfl).2, sublist_of_eq ?_⟩
      simp only [Mutation.effect]
      repeat' split
      all_goals rfl

theorem linkTurn_new {turnId attentionId : String} {k : TurnLink}
    (h : k ∈ (l.linkTurn turnId attentionId).turnLinks) :
    k ∈ l.turnLinks ∨ k.turnId = turnId ∧ k.attentionId = attentionId := by
  unfold Ledger.linkTurn at h
  dsimp only at h
  split at h
  · exact .inl h
  · rcases List.mem_append.mp h with h | h
    · exact .inl h
    · rw [List.mem_singleton.mp h]
      exact .inr ⟨rfl, rfl⟩

/-- Only an acceptance links, and only what it accepts. -/
theorem effect_link {m : Mutation} {k : TurnLink} (hk : k ∈ (m.effect f l).turnLinks) :
    k ∈ l.turnLinks ∨ (l.attention? k.attentionId).isSome ∧ ∃ t, m.accepts = some (k.attentionId, t, k.turnId) := by
  have hin : ∀ a t u, k ∈ (l.acceptId f a t u).turnLinks →
      k ∈ l.turnLinks ∨ (l.attention? a).isSome ∧ k.turnId = u ∧ k.attentionId = a := by
    intro a t u h
    unfold Ledger.acceptId at h
    split at h
    · exact .inl h
    · next row hrow =>
        rw [accept_turnLinks, (attention_some hrow).2] at h
        rw [hrow]
        exact (linkTurn_new h).imp_right fun he => ⟨rfl, he⟩
  cases m with
  | setThread identity server room threadId => exact .inl hk
  | markAccepted a t u =>
      rcases hin a t u hk with h | ⟨hrow, rfl, rfl⟩
      · exact .inl h
      · exact .inr ⟨hrow, t, rfl⟩
  | finalizeDispatch a t u b =>
      rcases hin a t u hk with h | ⟨hrow, rfl, rfl⟩
      · exact .inl h
      · exact .inr ⟨hrow, t, rfl⟩
  | _ => exact .inl ((effect_rest rfl rfl).1.subset hk)

/-! What one call preserves of the places, part by part. -/

theorem mem_of_fixed {a : Attention} (h : l'.attentions.map Attention.fixed = l.attentions.map Attention.fixed)
    (ha : a ∈ l'.attentions) : ∃ b ∈ l.attentions, b.attentionId = a.attentionId ∧ b.place = a.place := by
  have hm : a.fixed ∈ l.attentions.map Attention.fixed := h ▸ List.mem_map_of_mem ha
  obtain ⟨b, hb, he⟩ := List.mem_map.mp hm
  simp only [Attention.fixed, Prod.mk.injEq] at he
  exact ⟨b, hb, he.1, by simp only [Attention.place, he]⟩

theorem turn_of_fixed {t : Turn} (h : l'.turns.map Turn.fixed = l.turns.map Turn.fixed)
    (ht : t ∈ l.turns) : ∃ u ∈ l'.turns, u.turnId = t.turnId ∧ u.threadId = t.threadId ∧ u.place = t.place := by
  have hm : t.fixed ∈ l'.turns.map Turn.fixed := h ▸ List.mem_map_of_mem ht
  obtain ⟨u, hu, he⟩ := List.mem_map.mp hm
  simp only [Turn.fixed, Prod.mk.injEq] at he
  exact ⟨u, hu, he.1, he.2.2.2.2, by simp only [Turn.place, he]⟩

variable {home : String → String × String × String}

/-- Turns and attentions keep their places, and links and threads only go. -/
theorem Roomed.fewer (h : Roomed home l) (ha : l'.attentions.map Attention.fixed = l.attentions.map Attention.fixed)
    (ht : l'.turns.map Turn.fixed = l.turns.map Turn.fixed) (hk : l'.turnLinks.Sublist l.turnLinks)
    (hx : ∀ x ∈ l'.threads, home x.threadId = x.place) : Roomed home l' where
  turnIds := by
    have := congrArg (List.map Prod.fst) ht
    simp only [List.map_map] at this
    exact (this : l'.turns.map Turn.turnId = l.turns.map Turn.turnId) ▸ h.turnIds
  threads := hx
  turns := by
    intro t hmem
    obtain ⟨u, hu, -, hthread, hplace⟩ := turn_of_fixed ht.symm hmem
    rw [← hthread, ← hplace]
    exact h.turns u hu
  links := by
    intro k hmem
    obtain ⟨t, hin, htk, hall⟩ := h.links k (hk.subset hmem)
    obtain ⟨u, hu, hut, -, hplace⟩ := turn_of_fixed ht hin
    refine ⟨u, hu, hut.trans htk, fun a hin' hid => ?_⟩
    obtain ⟨b, hb, hbid, hbp⟩ := mem_of_fixed ha hin'
    rw [hplace, ← hbp]
    exact hall b hb (hbid.trans hid)

theorem accept_threads (a : Attention) (threadId turnId : String) :
    (l.accept f a threadId turnId).threads = l.threads := by
  simp only [Ledger.accept, Ledger.updateAttentions, linkTurn_threads]

/-- An attention enters a turn of its own room's thread. -/
theorem Roomed.accept (h : Roomed home l) (hids : (l.attentions.map Attention.attentionId).Nodup) {a : Attention}
    (ha : a ∈ l.attentions) {threadId turnId : String}
    (hthread : ∃ x ∈ l.threads, x.threadId = threadId ∧ x.place = a.place)
    (hturn : ∀ turn, l.turn? turnId = some turn → turn.threadId = threadId) :
    Roomed home (l.accept f a threadId turnId) := by
  obtain ⟨x, hx, rfl, hplace⟩ := hthread
  have hhome : home x.threadId = a.place := (h.threads x hx).trans hplace
  have hfixed : (l.accept f a x.threadId turnId).attentions.map Attention.fixed =
      l.attentions.map Attention.fixed := by
    refine (updateAttentions_fixed ?_ _).trans ?_
    · exact fun _ => rfl
    · rw [linkTurn_attentions]
  refine ⟨?_, ?_, ?_, ?_⟩
  · rw [accept_turns]
    exact nodup_insertIgnore h.turnIds
  · rw [accept_threads]
    exact h.threads
  · intro t ht
    rw [accept_turns, mem_insertIgnore] at ht
    rcases ht with ht | ⟨rfl, -⟩
    · exact h.turns t ht
    · exact hhome
  · intro k hk
    rw [accept_turnLinks] at hk
    rcases linkTurn_new hk with hk | ⟨hkt, hka⟩
    · obtain ⟨t, ht, htk, hall⟩ := h.links k hk
      refine ⟨t, by rw [accept_turns, mem_insertIgnore]; exact .inl ht, htk, fun b hb hid => ?_⟩
      obtain ⟨c, hc, hcid, hcp⟩ := mem_of_fixed hfixed hb
      exact hcp.symm.trans (hall c hc (hcid.trans hid))
    · have hown : ∀ b ∈ (l.accept f a x.threadId turnId).attentions, b.attentionId = k.attentionId →
          b.place = a.place := by
        intro b hb hid
        obtain ⟨c, hc, hcid, hcp⟩ := mem_of_fixed hfixed hb
        rw [← hcp, eq_of_key hids hc ha (hcid.trans (hid.trans hka))]
      -- the turn is there already, and of this thread, or it is opened at the attention's place
      cases hfind : l.turn? turnId with
      | some t =>
          have hin : t ∈ l.turns := List.mem_of_find?_eq_some hfind
          have hid : t.turnId = turnId := by simpa using List.find?_some hfind
          refine ⟨t, by rw [accept_turns, mem_insertIgnore]; exact .inl hin, hid.trans hkt.symm, fun b hb hb' => ?_⟩
          rw [hown b hb hb', ← hhome, ← hturn t hfind]
          exact h.turns t hin
      | none =>
          refine ⟨⟨turnId, a.identity, a.server, a.room, x.threadId, f.epoch, f.now, none, none, none⟩, ?_, hkt.symm,
            fun b hb hb' => hown b hb hb'⟩
          rw [accept_turns, mem_insertIgnore]
          refine .inr ⟨rfl, fun t ht he => ?_⟩
          exact absurd (List.find?_eq_none.mp hfind t ht) (by simpa using he)

/-- What one call preserves. -/
theorem Roomed.effect (h : Roomed home l) (hids : (l.attentions.map Attention.attentionId).Nodup) {m : Mutation}
    {crashed : Bool} (hok : l.Housed home (.call (.mutate m f) crashed)) : Roomed home (m.effect f l) := by
  obtain ⟨hset, haccept⟩ := hok m rfl
  have hin : ∀ a t u, m.accepts = some (a, t, u) → Roomed home (l.acceptId f a t u) := by
    intro a t u hm
    unfold Ledger.acceptId
    split
    · exact h
    · next row hrow =>
        obtain ⟨hx, hturn⟩ := haccept a t u hm
        exact h.accept hids (attention_some hrow).1 (hx row hrow) hturn
  have hquiet : m.accepts = none → m.maps = none → Roomed home (m.effect f l) := by
    intro hm hno
    obtain ⟨hk, hx⟩ := effect_rest (l := l) (f := f) hm hno
    exact h.fewer (effect_fixed m) (effect_turns hm) hk fun x hmem => h.threads x (hx.subset hmem)
  cases m with
  | setThread identity server room threadId =>
      refine h.fewer rfl rfl (List.Sublist.refl _) fun x hx => ?_
      have hhome := hset threadId (identity, server, room) rfl
      simp only [Mutation.effect] at hx
      rcases insertOrUpdate_cases (fun t : Thread => (t.server, t.room, t.identity))
        ⟨server, room, identity, threadId, f.epoch, f.now, f.now⟩
        (fun t => { t with threadId := threadId, leaseEpoch := f.epoch, updatedAtMs := f.now }) l.threads
        with ⟨-, hc⟩ | ⟨-, hc⟩
      · rw [hc, mem_updateWhere] at hx
        obtain ⟨y, hy, rfl⟩ := hx
        split
        · next hkey =>
            simp only [Prod.mk.injEq, decide_eq_true_eq] at hkey
            simp only [Thread.place, hkey, hhome]
        · exact h.threads y hy
      · rw [hc] at hx
        rcases List.mem_append.mp hx with hx | hx
        · exact h.threads x hx
        · rw [List.mem_singleton.mp hx]
          exact hhome
  | markAccepted a t u => exact hin a t u rfl
  | finalizeDispatch a t u b => exact (hin a t u rfl).fewer rfl rfl (List.Sublist.refl _) (hin a t u rfl).threads
  | _ => exact hquiet rfl rfl

theorem Roomed.filed (h : Roomed home l) (hl : LinksHold l log) (hf : Filed l l') : Roomed home l' := by
  obtain ⟨new, he, -, -, hfree⟩ := hf.attentions
  refine ⟨by rw [hf.turns]; exact h.turnIds, by rw [hf.threads]; exact h.threads, by rw [hf.turns]; exact h.turns, ?_⟩
  intro k hk
  rw [hf.turnLinks] at hk
  obtain ⟨t, ht, htk, hall⟩ := h.links k hk
  refine ⟨t, by rw [hf.turns]; exact ht, htk, fun a ha hid => ?_⟩
  rw [he] at ha
  rcases List.mem_append.mp ha with ha | ha
  · exact hall a ha hid
  · obtain ⟨b, hb, hbid, -⟩ := hl.member k hk
    exact absurd (hbid.trans hid.symm) (hfree a ha b hb)

/-- What one step of the store preserves. -/
theorem step_roomed {py : Python} {s : Logged} {i : StoreInput} (h : Roomed home s.ledger)
    (hl : LinksHold s.ledger s.log) (hok : s.ledger.Housed home i) :
    Roomed home ((loggedStore py).step s i).2.ledger := by
  simp only [loggedStore]
  rcases storeStep_cases py s.ledger i with ⟨e, hs⟩ | ⟨-, hf⟩ | ⟨m, f, crashed, r, rfl, hs⟩
  · rw [hs]
    exact h
  · exact h.filed hl hf
  · rw [hs]
    exact h.effect hl.ids hok

end

/-! ## The law -/

section

variable {l : Ledger} {log : List (String × String)}

/-- The links of a turn are already in the order that the query asks for. -/
theorem LinksHold.linkedTo_eq (h : LinksHold l log) (turnId : String) :
    l.linkedTo turnId = (l.turnLinks.filter fun k => k.turnId = turnId).map TurnLink.attentionId := by
  unfold Ledger.linkedTo orderBy
  rw [List.Pairwise.insertionSort_eq]
  refine (h.ordered.filter _).imp_of_mem fun {k k'} hk hk' hlt => ?_
  simp only [List.mem_filter, decide_eq_true_eq] at hk hk'
  exact le_of_lt (hlt (hk.2.trans hk'.2.symm))

theorem LinksHold.linkedTo_logged (h : LinksHold l log) (turnId : String) :
    (l.linkedTo turnId).Sublist ((log.filter fun e => e.1 = turnId).map Prod.snd) := by
  rw [h.linkedTo_eq]
  have hsub := (h.logged.filter fun e => e.1 = turnId).map Prod.snd
  rw [List.filter_map, List.map_map] at hsub
  exact hsub

theorem LinksHold.linkedTo_nodup (h : LinksHold l log) (turnId : String) : (l.linkedTo turnId).Nodup :=
  (h.once.sublist (List.filter_sublist.map _)).sublist (h.linkedTo_logged turnId)

theorem LinksHold.positions_nodup (h : LinksHold l log) (turnId : String) :
    ((l.turnLinks.filter fun k => k.turnId = turnId).map TurnLink.position).Nodup := by
  refine List.pairwise_map.mpr ((h.ordered.filter _).imp_of_mem fun {k k'} hk hk' hlt => ?_)
  simp only [List.mem_filter, decide_eq_true_eq] at hk hk'
  exact Nat.ne_of_lt (hlt (hk.2.trans hk'.2.symm))

/-- The rows that the query returns, by their ids. -/
theorem acceptedForTurn_ids (turnId : String) : (l.acceptedForTurn turnId).map Attention.attentionId =
    (l.linkedTo turnId).filter fun id => (l.attention? id).any fun a => a.terminalStatus.isNone := by
  unfold Ledger.acceptedForTurn
  induction l.linkedTo turnId with
  | nil => rfl
  | cons id ids ih =>
      cases hrow : l.attention? id with
      | none => simp [hrow, ih]
      | some a =>
          have hid := (attention_some hrow).2
          rw [List.filterMap_cons, List.filter_cons, hrow]
          cases hterm : a.terminalStatus with
          | none => simpa [Option.filter, hterm, hid] using ih
          | some status => simpa [Option.filter, hterm] using ih

theorem LinksHold.listed_once (h : LinksHold l log) {a : Attention} (ha : a ∈ l.attentions) {turnId : String}
    (ht : a.turnId = some turnId) (hlive : a.terminalStatus = none) :
    ((l.acceptedForTurn turnId).map Attention.attentionId).count a.attentionId = 1 := by
  rw [acceptedForTurn_ids]
  refine List.count_eq_one_of_mem ((h.linkedTo_nodup turnId).filter _) (List.mem_filter.mpr ⟨?_, ?_⟩)
  · obtain ⟨k, hk, hkt, hka⟩ := h.complete a ha turnId ht
    exact mem_linkedTo.mpr ⟨k, hk, hkt, hka⟩
  · simp [attention_of_mem h.ids ha, hlive]

end

/-- What the links of a turn say, by the log of acceptances. -/
structure TurnLinksLaw (l : Ledger) (log : List (String × String)) (turnId : String) : Prop where
  complete : ∀ a ∈ l.attentions, a.turnId = some turnId → a.acceptedAtMs.isSome → a.attentionId ∈ l.linkedTo turnId
  distinct : ((l.turnLinks.filter fun k => k.turnId = turnId).map TurnLink.position).Nodup
  inOrder : (l.linkedTo turnId).Sublist ((log.filter fun e => e.1 = turnId).map Prod.snd)
  listed : ∀ a ∈ l.attentions, a.turnId = some turnId → a.acceptedAtMs.isSome → a.terminalStatus = none →
    ((l.acceptedForTurn turnId).map Attention.attentionId).count a.attentionId = 1

theorem links_init {py : Python} (s : Logged) (hs : (loggedStore py).init s) : LinksHold s.ledger s.log := by
  obtain rfl : s = ⟨{}, []⟩ := hs
  exact ⟨List.nodup_nil, List.Pairwise.nil, fun _ h => (List.not_mem_nil h).elim, fun _ h => (List.not_mem_nil h).elim,
    List.Sublist.refl _, List.nodup_nil⟩

theorem roomed_init {py : Python} {home : String → String × String × String} (s : Logged)
    (hs : (loggedStore py).init s) : Roomed home s.ledger := by
  obtain rfl : s = ⟨{}, []⟩ := hs
  exact ⟨List.nodup_nil, fun _ h => (List.not_mem_nil h).elim, fun _ h => (List.not_mem_nil h).elim,
    fun _ h => (List.not_mem_nil h).elim⟩

/-- In every run of the store's calls that keeps the turns tidy, the links of every turn are complete, distinct and in
the order of acceptance, and the query lists every live attention once; where each attention is accepted through its own
room's thread, they all share the turn's place. -/
theorem turn_links_complete {py : Python} {tr : List (StoreInput × Except Fault Reply)} {s : Logged}
    (r : Sys.Run (loggedStore py) (fun s i => s.ledger.Tidy i) tr s) :
    (∀ turnId, TurnLinksLaw s.ledger s.log turnId) ∧
    ∀ home, Sys.Run (loggedStore py) (fun s i => s.ledger.Housed home i) tr s →
      ∀ t ∈ s.ledger.turns, ∀ a ∈ s.ledger.attentions, a.attentionId ∈ s.ledger.linkedTo t.turnId →
        a.place = t.place := by
  have h : LinksHold s.ledger s.log :=
    Sys.Run.invariant (I := fun s => LinksHold s.ledger s.log) links_init (fun s i hs hok => step_links hs hok) r
  refine ⟨fun turnId => ⟨?_, h.positions_nodup turnId, h.linkedTo_logged turnId, ?_⟩, ?_⟩
  · intro a ha ht _
    obtain ⟨k, hk, hkt, hka⟩ := h.complete a ha turnId ht
    exact mem_linkedTo.mpr ⟨k, hk, hkt, hka⟩
  · exact fun a ha ht _ hlive => h.listed_once ha ht hlive
  · intro home r' t ht a ha hid
    obtain ⟨-, rboth⟩ := r.both (fun s s' (hs : s = _) (hs' : s' = _) => hs.trans hs'.symm) r'
    have hroom : LinksHold s.ledger s.log ∧ Roomed home s.ledger :=
      Sys.Run.invariant (I := fun s => LinksHold s.ledger s.log ∧ Roomed home s.ledger)
        (fun s hs => ⟨links_init s hs, roomed_init s hs⟩)
        (fun s i hs hok => ⟨step_links hs.1 hok.1, step_roomed hs.2 hs.1 hok.2⟩) rboth
    obtain ⟨k, hk, hkt, hka⟩ := mem_linkedTo.mp hid
    obtain ⟨u, hu, huk, hall⟩ := hroom.2.links k hk
    rw [← eq_of_key hroom.2.turnIds hu ht (huk.trans hkt)]
    exact hall a ha hka.symm

/-! Two calls of one room in one turn, then a turn that is interrupted and goes on. -/

def twoCalls : List Delivery := [⟨"1", "den", "explicit_task"⟩, ⟨"2", "den", "direct_user"⟩, ⟨"3", "den", "direct_user"⟩]

def sampleHome (threadId : String) : String × String × String :=
  if threadId = "thread-1" then ("reviewer", "http://loca-3215636", "den") else ("", "", "")

def steeredTurn : List StoreInput := opened twoCalls ++
  [(Mutation.setThread "reviewer" "http://loca-3215636" "den" "thread-1").at 1,
    (Mutation.markAccepted (attentionNo "2") "thread-1" "turn-1").at 2,
    (Mutation.markAccepted (attentionNo "1") "thread-1" "turn-1").at 3]

def afterSteer : List (StoreInput × Except Fault Reply) × Logged :=
  (loggedStore (clerk twoCalls)).exec steeredTurn [] ⟨{}, []⟩

theorem turn_links_complete_sample :
    afterSteer.2.ledger.linkedTo "turn-1" = [attentionNo "2", attentionNo "1"] ∧
    TurnLinksLaw afterSteer.2.ledger afterSteer.2.log "turn-1" ∧
    ∀ t ∈ afterSteer.2.ledger.turns, ∀ a ∈ afterSteer.2.ledger.attentions,
      a.attentionId ∈ afterSteer.2.ledger.linkedTo t.turnId → a.place = t.place := by
  obtain ⟨htidy, hhoused, hlinked⟩ :
      (loggedStore (clerk twoCalls)).Admits (fun s i => s.ledger.Tidy i) steeredTurn ⟨{}, []⟩ ∧
      (loggedStore (clerk twoCalls)).Admits (fun s i => s.ledger.Housed sampleHome i) steeredTurn ⟨{}, []⟩ ∧
      afterSteer.2.ledger.linkedTo "turn-1" = [attentionNo "2", attentionNo "1"] := by
    decide +kernel
  have h := turn_links_complete (Sys.Run.exec steeredTurn htidy (.nil rfl))
  exact ⟨hlinked, h.1 "turn-1", h.2 sampleHome (Sys.Run.exec steeredTurn hhoused (.nil rfl))⟩

/-- The turn is interrupted, its first call goes back, and a third call enters it: the count of its links is a position
that is taken. -/
def steeredPastStop : List StoreInput := opened twoCalls ++
  [(Mutation.markAccepted (attentionNo "1") "thread-1" "turn-1").at 1,
    (Mutation.markAccepted (attentionNo "2") "thread-1" "turn-1").at 2,
    (Mutation.interruptTurnForControl "turn-1" "stopped").at 3,
    (Mutation.markAccepted (attentionNo "3") "thread-1" "turn-1").at 4]

def pastStop : List (StoreInput × Except Fault Reply) × Logged :=
  (loggedStore (clerk twoCalls)).exec steeredPastStop [] ⟨{}, []⟩

theorem third_call_unlinked :
    ¬ ∀ (py : Python) (tr : List (StoreInput × Except Fault Reply)) (s : Logged),
      Sys.Run (loggedStore py) (fun _ _ => True) tr s → ∀ turnId, TurnLinksLaw s.ledger s.log turnId := by
  intro h
  have hrun : Sys.Run (loggedStore (clerk twoCalls)) (fun _ _ => True) pastStop.1 pastStop.2 :=
    Sys.Run.exec steeredPastStop (Sys.Machine.admits_of_all (fun _ _ => trivial) _ _) (.nil rfl)
  have hlaw := (h _ _ _ hrun "turn-1").complete
  have hout : ∃ a ∈ pastStop.2.ledger.attentions, a.turnId = some "turn-1" ∧ a.acceptedAtMs.isSome = true ∧
      a.attentionId ∉ pastStop.2.ledger.linkedTo "turn-1" := by
    decide +kernel
  obtain ⟨a, ha, ht, hacc, hno⟩ := hout
  exact hno (hlaw a ha ht hacc)

end Loca.Adapter
