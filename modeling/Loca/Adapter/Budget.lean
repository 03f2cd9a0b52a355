/-
# `Loca.Adapter.Budget` — how much a turn may say

Every item that the model completes leaves at most one relay, whatever its phase and however often it
is replayed, and the last held item one more when its turn completes without a final answer.  Finals
and commentary go out on a budget that is computed from the relays themselves: a final needs an
attention of the turn that no final covers, a second commentary needs a direct attention that no
commentary covers.  Where the attentions of the turn are linked to it, the relay then covers that
attention, and the number of relays stays below the number of attentions.

`joined` is the history of acceptances, every pair once; nothing looks at it.
-/
import Mathlib.Data.Finset.Card
import Loca.Adapter.Links
import Loca.Adapter.Runtime

namespace Loca.Adapter

open Check Table Act Sys.Prog

/-! ## The machine -/

structure Budgeted where
  world : World
  /-- Each turn and each attention that was ever accepted into it. -/
  joined : List (String × String)

inductive OutputInput
  | store (i : StoreInput)
  | item (turnId : String) (i : Item) (outside : List Outside)
  | turnCompleted (threadId : String) (turn : CodexTurn) (outside : List Outside)
  /-- Another process, whatever it remembers. -/
  | restart (memory : Option Memory)

/-- A call that succeeds joins what it accepts. -/
def joinedBy (l : Ledger) (joined : List (String × String)) (i : StoreInput) (o : Except Fault Reply) :
    List (String × String) :=
  match i.mutation.bind Mutation.accepts, o with
  | some (a, _, u), .ok _ => if (l.attention? a).isSome && !joined.contains (u, a) then joined ++ [(u, a)] else joined
  | _, _ => joined

def Budgeted.step (cfg : Config) (s : Budgeted) : OutputInput → Unit × Budgeted
  | .store i => ((), ⟨{ s.world with ledger := (s.world.ledger.storeStep cfg.py i).2 },
      joinedBy s.world.ledger s.joined i (s.world.ledger.storeStep cfg.py i).1⟩)
  | .item turnId i outside => ((), { s with world := (exec (host cfg) (handleAgentItem cfg turnId i) outside s.world).2 })
  | .turnCompleted threadId turn outside =>
      ((), { s with world := (exec (host cfg) (handleTurnCompleted cfg threadId turn) outside s.world).2 })
  | .restart memory => ((), { s with world := { s.world with memory := memory } })

def outputMachine (cfg : Config) : Sys.Machine Budgeted OutputInput Unit where
  init s := s.world.ledger = {} ∧ s.joined = []
  step := Budgeted.step cfg

/-! ## Counting -/

/-- Promoted when its turn completed: a final without a phase. -/
def RelayItem.promoted (r : RelayItem) : Bool := r.relayKind = "final" && r.phase.isNone

namespace Ledger

variable (l : Ledger)

def relaysOf (turnId kind : String) : List RelayItem := l.relays.filter fun r => r.turnId = turnId && r.relayKind = kind

def direct (id : String) : Bool := (l.attention? id).any isDirect

/-- Every working attention of the turn is one that the turn's query lists. -/
def Linked (turnId : String) : Prop :=
  ∀ a ∈ l.attentions, working turnId a = true → a.attentionId ∈ (l.acceptedForTurn turnId).map Attention.attentionId

instance (turnId : String) : Decidable (l.Linked turnId) := by unfold Linked; infer_instance

end Ledger

/-- The attentions that were ever accepted into a turn. -/
def Budgeted.accepted (s : Budgeted) (turnId : String) : List String :=
  (s.joined.filter fun e => e.1 = turnId).map Prod.snd

structure BudgetInv (turnId : String) (joined : List (String × String)) (l : Ledger) : Prop where
  keyed : Keyed l
  once : joined.Nodup
  present : ∀ e ∈ joined, ∃ a ∈ l.attentions, a.attentionId = e.2
  links : ∀ k ∈ l.turnLinks, (k.turnId, k.attentionId) ∈ joined
  covered : ∀ r ∈ l.relays, ∀ id ∈ r.coveredAttentionIds, (r.turnId, id) ∈ joined
  items : ∀ r ∈ l.relays, ∀ r' ∈ l.relays, r.turnId = r'.turnId → r.itemId = r'.itemId → r.promoted = r'.promoted →
    r.opId = r'.opId
  held : ∀ r ∈ l.relays, r.promoted = true → ∃ c ∈ l.relays, c.turnId = r.turnId ∧ c.relayKind = "candidate" ∧
    r.itemId = c.itemId ++ ":fallback"
  finals : (l.relaysOf turnId "final").length ≤ (l.coverage turnId "final").toFinset.card
  commentary : (l.relaysOf turnId "commentary").length ≤
    1 + ((l.coverage turnId "commentary").toFinset.filter fun id => l.direct id = true).card

section

variable {cfg : Config} {turnId : String} {joined joined' : List (String × String)} {l l' : Ledger} {f : Fence}

theorem coverage_eq (turnId kind : String) :
    l.coverage turnId kind = ((l.relaysOf turnId kind).map RelayItem.coveredAttentionIds).flatten := rfl

/-- What the relays of a turn and a kind cover depends only on what no call writes. -/
theorem relaysOf_fixed (h : l'.relays.map RelayItem.fixed = l.relays.map RelayItem.fixed) (turnId kind : String) :
    (l'.relaysOf turnId kind).map RelayItem.fixed = (l.relaysOf turnId kind).map RelayItem.fixed := by
  have hf : ∀ rs : List RelayItem, (rs.filter fun r => r.turnId = turnId && r.relayKind = kind).map RelayItem.fixed =
      (rs.map RelayItem.fixed).filter fun t => t.2.2.1 = turnId && t.2.2.2.2.1 = kind := by
    intro rs
    rw [List.filter_map]
    rfl
  rw [Ledger.relaysOf, Ledger.relaysOf, hf, hf, h]

theorem coverage_fixed (h : l'.relays.map RelayItem.fixed = l.relays.map RelayItem.fixed) (turnId kind : String) :
    l'.coverage turnId kind = l.coverage turnId kind := by
  have hc := map_of_fixed (fun t : String × String × String × String × String × Option String × List String =>
    t.2.2.2.2.2.2) (relaysOf_fixed h turnId kind)
  rw [coverage_eq, coverage_eq]
  exact congrArg List.flatten hc

theorem mem_of_relay_fixed (h : l'.relays.map RelayItem.fixed = l.relays.map RelayItem.fixed) {r : RelayItem}
    (hr : r ∈ l'.relays) : ∃ q ∈ l.relays, q.fixed = r.fixed :=
  List.mem_map.mp (h ▸ List.mem_map_of_mem hr)

theorem fixed_parts {q r : RelayItem} (h : q.fixed = r.fixed) : q.opId = r.opId ∧ q.turnId = r.turnId ∧
    q.itemId = r.itemId ∧ q.relayKind = r.relayKind ∧ q.promoted = r.promoted ∧
    q.coveredAttentionIds = r.coveredAttentionIds := by
  simp only [RelayItem.fixed, Prod.mk.injEq] at h
  exact ⟨h.1, h.2.2.1, h.2.2.2.1, h.2.2.2.2.1, by simp only [RelayItem.promoted, h], h.2.2.2.2.2.2⟩

/-- Whether an attention is direct is settled when it is stored. -/
theorem direct_fixed (h : l'.attentions.map Attention.fixed = l.attentions.map Attention.fixed) (id : String) :
    l'.direct id = l.direct id := by
  have hf : ∀ as : List Attention, ((as.find? fun r => r.attentionId = id).any Ledger.isDirect) =
      (((as.map Attention.fixed).find? fun t => t.1 = id).any fun t =>
        t.2.2.2.2.1 = "direct_user" || t.2.2.2.2.1 = "addressed_agent") := by
    intro as
    rw [List.find?_map, Option.any_map]
    rfl
  simp only [Ledger.direct, Ledger.attention?]
  rw [hf, hf, h]

theorem direct_filed (hf : Filed l l') {id : String} (hp : ∃ a ∈ l.attentions, a.attentionId = id) :
    l'.direct id = l.direct id := by
  obtain ⟨new, he, -⟩ := hf.attentions
  obtain ⟨a, ha, rfl⟩ := hp
  have hsome : (l.attention? a.attentionId).isSome := List.find?_isSome.mpr ⟨a, ha, by simp⟩
  obtain ⟨b, hb⟩ := Option.isSome_iff_exists.mp hsome
  have hb' : l'.attention? a.attentionId = some b := by
    rw [Ledger.attention?, he, List.find?_append]
    exact (congrArg (Option.or · _) hb).trans rfl
  rw [Ledger.direct, Ledger.direct, hb, hb']

/-! ## A call of the store that makes no relay -/

/-- Relays and attentions keep what no call writes, links are joined, and more may have joined. -/
theorem BudgetInv.carry (h : BudgetInv turnId joined l) (hk : Keyed l') (hj : ∀ e ∈ joined, e ∈ joined')
    (ho : joined'.Nodup) (hpresent : ∀ e ∈ joined', ∃ a ∈ l'.attentions, a.attentionId = e.2)
    (hlinks : ∀ k ∈ l'.turnLinks, (k.turnId, k.attentionId) ∈ joined')
    (hr : l'.relays.map RelayItem.fixed = l.relays.map RelayItem.fixed)
    (hd : ∀ id, (∃ a ∈ l.attentions, a.attentionId = id) → l'.direct id = l.direct id) :
    BudgetInv turnId joined' l' where
  keyed := hk
  once := ho
  present := hpresent
  links := hlinks
  covered := by
    intro r hr' id hid
    obtain ⟨q, hq, he⟩ := mem_of_relay_fixed hr hr'
    obtain ⟨-, ht, -, -, -, hc⟩ := fixed_parts he
    rw [← ht]
    exact hj _ (h.covered q hq id (hc ▸ hid))
  items := by
    intro r hr₁ r' hr₂ ht hi hp
    obtain ⟨q, hq, he⟩ := mem_of_relay_fixed hr hr₁
    obtain ⟨q', hq', he'⟩ := mem_of_relay_fixed hr hr₂
    obtain ⟨ho₁, ht₁, hi₁, -, hp₁, -⟩ := fixed_parts he
    obtain ⟨ho₂, ht₂, hi₂, -, hp₂, -⟩ := fixed_parts he'
    rw [← ho₁, ← ho₂]
    exact h.items q hq q' hq' (ht₁.trans (ht.trans ht₂.symm)) (hi₁.trans (hi.trans hi₂.symm))
      (hp₁.trans (hp.trans hp₂.symm))
  held := by
    intro r hr₁ hp
    obtain ⟨q, hq, he⟩ := mem_of_relay_fixed hr hr₁
    obtain ⟨-, ht, hi, -, hpq, -⟩ := fixed_parts he
    obtain ⟨c, hc, hct, hck, hci⟩ := h.held q hq (hpq.trans hp)
    obtain ⟨c', hc', hce⟩ := mem_of_relay_fixed hr.symm hc
    obtain ⟨-, ht', hi', hk', -, -⟩ := fixed_parts hce
    exact ⟨c', hc', ht'.trans (hct.trans ht), hk'.trans hck, by rw [← hi, hci, hi']⟩
  finals := by
    have hlen := congrArg List.length (relaysOf_fixed hr turnId "final")
    simp only [List.length_map] at hlen
    rw [hlen, coverage_fixed hr]
    exact h.finals
  commentary := by
    have hlen := congrArg List.length (relaysOf_fixed hr turnId "commentary")
    simp only [List.length_map] at hlen
    rw [hlen, coverage_fixed hr]
    refine le_trans h.commentary (le_of_eq (congrArg (fun s : Finset String => 1 + s.card) ?_))
    refine Finset.filter_congr fun id hid => ?_
    -- a covered attention has joined, so it is there
    rw [List.mem_toFinset, coverage_eq, List.mem_flatten] at hid
    obtain ⟨ids, hids, hin⟩ := hid
    obtain ⟨r, hr', rfl⟩ := List.mem_map.mp hids
    have hcov := h.covered r (List.mem_of_mem_filter hr') id hin
    rw [hd id (h.present _ hcov)]

theorem BudgetInv.effect (h : BudgetInv turnId joined l) {m : Mutation} (hm : m.creates = none) (crashed : Bool)
    (r : Reply) : BudgetInv turnId (joinedBy l joined (.call (.mutate m f) crashed) (.ok r)) (m.effect f l) := by
  have hfixed := @effect_fixed l f m
  have hpresent : ∀ id, (∃ a ∈ l.attentions, a.attentionId = id) → ∃ a ∈ (m.effect f l).attentions, a.attentionId = id := by
    rintro id ⟨a, ha, rfl⟩
    obtain ⟨b, hb, hid, -⟩ := mem_of_fixed hfixed.symm ha
    exact ⟨b, hb, hid⟩
  have hgrow : ∀ e ∈ joined, e ∈ joinedBy l joined (.call (.mutate m f) crashed) (.ok r) := by
    intro e he
    unfold joinedBy
    split
    · split
      · exact List.mem_append_left _ he
      · exact he
    · exact he
  refine h.carry (h.keyed.effect m f) hgrow ?_ ?_ ?_ (effect_relays hm) fun id _ => direct_fixed hfixed id
  · unfold joinedBy
    split
    · split
      · next hnew =>
          simp only [Bool.and_eq_true, Bool.not_eq_true', List.contains_eq_mem, decide_eq_false_iff_not] at hnew
          refine List.nodup_append.mpr ⟨h.once, List.nodup_singleton _, ?_⟩
          intro x hx y hy he
          exact hnew.2 (List.mem_singleton.mp hy ▸ he ▸ hx)
      · exact h.once
    · exact h.once
  · intro e he
    unfold joinedBy at he
    split at he
    · split at he
      · next a u hacc _ hnew =>
          rcases List.mem_append.mp he with he | he
          · exact hpresent _ (h.present e he)
          · simp only [Bool.and_eq_true] at hnew
            obtain ⟨row, hrow⟩ := Option.isSome_iff_exists.mp hnew.1
            rw [List.mem_singleton.mp he]
            exact hpresent _ ⟨row, attention_some hrow⟩
      · exact hpresent _ (h.present e he)
    · exact hpresent _ (h.present e he)
  · intro k hk
    rcases effect_link hk with hk | ⟨hrow, t, hacc⟩
    · exact hgrow _ (h.links k hk)
    · simp only [joinedBy, StoreInput.mutation, Option.bind_some, hacc, hrow, Bool.true_and]
      split
      · exact List.mem_append_right _ (List.mem_singleton.mpr rfl)
      · next hold => simpa using hold

theorem BudgetInv.filed (h : BudgetInv turnId joined l) (hf : Filed l l') : BudgetInv turnId joined l' := by
  refine h.carry (h.keyed.filed hf) (fun _ he => he) h.once ?_ ?_ (by rw [hf.relays]) fun id hid => direct_filed hf hid
  · intro e he
    obtain ⟨a, ha, hid⟩ := h.present e he
    obtain ⟨new, hnew, -⟩ := hf.attentions
    exact ⟨a, hnew ▸ List.mem_append_left _ ha, hid⟩
  · rw [hf.turnLinks]
    exact h.links

theorem joinedBy_other {i : StoreInput} (hi : i.mutation = none) (o : Except Fault Reply) :
    joinedBy l joined i o = joined := by
  simp [joinedBy, hi]

theorem joinedBy_error (i : StoreInput) (e : Fault) : joinedBy l joined i (.error e) = joined := by
  unfold joinedBy
  split
  · next h => cases h
  · rfl

/-- Relays are made only for the output of a turn. -/
def StoreInput.Plain (i : StoreInput) : Prop := ∀ m ∈ i.mutation.toList, m.creates = none

instance (i : StoreInput) : Decidable i.Plain := by unfold StoreInput.Plain; infer_instance

theorem BudgetInv.store (h : BudgetInv turnId joined l) {py : Python} {i : StoreInput} (hi : i.Plain) :
    BudgetInv turnId (joinedBy l joined i (l.storeStep py i).1) (l.storeStep py i).2 := by
  rcases storeStep_cases py l i with ⟨e, hs⟩ | ⟨hi, hf⟩ | ⟨m, f, crashed, r, rfl, hs⟩
  · rw [hs, joinedBy_error]
    exact h
  · rw [joinedBy_other hi]
    exact h.filed hf
  · rw [hs]
    exact h.effect (hi m (by simp [StoreInput.mutation])) crashed r

/-! ## A new relay -/

/-- What a request must find so that the budgets hold: its item is new, or it promotes a held item of its turn; a final
covers an attention that no final covers; a commentary is the first, or covers a new direct attention. -/
structure Fits (turnId : String) (l : Ledger) (q : RelayRequest) : Prop where
  linked : ∀ id ∈ q.coveredAttentionIds, id ∈ l.linkedTo q.turnId
  item : (∀ r ∈ l.relays, r.turnId = q.turnId → r.itemId ≠ q.itemId) ∧ (q.relayKind = "final" → q.phase.isSome) ∨
    q.relayKind = "final" ∧ q.phase = none ∧
      ∃ c ∈ l.relays, c.turnId = q.turnId ∧ c.relayKind = "candidate" ∧ q.itemId = c.itemId ++ ":fallback"
  final : q.turnId = turnId → q.relayKind = "final" → ∃ id ∈ q.coveredAttentionIds, id ∉ l.coverage turnId "final"
  commentary : q.turnId = turnId → q.relayKind = "commentary" → l.relaysOf turnId "commentary" = [] ∨
    ∃ id ∈ q.coveredAttentionIds, l.direct id = true ∧ id ∉ l.coverage turnId "commentary"

/-- The row of a request. -/
def RelayRequest.row (q : RelayRequest) (f : Fence) : RelayItem where
  opId := q.opId
  identity := q.identity
  room := q.room
  target := q.target
  turnId := q.turnId
  itemId := q.itemId
  phase := q.phase
  text := q.text
  coveredAttentionIds := firstOccurrences q.coveredAttentionIds
  relayKind := q.relayKind
  status := q.status
  createdAtMs := f.now
  leaseEpoch := f.epoch

theorem relaysOf_append {q : RelayRequest} {kind : String} (hl : l'.relays = l.relays ++ [q.row f]) (turnId : String) :
    l'.relaysOf turnId kind = l.relaysOf turnId kind ++ if q.turnId = turnId ∧ q.relayKind = kind then [q.row f] else [] := by
  simp only [Ledger.relaysOf, hl, List.filter_append, RelayRequest.row]
  congr 1
  by_cases hc : q.turnId = turnId ∧ q.relayKind = kind
  · simp [hc]
  · rw [if_neg hc]
    simpa using hc

theorem coverage_append {q : RelayRequest} {kind : String} (hl : l'.relays = l.relays ++ [q.row f]) (turnId : String) :
    l'.coverage turnId kind = l.coverage turnId kind ++
      if q.turnId = turnId ∧ q.relayKind = kind then firstOccurrences q.coveredAttentionIds else [] := by
  rw [coverage_eq, relaysOf_append hl, List.map_append, List.flatten_append, ← coverage_eq]
  congr 1
  split <;> simp [RelayRequest.row]

/-- Adding a set that brings a new element makes it larger. -/
theorem card_append_new (xs ys : List String) (p : String → Prop) [DecidablePred p]
    (h : ∃ y ∈ ys, p y ∧ y ∉ xs) : (xs.toFinset.filter p).card + 1 ≤ ((xs ++ ys).toFinset.filter p).card := by
  obtain ⟨y, hy, hp, hnew⟩ := h
  have hsub : insert y (xs.toFinset.filter p) ⊆ (xs ++ ys).toFinset.filter p := by
    intro x hx
    rcases Finset.mem_insert.mp hx with rfl | hx
    · simp [hy, hp]
    · simp only [Finset.mem_filter, List.mem_toFinset, List.mem_append] at hx ⊢
      exact ⟨.inl hx.1, hx.2⟩
  calc (xs.toFinset.filter p).card + 1 = (insert y (xs.toFinset.filter p)).card := by
        rw [Finset.card_insert_of_notMem (by simp [hnew])]
    _ ≤ _ := Finset.card_le_card hsub


/-- A row that fits keeps the budgets. -/
theorem BudgetInv.create (h : BudgetInv turnId joined l) {q : RelayRequest} (hq : Fits turnId l q) :
    BudgetInv turnId joined ((Mutation.createRelayItem q).effect f l) := by
  have hkeyed := h.keyed.effect (.createRelayItem q) f
  simp only [Mutation.effect] at hkeyed ⊢
  split
  · exact h
  · next hfree =>
      rw [if_neg hfree] at hkeyed
      have hfree' : ∀ r ∈ l.relays, r.turnId = q.turnId → r.itemId = q.itemId → r.relayKind ≠ q.relayKind := by
        intro r hr ht hi hk
        exact hfree (List.any_eq_true.mpr ⟨r, hr, by simp [ht, hi, hk]⟩)
      -- a row of the same turn, item and origin as the new one would have been found
      have hnew : ∀ r ∈ l.relays, r.turnId = q.turnId → r.itemId = q.itemId → r.promoted ≠ (q.row f).promoted := by
        intro r hr ht hi hp
        rcases hq.item with ⟨hno, -⟩ | ⟨hk, hph, -⟩
        · exact hno r hr ht hi
        · have hq' : (q.row f).promoted = true := by simp [RelayItem.promoted, RelayRequest.row, hk, hph]
          rw [hq'] at hp
          simp only [RelayItem.promoted, Bool.and_eq_true, decide_eq_true_eq] at hp
          exact hfree' r hr ht hi (hp.1.trans hk.symm)
      refine ⟨hkeyed, h.once, h.present, h.links, ?_, ?_, ?_, ?_, ?_⟩
      · intro r hr id hid
        rcases List.mem_append.mp hr with hr | hr
        · exact h.covered r hr id hid
        · rw [List.mem_singleton.mp hr] at hid ⊢
          obtain ⟨k, hk, hkt, hka⟩ := mem_linkedTo.mp (hq.linked id (mem_firstOccurrences.mp hid))
          rw [← hka]
          exact hkt ▸ h.links k hk
      · intro r hr r' hr' ht hi hp
        rcases List.mem_append.mp hr with hr | hr <;> rcases List.mem_append.mp hr' with hr' | hr'
        · exact h.items r hr r' hr' ht hi hp
        · rw [List.mem_singleton.mp hr'] at ht hi hp
          exact absurd hp (hnew r hr ht hi)
        · rw [List.mem_singleton.mp hr] at ht hi hp
          exact absurd hp.symm (hnew r' hr' ht.symm hi.symm)
        · rw [List.mem_singleton.mp hr, List.mem_singleton.mp hr']
      · intro r hr hp
        rcases List.mem_append.mp hr with hr | hr
        · obtain ⟨c, hc, hrest⟩ := h.held r hr hp
          exact ⟨c, List.mem_append_left _ hc, hrest⟩
        · rw [List.mem_singleton.mp hr] at hp ⊢
          simp only [RelayItem.promoted, Bool.and_eq_true, decide_eq_true_eq] at hp
          rcases hq.item with ⟨-, hphase⟩ | ⟨-, -, c, hc, hrest⟩
          · have := hphase hp.1
            rw [Option.isNone_iff_eq_none.mp hp.2] at this
            cases this
          · exact ⟨c, List.mem_append_left _ hc, hrest⟩
      · rw [relaysOf_append (q := q) (f := f) rfl, coverage_append (q := q) (f := f) rfl]
        split
        · next hc =>
            have hgrow := card_append_new (l.coverage turnId "final") (firstOccurrences q.coveredAttentionIds)
              (fun _ => True) ?_
            · simp only [Finset.filter_true] at hgrow
              have := h.finals
              rw [List.length_append, List.length_singleton]
              omega
            · obtain ⟨id, hid, hout⟩ := hq.final hc.1 hc.2
              exact ⟨id, mem_firstOccurrences.mpr hid, trivial, hout⟩
        · rw [List.append_nil, List.append_nil]
          exact h.finals
      · rw [relaysOf_append (q := q) (f := f) rfl, coverage_append (q := q) (f := f) rfl]
        split
        · next hc =>
            rw [List.length_append, List.length_singleton]
            rcases hq.commentary hc.1 hc.2 with hfirst | ⟨id, hid, hdirect, hout⟩
            · rw [hfirst, List.length_nil]
              omega
            · have hgrow := card_append_new (l.coverage turnId "commentary") (firstOccurrences q.coveredAttentionIds)
                (fun id => l.direct id = true)
                ⟨id, mem_firstOccurrences.mpr hid, hdirect, hout⟩
              have := h.commentary
              change _ ≤ 1 + (Finset.filter (fun id => l.direct id = true) _).card
              omega
        · rw [List.append_nil, List.append_nil]
          exact h.commentary

/-! ## The handlers -/

theorem mem_acceptedForTurn {id : String} (h : id ∈ (l.acceptedForTurn turnId).map Attention.attentionId) :
    id ∈ l.linkedTo turnId := by
  rw [acceptedForTurn_ids] at h
  exact List.mem_of_mem_filter h

/-- What a row for some output asks for. -/
theorem outputRow_some {T itemId text relayKind : String} {phase status : Option String} {covered : Option (List String)}
    {q : RelayRequest} (h : outputRow cfg l T itemId phase text relayKind status covered = some q) :
    q.turnId = T ∧ q.itemId = itemId ∧ q.phase = phase ∧ q.relayKind = relayKind ∧
      ∀ id, id ∈ q.coveredAttentionIds ↔ id ∈ (l.acceptedForTurn T).map Attention.attentionId ∧
        covered.all fun ids => ids.contains id := by
  unfold outputRow at h
  dsimp only at h
  split at h
  · cases h
  · next a as he =>
      cases h
      refine ⟨rfl, rfl, rfl, rfl, fun id => ?_⟩
      simp only [List.mem_map, List.mem_filter]
      constructor
      · rintro ⟨b, ⟨hb, hc⟩, rfl⟩
        exact ⟨⟨b, hb, rfl⟩, hc⟩
      · rintro ⟨⟨b, hb, rfl⟩, hc⟩
        exact ⟨b, ⟨hb, hc⟩, rfl⟩

theorem wp_createOutput {w : World} {T itemId text relayKind : String} {phase status : Option String}
    {covered : Option (List String)} {ok : World → Command → Outside → Prop} (h : BudgetInv turnId joined w.ledger)
    (hfit : ∀ q, outputRow cfg w.ledger T itemId phase text relayKind status covered = some q → Fits turnId w.ledger q) :
    wp (host cfg) ok (fun w => BudgetInv turnId joined w.ledger)
      (createOutput cfg T itemId phase text relayKind status covered) (fun _ w => BudgetInv turnId joined w.ledger) w := by
  refine wp_look h ?_
  split
  · exact h
  · split
    · exact h
    · next q hq =>
        refine wp_call h fun f r _ => ?_
        exact h.create (hfit q hq)

variable {T : String} {q : RelayRequest}

theorem uncovered_mem {id : String} (h : id ∈ l.uncoveredFinalAttentionIds turnId) :
    (∃ a ∈ l.attentions, a.attentionId = id ∧ Ledger.working turnId a = true) ∧ id ∉ l.coverage turnId "final" := by
  obtain ⟨a, ha, rfl⟩ := List.mem_map.mp h
  simp only [List.mem_filter, Bool.and_eq_true, Bool.not_eq_true', List.contains_eq_mem, decide_eq_false_iff_not] at ha
  exact ⟨⟨a, ha.1, rfl, ha.2.1⟩, ha.2.2⟩

/-- The row for a new item fits, whatever its kind, when the budget of its kind is open. -/
theorem fits_item (hkeys : Keyed l) {itemId text relayKind : String} {phase status : Option String}
    (hrow : outputRow cfg l T itemId phase text relayKind status none = some q)
    (hnew : l.turnHasRelayItem T itemId = false) (hphase : relayKind = "final" → phase.isSome)
    (hlinked : T = turnId → l.Linked turnId)
    (hfinal : relayKind = "final" → l.uncoveredFinalAttentionIds T ≠ [])
    (hcommentary : relayKind = "commentary" → l.turnAllowsCommentary T = true) : Fits turnId l q := by
  obtain ⟨rfl, rfl, rfl, rfl, hmem⟩ := outputRow_some hrow
  refine ⟨?_, .inl ⟨?_, hphase⟩, ?_, ?_⟩
  · exact fun id hid => mem_acceptedForTurn ((hmem id).mp hid).1
  · intro r hr ht hi
    rw [Ledger.turnHasRelayItem, List.any_eq_false] at hnew
    exact hnew r hr (by simp [ht, hi])
  · rintro rfl hk
    obtain ⟨id, hid⟩ := List.exists_mem_of_ne_nil _ (hfinal hk)
    obtain ⟨⟨a, ha, rfl, hw⟩, hout⟩ := uncovered_mem hid
    exact ⟨a.attentionId, (hmem _).mpr ⟨hlinked rfl a ha hw, rfl⟩, hout⟩
  · rintro rfl hk
    have hopen := hcommentary hk
    simp only [Ledger.turnAllowsCommentary, Bool.or_eq_true, Bool.not_eq_true', List.any_eq_false, List.any_eq_true,
      Bool.and_eq_true, List.contains_eq_mem, decide_eq_false_iff_not] at hopen
    rcases hopen with hnone | ⟨a, ha, ⟨hw, hdirect⟩, hout⟩
    · exact .inl (List.filter_eq_nil_iff.mpr fun r hr => by simpa using hnone r hr)
    · refine .inr ⟨a.attentionId, (hmem _).mpr ⟨hlinked rfl a ha hw, rfl⟩, ?_, hout⟩
      rw [Ledger.direct, attention_of_mem hkeys.attentions ha]
      exact hdirect

/-- So does the row that promotes a held item. -/
theorem fits_promoted {c : RelayItem} {text : String} {status : Option String}
    (hc : l.promotable T = some c)
    (hrow : outputRow cfg l T (c.itemId ++ ":fallback") none text "final" status (some c.coveredAttentionIds) = some q)
    (hlinked : T = turnId → l.Linked turnId) : Fits turnId l q := by
  obtain ⟨rfl, hitem, hphase, hkind, hmem⟩ := outputRow_some hrow
  obtain ⟨hlast, hopen⟩ := Option.filter_eq_some_iff.mp hc
  have hin : c ∈ l.relays ∧ c.turnId = q.turnId ∧ c.relayKind = "candidate" := by
    have := (List.perm_insertionSort _ _).mem_iff.mp (List.mem_of_head? hlast)
    simpa [List.mem_filter] using this
  refine ⟨?_, .inr ⟨hkind, hphase, c, hin.1, hin.2.1, hin.2.2, hitem⟩, ?_, ?_⟩
  · exact fun id hid => mem_acceptedForTurn ((hmem id).mp hid).1
  · rintro rfl -
    obtain ⟨id, hid, hun⟩ := List.any_eq_true.mp hopen
    obtain ⟨⟨a, ha, rfl, hw⟩, hout⟩ := uncovered_mem (List.contains_iff_mem.mp hun)
    refine ⟨a.attentionId, (hmem _).mpr ⟨hlinked rfl a ha hw, ?_⟩, hout⟩
    simpa using hid
  · intro _ hk
    rw [hkind] at hk
    exact absurd hk (by decide)

variable {w : World} {ok : World → Command → Outside → Prop}

theorem wp_handleAgentItem {i : Item} (h : BudgetInv turnId joined w.ledger) (hlinked : T = turnId → w.ledger.Linked turnId) :
    wp (host cfg) ok (fun w => BudgetInv turnId joined w.ledger) (handleAgentItem cfg T i)
      (fun _ w => BudgetInv turnId joined w.ledger) w := by
  unfold handleAgentItem
  dsimp only
  split
  · exact h
  · refine wp_look h ?_
    split
    · exact h
    · next hnew =>
        have hnew' : w.ledger.turnHasRelayItem T i.id = false := Bool.eq_false_iff.mpr hnew
        -- a kind without a budget
        have hother : ∀ (phase : Option String) (text kind : String) (status : Option String),
            kind ≠ "final" → kind ≠ "commentary" →
            wp (host cfg) ok (fun w => BudgetInv turnId joined w.ledger) (createOutput cfg T i.id phase text kind status none)
              (fun _ w => BudgetInv turnId joined w.ledger) w := by
          intro phase text kind status hf hc
          refine wp_createOutput h fun q hq => ?_
          exact fits_item h.keyed hq hnew' (fun he => absurd he hf) hlinked (fun he => absurd he hf) fun he => absurd he hc
        split
        · refine wp_bind (wp_mono (hother _ _ _ _ (by decide) (by decide)) fun _ w' hw' => ?_)
          refine wp_call hw' fun f r hrun => ?_
          have heff := hw'.effect (f := f) (m := .markTurnNoReply T) rfl false r
          exact heff
        · split
          · split
            · next hopen =>
                refine wp_createOutput h fun q hq => ?_
                exact fits_item h.keyed hq hnew' (fun he => absurd he (by decide)) hlinked
                  (fun he => absurd he (by decide)) fun _ => hopen
            · exact hother _ _ _ _ (by decide) (by decide)
          · split
            · split
              · exact hother _ _ _ _ (by decide) (by decide)
              · next hopen =>
                  refine wp_createOutput h fun q hq => ?_
                  refine fits_item h.keyed hq hnew' (fun _ => rfl) hlinked (fun _ he => hopen ?_)
                    fun he => absurd he (by decide)
                  rw [he]
                  rfl
            · exact hother _ _ _ _ (by decide) (by decide)

theorem wp_handleTurnCompleted {threadId : String} {turn : CodexTurn} (h : BudgetInv turnId joined w.ledger)
    (hlinked : turn.id = turnId → w.ledger.Linked turnId) :
    wp (host cfg) ok (fun w => BudgetInv turnId joined w.ledger) (handleTurnCompleted cfg threadId turn)
      (fun _ w => BudgetInv turnId joined w.ledger) w := by
  unfold handleTurnCompleted
  split
  · exact h
  · have hpromote : ∀ status, wp (host cfg) ok (fun w => BudgetInv turnId joined w.ledger)
        (promoteHeld cfg turn.id status) (fun _ w => BudgetInv turnId joined w.ledger) w := by
      intro status
      unfold promoteHeld
      split
      · exact h
      · refine wp_look h ?_
        split
        · exact h
        · next c hc => exact wp_createOutput h fun q hq => fits_promoted hc hq hlinked
    refine wp_bind (wp_mono (hpromote _) fun _ w₁ h₁ => wp_bind (wp_call h₁ fun f r _ => ?_))
    have heff := h₁.effect (f := f) (m := .markTurnCompleted turn.id (mappedStatus
      (if turn.status = "" then "failed" else turn.status)) turn.error) rfl false r
    exact wp_remember heff fun _ _ => heff

end

/-! ## The law -/

/-- The turn whose output an input handles. -/
def OutputInput.turn? : OutputInput → Option String
  | .item turnId _ _ => some turnId
  | .turnCompleted _ turn _ => some turn.id
  | _ => none

def OutputInput.Plain : OutputInput → Prop
  | .store i => i.Plain
  | .item .. | .turnCompleted .. | .restart _ => True

instance : (i : OutputInput) → Decidable i.Plain
  | .store i => inferInstanceAs (Decidable i.Plain)
  | .item .. => inferInstanceAs (Decidable True)
  | .turnCompleted .. => inferInstanceAs (Decidable True)
  | .restart _ => inferInstanceAs (Decidable True)

/-- Relays are made by the output handlers alone, and the turn's links are complete when its output is handled. -/
def Budgeted.Admitted (turnId : String) (s : Budgeted) (i : OutputInput) : Prop :=
  i.Plain ∧ (i.turn? = some turnId → s.world.ledger.Linked turnId)

theorem exec_keeps {cfg : Config} {C : World → Prop} {p : Act Unit} {w : World}
    (h : wp (host cfg) (fun _ _ _ => True) C p (fun _ => C) w) (outside : List Outside) :
    C (exec (host cfg) p outside w).2 := by
  have := exec_wp h (meets_all (fun _ _ _ => trivial) p outside w)
  split at this
  · next he => rw [he]; exact this
  · next he => rw [he]; exact this

/-- What one step preserves. -/
theorem step_budget {cfg : Config} {turnId : String} {s : Budgeted} {i : OutputInput}
    (h : BudgetInv turnId s.joined s.world.ledger) (hok : s.Admitted turnId i) :
    BudgetInv turnId (s.step cfg i).2.joined (s.step cfg i).2.world.ledger := by
  cases i with
  | store i => exact h.store hok.1
  | item T i outside => exact exec_keeps (wp_handleAgentItem h fun he => hok.2 (congrArg some he)) outside
  | turnCompleted threadId turn outside =>
      exact exec_keeps (wp_handleTurnCompleted h fun he => hok.2 (congrArg some he)) outside
  | restart memory => exact h

/-- What the relays of a turn are held to. -/
structure OutputLaw (turnId : String) (s : Budgeted) : Prop where
  finals : (s.world.ledger.relaysOf turnId "final").length ≤ (s.accepted turnId).length
  commentary : (s.world.ledger.relaysOf turnId "commentary").length ≤
    1 + ((s.accepted turnId).filter s.world.ledger.direct).length
  /-- An item leaves one relay, and one more when it is promoted. -/
  items : ∀ r ∈ s.world.ledger.relays, ∀ r' ∈ s.world.ledger.relays, r.turnId = r'.turnId → r.itemId = r'.itemId →
    r.promoted = r'.promoted → r = r'
  promoted : ∀ r ∈ s.world.ledger.relays, r.promoted = true → ∃ c ∈ s.world.ledger.relays, c.turnId = r.turnId ∧
    c.relayKind = "candidate" ∧ r.itemId = c.itemId ++ ":fallback"
  opIds : (s.world.ledger.relays.map RelayItem.opId).Nodup

theorem BudgetInv.law {turnId : String} {s : Budgeted} (h : BudgetInv turnId s.joined s.world.ledger) :
    OutputLaw turnId s := by
  have hin : ∀ kind id, id ∈ s.world.ledger.coverage turnId kind → id ∈ s.accepted turnId := by
    intro kind id hid
    rw [coverage_eq, List.mem_flatten] at hid
    obtain ⟨ids, hids, hin⟩ := hid
    obtain ⟨r, hr, rfl⟩ := List.mem_map.mp hids
    simp only [Ledger.relaysOf, List.mem_filter, Bool.and_eq_true, decide_eq_true_eq] at hr
    have hjoined := h.covered r hr.1 id hin
    exact List.mem_map.mpr ⟨_, List.mem_filter.mpr ⟨hjoined, by simpa using hr.2.1⟩, rfl⟩
  refine ⟨?_, ?_, ?_, h.held, h.keyed.relays⟩
  · calc _ ≤ (s.world.ledger.coverage turnId "final").toFinset.card := h.finals
      _ ≤ (s.accepted turnId).toFinset.card := Finset.card_le_card fun id hid =>
          List.mem_toFinset.mpr (hin _ id (List.mem_toFinset.mp hid))
      _ ≤ (s.accepted turnId).length := List.toFinset_card_le _
  · refine le_trans h.commentary (Nat.add_le_add_left ?_ 1)
    calc _ ≤ ((s.accepted turnId).filter s.world.ledger.direct).toFinset.card := Finset.card_le_card fun id hid => by
            rw [Finset.mem_filter, List.mem_toFinset] at hid
            exact List.mem_toFinset.mpr (List.mem_filter.mpr ⟨hin _ id hid.1, hid.2⟩)
      _ ≤ _ := List.toFinset_card_le _
  · intro r hr r' hr' ht hi hp
    exact eq_of_key h.keyed.relays hr hr' (h.items r hr r' hr' ht hi hp)

theorem budget_init {cfg : Config} {turnId : String} (s : Budgeted) (hs : (outputMachine cfg).init s) :
    BudgetInv turnId s.joined s.world.ledger := by
  obtain ⟨hl, hj⟩ := hs
  rw [hl, hj]
  exact ⟨keyed_empty, List.nodup_nil, fun _ h => (List.not_mem_nil h).elim, fun _ h => (List.not_mem_nil h).elim,
    fun _ h => (List.not_mem_nil h).elim, fun _ h => (List.not_mem_nil h).elim, fun _ h => (List.not_mem_nil h).elim,
    Nat.zero_le _, Nat.zero_le _⟩

/-- Relays are added at the end and keep their operation, their turn and item and what they cover. -/
theorem relays_grow (py : Python) (l : Ledger) (i : StoreInput) :
    l.relays.map RelayItem.fixed <+: (l.storeStep py i).2.relays.map RelayItem.fixed := by
  rcases storeStep_cases py l i with ⟨e, hs⟩ | ⟨-, hf⟩ | ⟨m, f, crashed, r, rfl, hs⟩
  · rw [hs]
  · rw [hf.relays]
  · rw [hs]
    cases hm : m.creates with
    | none => rw [effect_relays hm]
    | some q =>
        cases m <;> cases hm
        simp only [Mutation.effect]
        split
        · exact List.prefix_refl _
        · rw [List.map_append]
          exact List.prefix_append _ _

/-- Along every run (items of any phase and text, repeated and replayed in any order, between any calls of the store,
completions and restarts), with every handler cut short at any point. -/
theorem output_bounded {cfg : Config} {turnId : String} {tr : List (OutputInput × Unit)} {s : Budgeted}
    (r : Sys.Run (outputMachine cfg) (Budgeted.Admitted turnId) tr s) :
    OutputLaw turnId s ∧ ∀ is, s.world.ledger.relays.map RelayItem.fixed <+:
      ((outputMachine cfg).exec is tr s).2.world.ledger.relays.map RelayItem.fixed := by
  have h : BudgetInv turnId s.joined s.world.ledger :=
    Sys.Run.invariant (I := fun s => BudgetInv turnId s.joined s.world.ledger) budget_init
      (fun s i hs hok => step_budget hs hok) r
  refine ⟨h.law, fun is => ?_⟩
  have hgrow : ∀ (l : Ledger) (i : StoreInput),
      s.world.ledger.relays.map RelayItem.fixed <+: l.relays.map RelayItem.fixed →
      s.world.ledger.relays.map RelayItem.fixed <+: (l.storeStep cfg.py i).2.relays.map RelayItem.fixed :=
    fun l i hl => hl.trans (relays_grow cfg.py l i)
  refine @Sys.Machine.Admits.invariant _ _ _ _ (fun _ _ => True)
    (fun s' => s.world.ledger.relays.map RelayItem.fixed <+: s'.world.ledger.relays.map RelayItem.fixed) ?_ _ _
    (Sys.Machine.admits_of_all (fun _ _ => trivial) is s) tr (List.prefix_refl _)
  intro s' i hs' _
  cases i with
  | store i => exact hgrow _ i hs'
  | item T i outside => exact exec_ledger hgrow _ outside hs'
  | turnCompleted threadId turn outside => exact exec_ledger hgrow _ outside hs'
  | restart memory => exact hs'

/-! One call, an update and an answer; then the answer is replayed. -/

def oneCall : List Delivery := [⟨"1", "den", "direct_user"⟩]

/-- The digests of the two operations. -/
def reviewerPython : Python :=
  { clerk oneCall with
    sha256Hex := fun text =>
      if text = "http://loca-3215636" then "0ab86667e260f757cedd7cbed8a201253a3ed50769a1e7fd1a51aa3c64b77945"
      else if text = "bundle:attention:reviewer:0ab86667e260:1\nattention:reviewer:0ab86667e260:1\nturn-1\nitem-1\ncommentary"
        then "155a15c9e3e0322478ef241d121da65747df1a464f1b7e2c08c8889485c38ec2"
      else "624b8541f89d3b34cfc54018a93b8a963b5e75f0e687d9e69c2c33e9c537ac09" }

def reviewer : Config := ⟨"reviewer", "/var/inbox.jsonl", true, reviewerPython⟩

/-- Nothing outside but a clock. -/
def quietAt (now : Int) : Outside := ⟨now, false, sampleProcesses, false, [], fun _ => none, []⟩

def anItem (id phase text : String) : Item := ⟨"agentMessage", id, text, some phase, none⟩

def answered : List OutputInput := (opened oneCall).map .store ++
  [.restart (some ⟨"17-a", 1, ∅, ∅⟩), .store ((Mutation.markAccepted (attentionNo "1") "thread-1" "turn-1").at 1),
    .item "turn-1" (anItem "item-1" "commentary" "Looking.") [quietAt 2, quietAt 2, quietAt 2],
    .item "turn-1" (anItem "item-2" "final_answer" "Done.") [quietAt 3, quietAt 3, quietAt 3],
    .item "turn-1" (anItem "item-2" "final_answer" "Done.") [quietAt 4, quietAt 4, quietAt 4]]

instance (turnId : String) (s : Budgeted) (i : OutputInput) : Decidable (s.Admitted turnId i) :=
  inferInstanceAs (Decidable (_ ∧ _))

def afterAnswer : List (OutputInput × Unit) × Budgeted := (outputMachine reviewer).exec answered [] ⟨⟨{}, none⟩, []⟩

theorem output_bounded_sample :
    (afterAnswer.2.world.ledger.relays.map RelayItem.relayKind) = ["commentary", "final"] ∧
    OutputLaw "turn-1" afterAnswer.2 :=
  ⟨by decide +kernel, (@output_bounded _ "turn-1" _ _ (Sys.Run.exec answered (by decide +kernel) (.nil ⟨rfl, rfl⟩))).1⟩

end Loca.Adapter
