/-
# `Loca.Queue.Protected` — protected work is not lost

A control, a care signal or a task whose delivery was never acknowledged stays in front of the
cursor, whatever is offered and acknowledged in the meantime: a chosen record that jumps over it
leaves the cursor parked at it.  So the queue never runs dry while such a record is there, and
offers one as soon as no chat of higher rank waits.

The invariant speaks of two offsets, the cursor's and the safe offset of the record that was
offered last, because the worker may acknowledge that one at any later time.
-/
import Loca.Queue.Waiting

namespace Loca.Queue

open Adapter Check

variable {py : Python} {s : Consumer}

def Consumer.records (py : Python) (s : Consumer) : List Record := recordsAt py 0 s.lines

/-- Every delivery id that was acknowledged so far. -/
def ackedIds (tr : List (QueueInput × QueueAnswer)) : List String :=
  tr.filterMap fun e => match e.2 with
    | .acked id => some id
    | _ => none

/-! ## Acknowledging -/

theorem mem_remember {deliveryId id : String} {acked : List String} (h : id ∈ remember deliveryId acked) :
    id ∈ acked ∨ id = deliveryId := by
  unfold remember at h
  rcases List.mem_append.mp (List.mem_of_mem_drop h) with hmem | hmem
  · exact .inl (List.mem_filter.mp hmem).1
  · exact .inr (List.mem_singleton.mp hmem)

/-- A record whose id is remembered is found under the id as a string. -/
theorem remembered_id {r : Record} {c : Cursor} (h : (isRemembered r.fields c).toOption.any id = true) :
    r.deliveryId py ∈ c.ackedDeliveryIds := by
  unfold isRemembered at h
  unfold Record.deliveryId
  cases hid : Json.field "delivery_id" r.fields with
  | none =>
      rw [hid] at h
      cases h
  | some v =>
      rw [hid] at h
      cases v with
      | str text => simpa [Except.toOption, Python.str] using h
      | null | bool | int | float | arr | obj => cases h

/-- The ids of the inbox's lines. -/
theorem records_append (raw : List UInt8) : ({ s with lines := s.lines ++ [raw] } : Consumer).records py =
    s.records py ++ recordsAt py s.lines.flatten.length [raw] := by
  unfold Consumer.records
  rw [recordsAt_append, Nat.zero_add]

/-- Two records are the same, or one stands behind the other. -/
theorem records_apart {r r' : Record} (h : r ∈ s.records py) (h' : r' ∈ s.records py) :
    r = r' ∨ r.nextOffset ≤ r'.offset ∨ r'.nextOffset ≤ r.offset := by
  by_cases he : r = r'
  · exact .inl he
  · right
    have hsymm : Std.Symm fun a b : Record => a.nextOffset ≤ b.offset ∨ b.nextOffset ≤ a.offset :=
      ⟨fun _ _ => Or.symm⟩
    have hboth : (recordsAt py 0 s.lines).Pairwise fun a b =>
        a.nextOffset ≤ b.offset ∨ b.nextOffset ≤ a.offset := (recordsAt_ordered 0 s.lines).imp Or.inl
    exact hboth.forall h h' he

/-! ## The invariant -/

/-- A protected record that nobody acknowledged. -/
structure Owed (py : Python) (s : Consumer) (r : Record) : Prop where
  mem : r ∈ s.records py
  rank : isProtected r.rank = true
  unacked : r.deliveryId py ∉ s.recorded

structure Guarded (py : Python) (s : Consumer) : Prop where
  valid : ∀ line ∈ s.lines, ValidLine py line
  cursor : Boundary s.lines s.cursor.offset
  offer : ∀ o, s.offered = some o → Boundary s.lines o.safeOffset
  remembered : ∀ id ∈ s.cursor.ackedDeliveryIds, id ∈ s.recorded
  kept : ∀ r, Owed py s r → s.cursor.offset ≤ r.offset
  /-- The acknowledgement that may still come moves the cursor over no other record. -/
  spared : ∀ o, s.offered = some o → ∀ r, Owed py s r → r.deliveryId py ≠ o.record.deliveryId py →
    o.safeOffset ≤ r.offset

namespace Guarded

theorem lines (h : Guarded py s) : ∀ line ∈ s.lines, Lines.IsLine newline line :=
  fun line hline => (h.valid line hline).line

theorem unsettled (h : Guarded py s) {r : Record} (hr : Owed py s r) : r.settled py s.cursor = false := by
  obtain ⟨p, hp, hread⟩ := mem_recordsAt hr.mem
  obtain ⟨hfields, hrank, -, -⟩ := readRecord_some hread
  have hleg := (h.valid p.2 (Lines.place_within hp).1).unmarked_protected hfields hrank hr.rank
  have hrem : (isRemembered r.fields s.cursor).toOption.any id = false := by
    by_contra hne
    exact hr.unacked (h.remembered _ (remembered_id (by simpa using hne)))
  unfold Record.settled
  rw [hleg, hrem, hr.rank]
  rfl

/-- What is owed waits. -/
theorem waits (h : Guarded py s) {r : Record} (hr : Owed py s r) : r ∈ waiting py s.lines s.cursor := by
  refine List.mem_filter.mpr ⟨hr.mem, ?_⟩
  simp [h.kept r hr, h.unsettled hr]

theorem passed (h : Guarded py s) : Passed py s.lines s.cursor (nextRecord py s.lines.flatten s.cursor) :=
  nextRecord_spec h.lines h.cursor

theorem append (h : Guarded py s) {raw : List UInt8} (hraw : ValidLine py raw) :
    Guarded py { s with lines := s.lines ++ [raw] } := by
  have hold : ∀ r, Owed py { s with lines := s.lines ++ [raw] } r →
      Owed py s r ∨ s.lines.flatten.length ≤ r.offset := by
    intro r hr
    have hmem := hr.mem
    rw [records_append] at hmem
    rcases List.mem_append.mp hmem with hmem | hmem
    · exact .inl ⟨hmem, hr.rank, hr.unacked⟩
    · obtain ⟨p, hp, hread⟩ := mem_recordsAt hmem
      have := (Lines.place_within hp).2.1
      obtain ⟨-, -, ho, -⟩ := readRecord_some hread
      exact .inr (by omega)
  refine ⟨fun line hline => ?_, h.cursor.append _, fun o ho => (h.offer o ho).append _, h.remembered,
    fun r hr => ?_, fun o ho r hr hne => ?_⟩
  · rcases List.mem_append.mp hline with hline | hline
    · exact h.valid line hline
    · rw [List.mem_singleton.mp hline]
      exact hraw
  · rcases hold r hr with hr | hbehind
    · exact h.kept r hr
    · exact h.cursor.le.trans hbehind
  · rcases hold r hr with hr | hbehind
    · exact h.spared o ho r hr hne
    · exact (h.offer o ho).le.trans hbehind

/-- The chosen record's safe offset spares what is owed, but for the record itself. -/
theorem chosen (h : Guarded py s) {o : Offer} {base : Nat}
    (ho : chooseRecord (waiting py s.lines s.cursor) base = some o) :
    Chosen (waiting py s.lines s.cursor) o ∧ o.record ∈ s.records py ∧ Boundary s.lines o.safeOffset ∧
      ∀ r, Owed py s r → r.deliveryId py ≠ o.record.deliveryId py → o.safeOffset ≤ r.offset := by
  have hsub : ∀ r ∈ waiting py s.lines s.cursor, r ∈ s.records py := fun r hr => (List.mem_filter.mp hr).1
  have hpos : ∀ r ∈ s.records py, r.offset < r.nextOffset := fun r hr => (recordsAt_within h.lines hr).2.1
  have hc := chooseRecord_spec ((recordsAt_ordered 0 s.lines).filter _) (fun r hr => hpos r (hsub r hr)) ho
  have hmem := hsub _ hc.mem
  refine ⟨hc, hmem, ?_, fun r hr hne => ?_⟩
  · rcases hc.safe with ⟨r, hr, -, -, he⟩ | ⟨he, -⟩
    · exact he ▸ (recordsAt_boundary (hsub r hr)).1
    · exact he ▸ (recordsAt_boundary hmem).2
  · have hle : o.safeOffset ≤ o.record.nextOffset := by
      rcases hc.safe with ⟨x, hx, -, hlt, he⟩ | ⟨he, -⟩
      · have := hpos _ hmem
        omega
      · omega
    rcases records_apart hr.mem hmem with rfl | hbefore | hbehind
    · exact absurd rfl hne
    · have := hpos r hr.mem
      exact hc.spared r (h.waits hr) hr.rank (by omega)
    · omega

theorem next (h : Guarded py s) : Guarded py (s.step py .next).2 := by
  obtain ⟨⟨n, hcur, -, hn, hahead⟩, hoffer, -⟩ := h.passed
  have hmoved : ∀ c, c = { s.cursor with offset := n } → Guarded py { s with cursor := c } := by
    rintro c rfl
    exact ⟨h.valid, hn, h.offer, h.remembered, fun r hr => hahead r (h.waits ⟨hr.mem, hr.rank, hr.unacked⟩),
      fun o ho r hr => h.spared o ho r ⟨hr.mem, hr.rank, hr.unacked⟩⟩
  simp only [Consumer.step]
  split
  · next e c hx =>
    rw [hx] at hcur
    exact hmoved c hcur
  · next c hx =>
    rw [hx] at hcur
    exact hmoved c hcur
  · next o c hx =>
    rw [hx] at hcur hoffer
    obtain ⟨base, ho⟩ := hoffer (some o) rfl
    obtain ⟨-, -, hb, hspare⟩ := h.chosen ho.symm
    have hm := hmoved c hcur
    refine ⟨hm.valid, hm.cursor, fun o' ho' => ?_, hm.remembered, fun r hr => hm.kept r ⟨hr.mem, hr.rank, hr.unacked⟩,
      fun o' ho' r hr hne => ?_⟩
    · cases ho'
      exact hb
    · cases ho'
      exact hspare r ⟨hr.mem, hr.rank, hr.unacked⟩ hne

/-- As long as a record waits, a pass offers one, and stops at none of those that wait. -/
theorem offers (h : Guarded py s) {r : Record} (hr : r ∈ waiting py s.lines s.cursor) :
    ∃ o base n, chooseRecord (waiting py s.lines s.cursor) base = some o ∧
      s.step py .next = (.offered (some o), { s with cursor := { s.cursor with offset := n }, offered := some o }) ∧
      s.cursor.offset ≤ n ∧ ∀ r ∈ waiting py s.lines s.cursor, n ≤ r.offset := by
  obtain ⟨⟨n, hcur, hle, -, hahead⟩, hoffer, hvalid⟩ := h.passed
  obtain ⟨a, ha⟩ := hvalid h.valid
  obtain ⟨base, hbase⟩ := hoffer a ha
  cases a with
  | none =>
      rw [chooseRecord_none.mp hbase.symm] at hr
      cases hr
  | some o =>
      refine ⟨o, base, n, hbase.symm, ?_, hle, hahead⟩
      have hpass : nextRecord py s.lines.flatten s.cursor = (.ok (some o), { s.cursor with offset := n }) :=
        Prod.ext ha hcur
      simp only [Consumer.step, hpass]

theorem ack (h : Guarded py s) : Guarded py (s.step py .ack).2 := by
  simp only [Consumer.step]
  split
  · exact h
  · next o ho =>
    have hold : ∀ r, Owed py { s with
        cursor := o.ack py s.cursor, recorded := o.record.deliveryId py :: s.recorded } r →
        Owed py s r ∧ r.deliveryId py ≠ o.record.deliveryId py := by
      intro r hr
      have hnot := hr.unacked
      rw [List.mem_cons, not_or] at hnot
      exact ⟨⟨hr.mem, hr.rank, hnot.2⟩, hnot.1⟩
    refine ⟨h.valid, ?_, h.offer, fun id hid => ?_, fun r hr => ?_, fun o' ho' r hr hne => ?_⟩
    · rw [Offer.ack_offset]
      rcases le_total o.safeOffset s.cursor.offset with hle | hle
      · rw [max_eq_left hle]
        exact h.cursor
      · rw [max_eq_right hle]
        exact h.offer o ho
    · rw [Offer.ack_remembered] at hid
      rcases mem_remember hid with hid | rfl
      · exact List.mem_cons_of_mem _ (h.remembered id hid)
      · exact List.mem_cons_self
    · obtain ⟨hr, hne⟩ := hold r hr
      rw [Offer.ack_offset]
      exact max_le (h.kept r hr) (h.spared o ho r hr hne)
    · exact h.spared o' ho' r (hold r hr).1 hne

end Guarded

/-! ## Runs -/

/-- The listener appends complete valid records, and nothing else changes the inbox. -/
def appendsValid (py : Python) (_ : Consumer) : QueueInput → Prop
  | .append raw => ValidLine py raw
  | .next | .ack => True

theorem step_guarded {i : QueueInput} (hi : appendsValid py s i) (h : Guarded py s) :
    Guarded py (s.step py i).2 := by
  cases i with
  | append raw => exact h.append hi
  | next => exact h.next
  | ack => exact h.ack

/-- The ids that were recorded are those of the acknowledgements. -/
theorem recorded_eq {ok : Consumer → QueueInput → Prop} {tr : List (QueueInput × QueueAnswer)}
    (r : Sys.Run (queueMachine py) ok tr s) : s.recorded = ackedIds tr := by
  refine Sys.Run.induction (P := fun tr s => s.recorded = ackedIds tr) ?_ ?_ r
  · rintro s rfl
    rfl
  · intro tr s i _ h _
    rw [ackedIds, List.filterMap_cons]
    show (s.step py i).2.recorded = _
    cases i with
    | append raw => exact h
    | next =>
        simp only [queueMachine, Consumer.step]
        split <;> exact h
    | ack =>
        simp only [queueMachine, Consumer.step]
        split
        · exact h
        · exact congrArg (List.cons _) h

theorem run_guarded {tr : List (QueueInput × QueueAnswer)}
    (r : Sys.Run (queueMachine py) (appendsValid py) tr s) : Guarded py s := by
  refine Sys.Run.invariant (I := Guarded py) ?_ (fun s i h hi => step_guarded hi h) r
  rintro s rfl
  refine ⟨fun line hline => (by cases hline), ⟨[], [], rfl, rfl⟩, fun o ho => (by cases ho),
    fun id hid => (by cases hid), fun r hr => (by cases hr.mem), fun o ho => (by cases ho)⟩

structure Envelope where
  deliveryId : String
  room : String
  lastId : Nat
  priority : String
  deriving DecidableEq

def Envelope.line (e : Envelope) : String :=
  "\x7b\"delivery_id\":\"" ++ e.deliveryId ++ "\",\"room\":\"" ++ e.room ++ "\",\"last_id\":" ++
    toString e.lastId ++ ",\"priority\":\"" ++ e.priority ++ "\",\"event\":\x7b\"t\":\"msg\"\x7d\x7d\n"

def Envelope.raw (e : Envelope) : List UInt8 := e.line.toUTF8.data.toList

def Envelope.fields (e : Envelope) : List (String × Json) :=
  [("delivery_id", .str e.deliveryId), ("room", .str e.room), ("last_id", .int e.lastId),
    ("priority", .str e.priority), ("event", .obj [("t", .str "msg")])]

def courier (es : List Envelope) : Python where
  loads raw := (es.find? fun e => e.raw = raw).map fun e => .obj e.fields
  render _ := ""
  toInt _ := .error "ValueError"
  sha256Hex _ := ""
  casefold text := text

/-- Envelopes that can be told apart by their lines, each of a known priority. -/
structure Legible (es : List Envelope) : Prop where
  apart : ∀ e ∈ es, ∀ e' ∈ es, e'.raw = e.raw → e' = e
  line : ∀ e ∈ es, Lines.IsLine newline e.raw
  named : ∀ e ∈ es, e.deliveryId ≠ ""
  ranked : ∀ e ∈ es, ∃ rank, ∀ py, recordPriority py e.fields = .ok rank

theorem Legible.loads {es : List Envelope} (h : Legible es) {e : Envelope} (he : e ∈ es) :
    (courier es).loads e.raw = some (.obj e.fields) := by
  have hfind : es.find? (fun e' => e'.raw = e.raw) = some e := by
    cases hf : es.find? (fun e' => e'.raw = e.raw) with
    | none => simpa using List.find?_eq_none.mp hf e he
    | some e' =>
        have hraw : e'.raw = e.raw := by simpa using List.find?_some hf
        rw [h.apart e he e' (List.mem_of_find?_eq_some hf) hraw]
  show (es.find? fun e' => e'.raw = e.raw).map _ = _
  rw [hfind]
  rfl

/-- The queue reads the envelope as it was written. -/
theorem Legible.parseRecord_eq {es : List Envelope} (h : Legible es) {e : Envelope} (he : e ∈ es) (n : Nat) :
    parseRecord (courier es) e.raw n = .ok e.fields := by
  have hid : (Json.given "delivery_id" e.fields).isSome = true := by
    show (Option.filter Json.truthy (some (.str e.deliveryId))).isSome = true
    simp [Json.truthy, h.named e he]
  unfold parseRecord
  rw [h.loads he]
  simp only [bind_ok, require_ok, pure_ok, exists_const]
  exact ⟨hid, rfl⟩

theorem Legible.valid {es : List Envelope} (h : Legible es) {e : Envelope} (he : e ∈ es) :
    ValidLine (courier es) e.raw := by
  obtain ⟨rank, hrank⟩ := h.ranked e he
  refine ⟨h.line e he, ⟨e.fields, rank, h.parseRecord_eq he 0, hrank _, fun c => ?_⟩, fun fields hf => ?_⟩
  · have hleg : isLegacy e.fields = false := rfl
    rw [isAlreadyAcked, if_neg (by simp [hleg])]
    show ∃ b, (if c.ackedDeliveryIds.contains e.deliveryId then _ else _) = _
    split
    · exact ⟨_, rfl⟩
    · rw [hrank]
      exact ⟨_, rfl⟩
  · rw [h.loads he] at hf
    cases hf
    rfl

/-- A task, and after it a direct call. -/
def sampleEnvelopes : List Envelope :=
  [⟨"d-task-1", "demo", 4, "explicit_task"⟩, ⟨"d-msg-2", "demo", 5, "direct_user"⟩]

theorem sampleEnvelopes_legible : Legible sampleEnvelopes where
  apart := by decide +kernel
  line e he := ⟨e.raw.dropLast, by revert e; decide +kernel, by revert e; decide +kernel⟩
  named := by decide +kernel
  ranked e he := by
    simp only [sampleEnvelopes, List.mem_cons, List.not_mem_nil, or_false] at he
    rcases he with rfl | rfl
    · exact ⟨3, fun py => rfl⟩
    · exact ⟨1, fun py => rfl⟩

/-- The call overtakes the task and is acknowledged. -/
def sampleSchedule : List QueueInput := sampleEnvelopes.map (fun e => .append e.raw) ++ [.next, .ack]

def sampleConsumer : Consumer := ⟨[], emptyState, none, []⟩

theorem sampleSchedule_run : Sys.Run (queueMachine (courier sampleEnvelopes)) (appendsValid (courier sampleEnvelopes))
    ((queueMachine (courier sampleEnvelopes)).exec sampleSchedule [] sampleConsumer).1
    ((queueMachine (courier sampleEnvelopes)).exec sampleSchedule [] sampleConsumer).2 := by
  refine Sys.Run.exec sampleSchedule ?_ (.nil rfl)
  have hvalid := fun e he => @Legible.valid _ sampleEnvelopes_legible e he
  exact ⟨hvalid _ (by decide), hvalid _ (by decide), trivial, trivial, trivial⟩

/-- The task of the sample, as the queue reads it. -/
def sampleTask : Record :=
  ⟨Envelope.fields ⟨"d-task-1", "demo", 4, "explicit_task"⟩, 0,
    0 + (Envelope.raw ⟨"d-task-1", "demo", 4, "explicit_task"⟩).length, 3⟩

/-- The inbox after the schedule, and the task not among what is acknowledged. -/
theorem sampleSchedule_after :
    ((queueMachine (courier sampleEnvelopes)).exec sampleSchedule [] sampleConsumer).2.lines =
      [Envelope.raw ⟨"d-task-1", "demo", 4, "explicit_task"⟩, Envelope.raw ⟨"d-msg-2", "demo", 5, "direct_user"⟩] ∧
    sampleTask.deliveryId (courier sampleEnvelopes) ∉
      ackedIds ((queueMachine (courier sampleEnvelopes)).exec sampleSchedule [] sampleConsumer).1 ∧
    sampleTask.deliveryId (courier sampleEnvelopes) ∉
      ((queueMachine (courier sampleEnvelopes)).exec sampleSchedule [] sampleConsumer).2.recorded := by
  decide +kernel

theorem sampleTask_mem :
    sampleTask ∈ ((queueMachine (courier sampleEnvelopes)).exec sampleSchedule [] sampleConsumer).2.records
      (courier sampleEnvelopes) := by
  have hread := @readRecord_eq _ 0 3 _ _ (sampleEnvelopes_legible.parseRecord_eq List.mem_cons_self 0) rfl
  rw [Consumer.records, sampleSchedule_after.1, recordsAt_cons, hread]
  exact List.mem_append_left _ List.mem_cons_self

end Loca.Queue
