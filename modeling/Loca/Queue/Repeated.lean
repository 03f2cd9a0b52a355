/-
# `Loca.Queue.Repeated` — when an acknowledged delivery comes back

What is acknowledged is known by the cursor, by the watermark of its room, or by its id in a
history of bounded length.  The cursor may stay parked before one protected record while any
number of others are acknowledged behind it, the watermark says nothing of a protected record,
and the history drops its oldest id.  So a care signal behind a waiting task is offered again
once enough other deliveries were acknowledged.

`acknowledged_stays_done` has the condition on every step: what an acknowledgement makes the
queue forget is covered by one of the other two.  `care_comes_back` is the schedule that breaks
it.
-/
import Mathlib.Data.List.Induction
import Loca.Queue.Protected

namespace Loca.Queue

open Adapter Check

variable {py : Python} {s : Consumer}

/-! ## What the history keeps -/

/-- The ids that drop out of the history when `deliveryId` is acknowledged. -/
def forgotten (deliveryId : String) (acked : List String) : List String :=
  let kept := acked.filter fun existing => existing ≠ deliveryId
  kept.take (kept.length + 1 - ackHistoryLimit)

theorem remember_eq (deliveryId : String) (acked : List String) : remember deliveryId acked =
    let kept := acked.filter fun existing => existing ≠ deliveryId
    kept.drop (kept.length + 1 - ackHistoryLimit) ++ [deliveryId] := by
  have hpos : 1 ≤ ackHistoryLimit := by decide
  unfold remember
  dsimp only
  generalize (acked.filter fun existing => existing ≠ deliveryId) = kept
  generalize ackHistoryLimit = limit at hpos ⊢
  rw [List.length_append, List.length_singleton, List.drop_append_of_le_length (by omega)]

theorem mem_remember_self (deliveryId : String) (acked : List String) : deliveryId ∈ remember deliveryId acked := by
  rw [remember_eq]
  simp

/-- A remembered id stays remembered, unless it is the one that drops out. -/
theorem mem_remember_of_mem {deliveryId id : String} {acked : List String} (h : id ∈ acked) :
    id ∈ remember deliveryId acked ∨ id ∈ forgotten deliveryId acked := by
  rw [remember_eq, forgotten]
  by_cases hid : id = deliveryId
  · subst hid
    exact .inl (List.mem_append_right _ List.mem_cons_self)
  · have hkept : id ∈ acked.filter fun existing => existing ≠ deliveryId :=
      List.mem_filter.mpr ⟨h, by simpa using hid⟩
    rw [← List.take_append_drop ((acked.filter fun existing => existing ≠ deliveryId).length + 1 - ackHistoryLimit)
      (acked.filter fun existing => existing ≠ deliveryId)] at hkept
    rcases List.mem_append.mp hkept with htake | hdrop
    · exact .inr htake
    · exact .inl (List.mem_append_left _ hdrop)

/-! ## What an acknowledgement covers -/

/-- The delivery id is a string, so that the history can be asked for it. -/
def Record.Named (r : Record) : Prop := ∃ id, Json.field "delivery_id" r.fields = some (.str id)

/-- The acknowledgement of the offer leaves the record behind the cursor, or the code passes it
over without a look at its id. -/
def Record.Covered (py : Python) (s : Consumer) (o : Offer) (r : Record) : Prop :=
  r.offset < max s.cursor.offset o.safeOffset ∨ isLegacy r.fields = true ∨
    isProtected r.rank = false ∧ (isBelowWatermark py r.fields s.cursor = true ∨
      r.room py ≠ "" ∧ r.room py = o.record.room py ∧
        ∃ m ∈ r.lastId, ∃ n ∈ o.record.lastId, m ≤ n)

/-- What is forgotten in this acknowledgement is covered. -/
structure Remembers (py : Python) (s : Consumer) (o : Offer) : Prop where
  named : ∀ r ∈ s.records py, r.deliveryId py = o.record.deliveryId py → r.Named ∨ r.Covered py s o
  oldest : ∀ id ∈ forgotten (o.record.deliveryId py) s.cursor.ackedDeliveryIds,
    ∀ r ∈ s.records py, r.deliveryId py = id → r.Covered py s o

/-- Whole lines are appended, a delivery that was acknowledged only when the code still knows it,
and no acknowledgement uncovers an earlier one. -/
def Retains (py : Python) (s : Consumer) : QueueInput → Prop
  | .append raw => Lines.IsLine newline raw ∧ ∀ r ∈ recordsAt py s.lines.flatten.length [raw],
      r.deliveryId py ∈ s.recorded → r.settled py s.cursor = true
  | .next => True
  | .ack => ∀ o, s.offered = some o → Remembers py s o

/-! ## The invariant -/

/-- Every record of an acknowledged delivery is behind the cursor or known to the code. -/
structure Done (py : Python) (s : Consumer) : Prop where
  lines : ∀ line ∈ s.lines, Lines.IsLine newline line
  cursor : Boundary s.lines s.cursor.offset
  offer : ∀ o, s.offered = some o → Boundary s.lines o.safeOffset
  known : ∀ r ∈ s.records py, r.deliveryId py ∈ s.recorded →
    r.offset < s.cursor.offset ∨ r.settled py s.cursor = true

/-- What the code asks a record. -/
theorem settled_iff {r : Record} {c : Cursor} : r.settled py c = true ↔
    isLegacy r.fields = true ∨ (∃ id ∈ c.ackedDeliveryIds, Json.field "delivery_id" r.fields = some (.str id)) ∨
      isProtected r.rank = false ∧ isBelowWatermark py r.fields c = true := by
  have hrem : (isRemembered r.fields c).toOption.any id = true ↔
      ∃ id ∈ c.ackedDeliveryIds, Json.field "delivery_id" r.fields = some (.str id) := by
    unfold isRemembered
    cases hid : Json.field "delivery_id" r.fields with
    | none => simp [Except.toOption]
    | some v => cases v <;> simp [Except.toOption]
  simp only [Record.settled, Bool.or_eq_true, Bool.and_eq_true, Bool.not_eq_true', hrem, or_assoc]

/-- The offset does not matter for what is known. -/
theorem settled_offset {r : Record} {c : Cursor} (n : Nat) :
    r.settled py { c with offset := n } = r.settled py c := rfl

/-- The watermark of a room after the acknowledgement. -/
theorem ack_watermark (o : Offer) (c : Cursor) (room : String) :
    ((o.ack py c).rooms.get room).getD 0 = match o.record.lastId with
      | some n => if room ≠ "" ∧ room = o.record.room py then max ((c.rooms.get room).getD 0) n.toNat
          else (c.rooms.get room).getD 0
      | none => (c.rooms.get room).getD 0 := by
  have hrooms : (o.ack py c).rooms = match o.record.lastId with
      | some lastId => if o.record.room py = "" then c.rooms
          else c.rooms.put (o.record.room py) (max ((c.rooms.get (o.record.room py)).getD 0) lastId.toNat)
      | none => c.rooms := rfl
  rw [hrooms]
  cases o.record.lastId with
  | none => rfl
  | some lastId =>
      dsimp only
      by_cases hroom : room = o.record.room py
      · by_cases hempty : o.record.room py = ""
        · rw [if_pos hempty, if_neg (fun h => h.1 (hroom.trans hempty))]
        · rw [if_neg hempty, if_pos ⟨fun h => hempty (hroom.symm.trans h), hroom⟩, ← hroom, Assoc.get_put_self]
          rfl
      · have hother : ¬ (room ≠ "" ∧ room = o.record.room py) := fun h => hroom h.2
        rw [if_neg hother]
        split
        · rfl
        · rw [Assoc.get_put_ne hroom]

/-- A watermark only rises. -/
theorem isBelowWatermark_ack {fields : List (String × Json)} {c : Cursor} (o : Offer)
    (h : isBelowWatermark py fields c = true) : isBelowWatermark py fields (o.ack py c) = true := by
  unfold isBelowWatermark at h ⊢
  rw [Bool.and_eq_true, Option.any_eq_true] at h ⊢
  obtain ⟨hroom, n, hn, hle⟩ := h
  refine ⟨hroom, n, hn, decide_eq_true ?_⟩
  have hle := of_decide_eq_true hle
  rw [ack_watermark]
  split
  · split
    · omega
    · exact hle
  · exact hle

/-- What is covered is behind the cursor or known, once it is acknowledged. -/
theorem Record.Covered.known {o : Offer} {r : Record} (h : r.Covered py s o) :
    r.offset < (o.ack py s.cursor).offset ∨ r.settled py (o.ack py s.cursor) = true := by
  rcases h with hbehind | hleg | ⟨hplain, hbelow⟩
  · exact .inl hbehind
  · exact .inr (settled_iff.mpr (.inl hleg))
  · refine .inr (settled_iff.mpr (.inr (.inr ⟨hplain, ?_⟩)))
    rcases hbelow with hbelow | ⟨hne, hsame, m, hm, n, hn, hle⟩
    · exact isBelowWatermark_ack o hbelow
    · unfold isBelowWatermark
      rw [Bool.and_eq_true, Option.any_eq_true]
      refine ⟨decide_eq_true hne, m, hm, decide_eq_true ?_⟩
      have hmark := @ack_watermark py o s.cursor (r.room py)
      rw [Option.mem_def.mp hn] at hmark
      dsimp only at hmark
      rw [if_pos ⟨hne, hsame⟩] at hmark
      show m ≤ ((((o.ack py s.cursor).rooms.get (r.room py)).getD 0 : Nat) : Int)
      omega

namespace Done

theorem append (h : Done py s) {raw : List UInt8} (hraw : Retains py s (.append raw)) :
    Done py { s with lines := s.lines ++ [raw] } := by
  refine ⟨fun line hline => ?_, h.cursor.append _, fun o ho => (h.offer o ho).append _, fun r hr hrec => ?_⟩
  · rcases List.mem_append.mp hline with hline | hline
    · exact h.lines line hline
    · rw [List.mem_singleton.mp hline]
      exact hraw.1
  · rw [records_append] at hr
    rcases List.mem_append.mp hr with hr | hr
    · exact h.known r hr hrec
    · exact .inr (hraw.2 r hr hrec)

/-- A pass offers nothing that was acknowledged, and keeps what is known. -/
theorem next (h : Done py s) : Done py (s.step py .next).2 ∧
    ∀ o, (s.step py .next).1 = .offered (some o) → o.record.deliveryId py ∉ s.recorded := by
  obtain ⟨⟨n, hcur, hle, hn, -⟩, hoffer, -⟩ := nextRecord_spec h.lines h.cursor
  have hmoved : ∀ c, c = { s.cursor with offset := n } → Done py { s with cursor := c } := by
    rintro c rfl
    refine ⟨h.lines, hn, h.offer, fun r hr hrec => ?_⟩
    rcases h.known r hr hrec with hbehind | hknown
    · exact .inl (hbehind.trans_le hle)
    · exact .inr hknown
  simp only [Consumer.step]
  split
  · next e c hx =>
    rw [hx] at hcur
    exact ⟨hmoved c hcur, fun o ho => by cases ho⟩
  · next c hx =>
    rw [hx] at hcur
    exact ⟨hmoved c hcur, fun o ho => by cases ho⟩
  · next o c hx =>
    rw [hx] at hcur hoffer
    obtain ⟨base, ho⟩ := hoffer (some o) rfl
    have hwaits : ∀ r ∈ waiting py s.lines s.cursor, r ∈ s.records py := fun r hr => (List.mem_filter.mp hr).1
    have hc := chooseRecord_spec ((recordsAt_ordered 0 s.lines).filter _)
      (fun r hr => (recordsAt_within h.lines (hwaits r hr)).2.1) ho.symm
    have hm := hmoved c hcur
    refine ⟨⟨hm.lines, hm.cursor, fun o' ho' => ?_, hm.known⟩, fun o' ho' hrec => ?_⟩
    · cases ho'
      rcases hc.safe with ⟨r, hr, -, -, he⟩ | ⟨he, -⟩
      · exact he ▸ (recordsAt_boundary (hwaits r hr)).1
      · exact he ▸ (recordsAt_boundary (hwaits _ hc.mem)).2
    · cases ho'
      obtain ⟨hmem, hopen⟩ := List.mem_filter.mp hc.mem
      rw [Bool.and_eq_true, Bool.not_eq_true', decide_eq_true_eq] at hopen
      rcases h.known _ hmem hrec with hbehind | hknown
      · omega
      · rw [hopen.2] at hknown
        cases hknown

theorem ack (h : Done py s) (hok : Retains py s .ack) : Done py (s.step py .ack).2 := by
  simp only [Consumer.step]
  split
  · exact h
  · next o ho =>
    have hrem := hok o ho
    refine ⟨h.lines, ?_, h.offer, fun r hr hrec => ?_⟩
    · rw [Offer.ack_offset]
      rcases le_total o.safeOffset s.cursor.offset with hle | hle
      · rw [max_eq_left hle]
        exact h.cursor
      · rw [max_eq_right hle]
        exact h.offer o ho
    · rcases List.mem_cons.mp hrec with hid | hrec
      · rcases hrem.named r hr hid with ⟨id, hname⟩ | hcov
        · -- the id goes into the history
          refine .inr (settled_iff.mpr (.inr (.inl ⟨id, ?_, hname⟩)))
          have hrid : r.deliveryId py = id := by
            unfold Record.deliveryId
            rw [hname]
            rfl
          rw [Offer.ack_remembered, ← hrid, hid]
          exact mem_remember_self _ _
        · exact hcov.known
      · rcases h.known r hr hrec with hbehind | hknown
        · exact .inl (hbehind.trans_le (le_max_left _ _))
        · rcases settled_iff.mp hknown with hleg | ⟨id, hmem, hname⟩ | ⟨hplain, hbelow⟩
          · exact .inr (settled_iff.mpr (.inl hleg))
          · rcases @mem_remember_of_mem (o.record.deliveryId py) id _ hmem with hstays | hdrops
            · exact .inr (settled_iff.mpr (.inr (.inl ⟨id, by rwa [Offer.ack_remembered], hname⟩)))
            · refine (hrem.oldest id hdrops r hr ?_).known
              unfold Record.deliveryId
              rw [hname]
              rfl
          · exact .inr (settled_iff.mpr (.inr (.inr ⟨hplain, isBelowWatermark_ack o hbelow⟩)))

end Done

/-! ## Runs -/

theorem step_done {i : QueueInput} (hi : Retains py s i) (h : Done py s) : Done py (s.step py i).2 := by
  cases i with
  | append raw => exact h.append hi
  | next => exact h.next.1
  | ack => exact h.ack hi

theorem run_done {tr : List (QueueInput × QueueAnswer)} (r : Sys.Run (queueMachine py) (Retains py) tr s) :
    Done py s := by
  refine Sys.Run.invariant (I := Done py) ?_ (fun s i h hi => step_done hi h) r
  rintro s rfl
  exact ⟨fun line hline => (by cases hline), ⟨[], [], rfl, rfl⟩, fun o ho => (by cases ho),
    fun r hr => (by cases hr)⟩

/-- Along a run that retains what it acknowledges, no acknowledged delivery is offered again. -/
theorem acknowledged_stays_done {tr : List (QueueInput × QueueAnswer)}
    (hrun : Sys.Run (queueMachine py) (Retains py) tr s) {o : Offer}
    (ho : (s.step py .next).1 = .offered (some o)) : o.record.deliveryId py ∉ ackedIds tr := by
  rw [← recorded_eq hrun]
  exact (run_done hrun).next.2 o ho

/-- Nothing is uncovered as long as nothing was remembered. -/
theorem Remembers.first {o : Offer} (hn : ∀ r ∈ s.records py, r.Named) (he : s.cursor.ackedDeliveryIds = []) :
    Remembers py s o := by
  refine ⟨fun r hr _ => .inl (hn r hr), fun id hid => ?_⟩
  rw [he, forgotten, List.filter_nil, List.take_nil] at hid
  cases hid

/-- The records of envelopes carry their ids as strings. -/
theorem Legible.named_records {es : List Envelope} (h : Legible es) {start : Nat} {lines : List (List UInt8)}
    (hl : ∀ line ∈ lines, ∃ e ∈ es, e.raw = line) {r : Record} (hr : r ∈ recordsAt (courier es) start lines) :
    r.Named := by
  obtain ⟨p, hp, hread⟩ := mem_recordsAt hr
  obtain ⟨hfields, -, -, -⟩ := readRecord_some hread
  obtain ⟨e, he, hraw⟩ := hl _ (Lines.place_within hp).1
  rw [← hraw, h.parseRecord_eq he] at hfields
  exact ⟨e.deliveryId, by rw [← Except.ok.inj hfields]; rfl⟩

theorem sampleSchedule_retains : Sys.Run (queueMachine (courier sampleEnvelopes)) (Retains (courier sampleEnvelopes))
    ((queueMachine (courier sampleEnvelopes)).exec sampleSchedule [] sampleConsumer).1
    ((queueMachine (courier sampleEnvelopes)).exec sampleSchedule [] sampleConsumer).2 := by
  refine Sys.Run.exec sampleSchedule ?_ (.nil rfl)
  have hline := fun e he => sampleEnvelopes_legible.line e he
  refine ⟨⟨hline _ (by decide), fun r _ hrec => (by cases hrec)⟩, ⟨hline _ (by decide), fun r _ hrec => (by cases hrec)⟩,
    trivial, fun o _ => ?_, trivial⟩
  exact .first (fun r hr => sampleEnvelopes_legible.named_records (by decide +kernel) hr) (by decide +kernel)

theorem acknowledged_stays_done_sample : ∃ o,
    (((queueMachine (courier sampleEnvelopes)).exec sampleSchedule [] sampleConsumer).2.step
      (courier sampleEnvelopes) .next).1 = .offered (some o) ∧
    o.record.deliveryId (courier sampleEnvelopes) ∉
      ackedIds ((queueMachine (courier sampleEnvelopes)).exec sampleSchedule [] sampleConsumer).1 := by
  have howed : Owed (courier sampleEnvelopes)
      ((queueMachine (courier sampleEnvelopes)).exec sampleSchedule [] sampleConsumer).2 sampleTask :=
    ⟨sampleTask_mem, rfl, sampleSchedule_after.2.2⟩
  have hguard := run_guarded sampleSchedule_run
  obtain ⟨o, -, n, -, hstep, -⟩ := hguard.offers (hguard.waits howed)
  have ho := congrArg Prod.fst hstep
  exact ⟨o, ho, acknowledged_stays_done sampleSchedule_retains ho⟩

/-! ## A care signal that comes back

A task waits at the front of the inbox, and behind it one care signal more than the history
holds. -/

def waitingTask : Envelope := ⟨"demo:task:1", "demo", 0, "explicit_task"⟩

def careNo (k : Nat) : Envelope := ⟨"demo:care:" ++ String.ofList (List.replicate k 'c'), "demo", 0, "care_signal"⟩

def careIds : List String := (List.range (ackHistoryLimit + 1)).map fun k => (careNo k).deliveryId

def busyInbox : List Envelope := waitingTask :: (List.range (ackHistoryLimit + 1)).map careNo

def careHead : List UInt8 := "\x7b\"delivery_id\":\"demo:care:".toUTF8.data.toList

def careTail : List UInt8 :=
  "\",\"room\":\"demo\",\"last_id\":0,\"priority\":\"care_signal\",\"event\":\x7b\"t\":\"msg\"\x7d\x7d".toUTF8.data.toList

theorem bytes_append (s t : String) :
    (s ++ t).toUTF8.data.toList = s.toUTF8.data.toList ++ t.toUTF8.data.toList := by
  rw [String.toUTF8_eq_toByteArray, String.toByteArray_append, ByteArray.data_append, Array.toList_append]
  rfl

/-- An envelope's line in the pieces it is written in. -/
theorem Envelope.raw_eq (e : Envelope) : e.raw =
    "\x7b\"delivery_id\":\"".toUTF8.data.toList ++ (e.deliveryId.toUTF8.data.toList ++
      ("\",\"room\":\"".toUTF8.data.toList ++ (e.room.toUTF8.data.toList ++ ("\",\"last_id\":".toUTF8.data.toList ++
        ((toString e.lastId).toUTF8.data.toList ++ (",\"priority\":\"".toUTF8.data.toList ++
          (e.priority.toUTF8.data.toList ++ "\",\"event\":\x7b\"t\":\"msg\"\x7d\x7d\n".toUTF8.data.toList))))))) := by
  unfold Envelope.raw Envelope.line
  iterate 8 rw [bytes_append]
  iterate 7 rw [List.append_assoc]

theorem careId_bytes (k : Nat) : (careNo k).deliveryId.toUTF8.data.toList =
    "demo:care:".toUTF8.data.toList ++ List.replicate k 99 := by
  have hc : (List.replicate k 'c').utf8Encode.data.toList = List.replicate k 99 := by
    induction k with
    | zero => rfl
    | succ k ih =>
        rw [List.replicate_succ, List.utf8Encode_cons, List.utf8Encode_singleton,
          String.utf8EncodeChar_eq_singleton (by decide), ByteArray.data_append, Array.toList_append, ih]
        rfl
  have hof : (String.ofList (List.replicate k 'c')).toUTF8 = (List.replicate k 'c').utf8Encode := by
    rw [String.toUTF8_eq_toByteArray, String.toByteArray_ofList]
  rw [← hc, ← hof]
  exact bytes_append "demo:care:" _

/-- What the lines of the care signals are made of. -/
theorem care_parts :
    ("\x7b\"delivery_id\":\"".toUTF8.data.toList ++ "demo:care:".toUTF8.data.toList = careHead ∧
    "\",\"room\":\"".toUTF8.data.toList ++ ("demo".toUTF8.data.toList ++
      ("\",\"last_id\":".toUTF8.data.toList ++ ((toString 0).toUTF8.data.toList ++
        (",\"priority\":\"".toUTF8.data.toList ++ ("care_signal".toUTF8.data.toList ++
          "\",\"event\":\x7b\"t\":\"msg\"\x7d\x7d\n".toUTF8.data.toList))))) = careTail ++ [newline]) ∧
    (newline ∉ careHead ∧ newline ∉ careTail) ∧ careHead ≠ waitingTask.raw.take careHead.length ∧
    newline ∉ waitingTask.raw.dropLast ∧ waitingTask.raw = waitingTask.raw.dropLast ++ [newline] := by
  decide +kernel

theorem careNo_raw (k : Nat) : (careNo k).raw = careHead ++ (List.replicate k 99 ++ (careTail ++ [newline])) := by
  obtain ⟨hhead, htail⟩ := care_parts.1
  have hfields : (careNo k).room = "demo" ∧ (careNo k).lastId = 0 ∧ (careNo k).priority = "care_signal" := ⟨rfl, rfl, rfl⟩
  obtain ⟨hroom, hlast, hprio⟩ := hfields
  rw [← hhead, ← htail, (careNo k).raw_eq, careId_bytes, hroom, hlast, hprio, List.append_assoc, List.append_assoc]

theorem careNo_line (k : Nat) : Lines.IsLine newline (careNo k).raw := by
  obtain ⟨hhead, htail⟩ := care_parts.2.1
  refine ⟨careHead ++ (List.replicate k 99 ++ careTail), ?_, ?_⟩
  · intro hmem
    rcases List.mem_append.mp hmem with hmem | hmem
    · exact hhead hmem
    · rcases List.mem_append.mp hmem with hmem | hmem
      · exact absurd (List.eq_of_mem_replicate hmem) (by decide)
      · exact htail hmem
  · rw [careNo_raw]
    simp only [List.append_assoc]

theorem careNo_injective {j k : Nat} (h : (careNo j).raw = (careNo k).raw) : j = k := by
  have hlen := congrArg List.length h
  rw [careNo_raw, careNo_raw] at hlen
  simp only [List.length_append, List.length_replicate] at hlen
  omega

theorem careNo_apart (k : Nat) : (careNo k).raw ≠ waitingTask.raw := by
  intro h
  have htake := congrArg (List.take careHead.length) h
  rw [careNo_raw, List.take_left] at htake
  exact care_parts.2.2.1 htake

theorem mem_busyInbox {e : Envelope} (h : e ∈ busyInbox) :
    e = waitingTask ∨ ∃ k, e = careNo k ∧ e.deliveryId ∈ careIds := by
  rcases List.mem_cons.mp h with rfl | h
  · exact .inl rfl
  · obtain ⟨k, hk, rfl⟩ := List.mem_map.mp h
    exact .inr ⟨k, rfl, List.mem_map_of_mem hk⟩

theorem busyInbox_legible : Legible busyInbox where
  apart e he e' he' hraw := by
    rcases mem_busyInbox he with rfl | ⟨j, rfl, -⟩ <;> rcases mem_busyInbox he' with rfl | ⟨k, rfl, -⟩
    · rfl
    · exact absurd hraw (careNo_apart k)
    · exact absurd hraw.symm (careNo_apart j)
    · rw [careNo_injective hraw]
  line e he := by
    rcases mem_busyInbox he with rfl | ⟨k, rfl, -⟩
    · exact ⟨waitingTask.raw.dropLast, care_parts.2.2.2.1, care_parts.2.2.2.2⟩
    · exact careNo_line k
  named e he := by
    rcases mem_busyInbox he with rfl | ⟨k, rfl, -⟩
    · decide
    · intro hnil
      have hlist := congrArg String.toList hnil
      rw [careNo, String.toList_append] at hlist
      exact absurd hlist (by simp)
  ranked e he := by
    rcases mem_busyInbox he with rfl | ⟨k, rfl, -⟩
    · exact ⟨3, fun py => rfl⟩
    · exact ⟨2, fun py => rfl⟩

theorem careIds_nodup : careIds.Nodup := by
  refine List.Nodup.map_on (fun j _ k _ h => ?_) List.nodup_range
  have hlen := congrArg (fun id : String => id.toList.length) h
  simp only [careNo, String.toList_append, String.toList_ofList, List.length_append, List.length_replicate] at hlen
  omega

/-- The records of the inbox: the task at its front, and the care signals. -/
theorem busy_records {r : Record} (h : r ∈ recordsAt (courier busyInbox) 0 (busyInbox.map Envelope.raw)) :
    (r.rank = 3 ∧ r.fields = waitingTask.fields) ∨ (r.rank = 2 ∧ r.deliveryId (courier busyInbox) ∈ careIds) := by
  obtain ⟨p, hp, hr⟩ := mem_recordsAt h
  obtain ⟨hfields, hrank, -, -⟩ := readRecord_some hr
  obtain ⟨e, he, hraw⟩ := List.mem_map.mp (Lines.place_within hp).1
  rw [← hraw, busyInbox_legible.parseRecord_eq he] at hfields
  obtain hf : e.fields = r.fields := Except.ok.inj hfields
  rw [← hf] at hrank
  rcases mem_busyInbox he with rfl | ⟨k, rfl, hid⟩
  · exact .inl ⟨(Except.ok.inj hrank).symm, hf.symm⟩
  · refine .inr ⟨(Except.ok.inj hrank).symm, ?_⟩
    unfold Record.deliveryId
    rw [← hf]
    exact hid

/-- Every envelope of the inbox is read somewhere. -/
theorem busy_read {e : Envelope} (he : e ∈ busyInbox) {rank : Nat}
    (hrank : recordPriority (courier busyInbox) e.fields = .ok rank) :
    ∃ r ∈ recordsAt (courier busyInbox) 0 (busyInbox.map Envelope.raw), r.fields = e.fields ∧ r.rank = rank := by
  obtain ⟨pre, post, hes⟩ := List.append_of_mem he
  have hread := @readRecord_eq (courier busyInbox) (0 + (pre.map Envelope.raw).flatten.length) rank e.raw e.fields
    (busyInbox_legible.parseRecord_eq he _) hrank
  refine ⟨_, List.mem_filterMap.mpr ⟨_, Lines.mem_place.mpr ⟨pre.map Envelope.raw, post.map Envelope.raw, ?_, rfl⟩, hread⟩,
    rfl, rfl⟩
  show _ = _ ++ e.raw :: _
  rw [← List.map_cons, ← List.map_append]
  exact congrArg (List.map Envelope.raw) hes

theorem remember_length (deliveryId : String) (acked : List String) :
    (remember deliveryId acked).length ≤ ackHistoryLimit := by
  unfold remember
  dsimp only
  generalize (acked.filter fun existing => existing ≠ deliveryId) ++ [deliveryId] = all
  generalize ackHistoryLimit = limit
  rw [List.length_drop]
  omega

/-- A schedule on the busy inbox: the cursor is parked at the task, and so many care signals were
acknowledged, each once. -/
structure Parked (n : Nat) (tr : List (QueueInput × QueueAnswer)) (s : Consumer) : Prop where
  run : Sys.Run (queueMachine (courier busyInbox)) (appendsValid (courier busyInbox)) tr s
  lines : s.lines = busyInbox.map Envelope.raw
  offset : s.cursor.offset = 0
  bounded : s.cursor.ackedDeliveryIds.length ≤ ackHistoryLimit
  count : s.recorded.length = n
  once : s.recorded.Nodup
  care : ∀ id ∈ s.recorded, id ∈ careIds

theorem parked_start : ∃ tr s, Parked 0 tr s := by
  have happend : ∀ es : List Envelope, (∀ e ∈ es, e ∈ busyInbox) → ∃ tr s,
      Sys.Run (queueMachine (courier busyInbox)) (appendsValid (courier busyInbox)) tr s ∧
        s = ⟨es.map Envelope.raw, emptyState, none, []⟩ := by
    intro es
    induction es using List.reverseRecOn with
    | nil => exact fun _ => ⟨[], _, .nil rfl, rfl⟩
    | append_singleton es e ih =>
        intro hsub
        obtain ⟨tr, s, hrun, rfl⟩ := ih fun e' he' => hsub e' (List.mem_append_left _ he')
        have hvalid : ValidLine (courier busyInbox) e.raw := busyInbox_legible.valid (hsub e (by simp))
        have hok : appendsValid (courier busyInbox) ⟨es.map Envelope.raw, emptyState, none, []⟩ (.append e.raw) := hvalid
        refine ⟨_, _, hrun.snoc (.append e.raw) hok, ?_⟩
        show (⟨es.map Envelope.raw ++ [e.raw], emptyState, none, []⟩ : Consumer) = _
        rw [List.map_append]
        rfl
  obtain ⟨tr, s, hrun, rfl⟩ := happend busyInbox fun e he => he
  exact ⟨tr, _, hrun, rfl, rfl, Nat.zero_le _, rfl, List.nodup_nil, fun id hid => by cases hid⟩

theorem Parked.guarded {n : Nat} {tr : List (QueueInput × QueueAnswer)} (h : Parked n tr s) :
    Guarded (courier busyInbox) s := run_guarded h.run

theorem Parked.mem_records {n : Nat} {tr : List (QueueInput × QueueAnswer)} (h : Parked n tr s) {r : Record} :
    r ∈ s.records (courier busyInbox) ↔ r ∈ recordsAt (courier busyInbox) 0 (busyInbox.map Envelope.raw) := by
  rw [Consumer.records, h.lines]

/-- A protected record whose id is not remembered waits. -/
theorem Parked.waits {n : Nat} {tr : List (QueueInput × QueueAnswer)} (h : Parked n tr s) {r : Record}
    (hr : r ∈ s.records (courier busyInbox)) (hrank : isProtected r.rank = true)
    (hid : r.deliveryId (courier busyInbox) ∉ s.cursor.ackedDeliveryIds) :
    r ∈ waiting (courier busyInbox) s.lines s.cursor := by
  obtain ⟨p, hp, hread⟩ := mem_recordsAt hr
  obtain ⟨hfields, hr', -, -⟩ := readRecord_some hread
  have hleg := (h.guarded.valid p.2 (Lines.place_within hp).1).unmarked_protected hfields hr' hrank
  refine List.mem_filter.mpr ⟨hr, ?_⟩
  rw [h.offset]
  have hopen : r.settled (courier busyInbox) s.cursor = false := by
    by_contra hset
    rcases settled_iff.mp (by simpa using hset) with hl | ⟨id, hmem, hname⟩ | ⟨hplain, -⟩
    · rw [hleg] at hl
      cases hl
    · apply hid
      unfold Record.deliveryId
      rw [hname]
      exact hmem
    · rw [hrank] at hplain
      cases hplain
  simp [hopen]

theorem waitingTask_apart : waitingTask.deliveryId ∉ careIds := by
  intro hmem
  obtain ⟨k, -, hid⟩ := List.mem_map.mp hmem
  have hlist : ("demo:care:" ++ String.ofList (List.replicate k 'c')).toList = "demo:task:1".toList :=
    congrArg String.toList hid
  have htake := congrArg (List.take 6) hlist
  rw [String.toList_append, List.take_append_of_le_length (by decide)] at htake
  revert htake
  decide

/-- The task, as the queue reads it. -/
def taskRecord : Record := ⟨waitingTask.fields, 0, 0 + waitingTask.raw.length, 3⟩

/-- It stands at the front, and nobody acknowledges it. -/
theorem Parked.front {n : Nat} {tr : List (QueueInput × QueueAnswer)} (h : Parked n tr s) :
    taskRecord ∈ waiting (courier busyInbox) s.lines s.cursor := by
  have hread : readRecord (courier busyInbox) (0, waitingTask.raw) = some taskRecord :=
    readRecord_eq (busyInbox_legible.parseRecord_eq List.mem_cons_self 0) rfl
  refine h.waits (h.mem_records.mpr ?_) rfl fun hmem => ?_
  · rw [busyInbox, List.map_cons, recordsAt_cons]
    exact List.mem_append_left _ (Option.mem_toList.mpr hread)
  · exact waitingTask_apart (h.care _ (h.guarded.remembered _ hmem))

/-- There is always a care signal that is not remembered, so one is offered, and the cursor stays
at the task. -/
theorem Parked.offers {n : Nat} {tr : List (QueueInput × QueueAnswer)} (h : Parked n tr s) :
    ∃ o, (s.step (courier busyInbox) .next).1 = .offered (some o) ∧
      o.record.deliveryId (courier busyInbox) ∈ careIds ∧ o.safeOffset = 0 ∧
      (s.step (courier busyInbox) .next).2 = { s with offered := some o } := by
  -- more signals than the history holds
  have hmiss : ∃ id ∈ careIds, id ∉ s.cursor.ackedDeliveryIds := by
    by_contra hno
    have hall : ∀ id ∈ careIds, id ∈ s.cursor.ackedDeliveryIds := fun id hid => by_contra fun hn => hno ⟨id, hid, hn⟩
    have hle := (List.subperm_of_subset careIds_nodup hall).length_le
    have hlen : careIds.length = ackHistoryLimit + 1 := by rw [careIds, List.length_map, List.length_range]
    have := h.bounded
    omega
  obtain ⟨id, hcare, hid⟩ := hmiss
  obtain ⟨k, hk, rfl⟩ := List.mem_map.mp hcare
  obtain ⟨r, hr, hfields, hrank⟩ := @busy_read (careNo k) (List.mem_cons_of_mem _ (List.mem_map_of_mem hk)) 2 rfl
  have hrid : r.deliveryId (courier busyInbox) = (careNo k).deliveryId := by
    unfold Record.deliveryId
    rw [hfields]
    rfl
  have hwaits := h.waits (h.mem_records.mpr hr) (by rw [hrank]; rfl) (by rwa [hrid])
  have hfront := h.front
  obtain ⟨o, base, n, hchosen, hstep, -, hahead⟩ := h.guarded.offers hwaits
  obtain ⟨hc, hmem, -, -⟩ := h.guarded.chosen hchosen
  have hzero : n = 0 := Nat.le_zero.mp (hahead _ hfront)
  refine ⟨o, by rw [hstep], ?_, ?_, ?_⟩
  · rcases busy_records (h.mem_records.mp hmem) with ⟨htask, -⟩ | ⟨-, hocare⟩
    · have := hc.best r hwaits
      omega
    · exact hocare
  · have hpos := (recordsAt_within h.guarded.lines hmem).2.1
    have hlen : 0 < waitingTask.raw.length := (busyInbox_legible.line _ List.mem_cons_self).length_pos
    have hbefore : taskRecord.offset < o.record.offset := by
      rcases records_apart (List.mem_filter.mp hfront).1 hmem with he | hle | hle
      · have hrank' : o.record.rank = 3 := by rw [← he]; rfl
        have := hc.best r hwaits
        omega
      · exact hlen.trans_le ((Nat.zero_add _).symm.le.trans hle)
      · exact absurd (hpos.trans_le hle) (Nat.not_lt_zero _)
    exact Nat.le_zero.mp (hc.spared _ hfront rfl hbefore)
  · rw [hstep, hzero, ← h.offset]

/-- If nothing that was acknowledged were offered again, one more signal could be acknowledged. -/
theorem Parked.ack {n : Nat} {tr : List (QueueInput × QueueAnswer)} (h : Parked n tr s)
    (hfresh : ∀ o, (s.step (courier busyInbox) .next).1 = .offered (some o) →
      o.record.deliveryId (courier busyInbox) ∉ s.recorded) : ∃ tr' s', Parked (n + 1) tr' s' := by
  obtain ⟨o, ho, hcare, hsafe, hs⟩ := h.offers
  have hnext : Sys.Run (queueMachine (courier busyInbox)) (appendsValid (courier busyInbox))
      ((.next, (s.step (courier busyInbox) .next).1) :: tr) (s.step (courier busyInbox) .next).2 :=
    h.run.snoc QueueInput.next trivial
  rw [hs] at hnext
  refine ⟨_, _, hnext.snoc QueueInput.ack trivial, h.lines, ?_, remember_length _ _, ?_, ?_, ?_⟩
  · show max s.cursor.offset o.safeOffset = 0
    rw [h.offset, hsafe]
    rfl
  · exact congrArg (· + 1) h.count
  · exact List.nodup_cons.mpr ⟨hfresh o ho, h.once⟩
  · intro id hid
    rcases List.mem_cons.mp hid with rfl | hid
    · exact hcare
    · exact h.care id hid

/-- Among more signals than the history holds one comes back, though its delivery was
acknowledged: the inbox has complete valid records only. -/
theorem care_comes_back : ∃ tr s o,
    Sys.Run (queueMachine (courier busyInbox)) (appendsValid (courier busyInbox)) tr s ∧
      (s.step (courier busyInbox) .next).1 = .offered (some o) ∧
      o.record.deliveryId (courier busyInbox) ∈ ackedIds tr := by
  by_contra hnone
  have hall : ∀ n, ∃ tr s, Parked n tr s := by
    intro n
    induction n with
    | zero => exact parked_start
    | succ n ih =>
        obtain ⟨tr, s, h⟩ := ih
        refine h.ack fun o ho hrec => hnone ⟨tr, s, o, h.run, ho, ?_⟩
        rwa [← recorded_eq h.run]
  obtain ⟨tr, s, h⟩ := hall (ackHistoryLimit + 2)
  have hle := (List.subperm_of_subset h.once h.care).length_le
  have hlen : careIds.length = ackHistoryLimit + 1 := by rw [careIds, List.length_map, List.length_range]
  have := h.count
  omega

end Loca.Queue
