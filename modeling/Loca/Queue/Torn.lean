/-
# `Loca.Queue.Torn` — an inbox read while its last line is being written

The listener appends to the inbox while the queue reads it, so a pass may find complete lines and
then a proper beginning of the next one.  `readline` returns that beginning like any other line,
and `next_record` parses it: `ingest_inbox` leaves an unfinished line alone, this reader does not.

What a pass makes of the beginning is decided by three questions, asked in the order of the
source: does it read as a record, is that record acknowledged, and would it be chosen.
`nextRecord_torn` has the answer for each, and `Unnoticed` is the one path on which nobody can
tell that the beginning was there.
-/
import Loca.Queue.Repeated

namespace Loca.Queue

open Adapter Check

variable {py : Python}

/-! ## Reading on -/

/-- The lines of a scan may be read in two goes. -/
theorem scan_append (a b : List (List UInt8)) (start : Nat) (c : Cursor) (found : List Record) :
    scan py (a ++ b) start c found =
      match scan py a start c found with
      | (.error e, c') => (.error e, c')
      | (.ok rs, c') => scan py b (start + a.flatten.length) c' rs := by
  induction a generalizing start c found with
  | nil => rfl
  | cons raw a ih =>
      have hlen : start + (raw :: a).flatten.length = start + raw.length + a.flatten.length := by
        rw [List.flatten_cons, List.length_append, Nat.add_assoc]
      rw [hlen]
      simp only [List.cons_append, scan]
      split
      · rfl
      · split
        · rfl
        · exact ih _ _ _
        · split
          · rfl
          · exact ih _ _ _

/-- A cursor that stands further is asked the same. -/
theorem isAlreadyAcked_offset (fields : List (String × Json)) (c : Cursor) (n : Nat) :
    isAlreadyAcked py fields { c with offset := n } = isAlreadyAcked py fields c := rfl

/-- What follows the last separator is a line of its own for `readline`. -/
theorem readLines_torn {lines : List (List UInt8)} (hl : ∀ line ∈ lines, Lines.IsLine newline line)
    {torn : List UInt8} (hne : torn ≠ []) (hclean : newline ∉ torn) :
    readLines (lines.flatten ++ torn) = lines ++ [torn] := by
  obtain ⟨hlines, hrest⟩ := Lines.complete_lines hl
  obtain ⟨hc, hr⟩ := Lines.complete_append_clean hrest hclean
  rw [readLines, hc, hr, hlines, if_neg hne]

/-- A proper beginning of a line has no separator. -/
theorem torn_clean {line torn : List UInt8} (hline : Lines.IsLine newline line) (hpre : torn <+: line)
    (hne : torn ≠ line) : newline ∉ torn := by
  obtain ⟨body, hbody, rfl⟩ := hline
  intro hmem
  obtain ⟨rest, hrest⟩ := hpre
  rcases List.eq_nil_or_concat rest with rfl | ⟨front, last, rfl⟩
  · exact hne (by rw [← hrest, List.append_nil])
  · rw [List.concat_eq_append, ← List.append_assoc] at hrest
    obtain ⟨hfront, -⟩ := List.append_inj' hrest rfl
    exact hbody (hfront ▸ List.mem_append_left _ hmem)

/-! ## What a pass makes of the beginning -/

/-- The pass over complete valid lines: it offers of what waits. -/
theorem nextRecord_valid {lines : List (List UInt8)} (hv : ∀ line ∈ lines, ValidLine py line) {c : Cursor}
    (hc : Boundary lines c.offset) :
    ∃ n, nextRecord py lines.flatten c = (.ok (chooseRecord (waiting py lines c) n), { c with offset := n }) ∧
      n ≤ lines.flatten.length ∧ ∀ torn, torn ≠ [] → newline ∉ torn →
        nextRecord py (lines.flatten ++ torn) c =
          match scan py [torn] lines.flatten.length { c with offset := n } (waiting py lines c) with
          | (.error e, c') => (.error e, c')
          | (.ok rs, c') => (.ok (chooseRecord rs c'.offset), c') := by
  have hl : ∀ line ∈ lines, Lines.IsLine newline line := fun line hline => (hv line hline).line
  have hle := hc.le
  obtain ⟨pre, post, rfl, hn⟩ := hc
  have hpost : ∀ line ∈ post, Lines.IsLine newline line := fun line hline => hl line (List.mem_append_right _ hline)
  obtain ⟨done, left, hsplit, hcur, -, hrs⟩ := @scan_start py post c
  obtain ⟨rs, hok⟩ := scan_valid (fun line hline => hv line (List.mem_append_right pre hline)) c.offset c []
  have hscan : scan py post c.offset c [] =
      (.ok (waiting py (pre ++ post) c), { c with offset := c.offset + done.flatten.length }) := by
    refine Prod.ext ?_ hcur
    rw [hok, hrs rs hok, waiting_eq hl hn]
  have hlen : (pre ++ post).flatten.length = c.offset + post.flatten.length := by
    rw [List.flatten_append, List.length_append, hn]
  have hkept : ∀ n, (pre ++ post).flatten.length ≤ n → (if n < c.offset then { c with offset := 0 } else c) = c :=
    fun n hn => if_neg (by omega)
  refine ⟨c.offset + done.flatten.length, ?_, ?_, fun torn hne hclean => ?_⟩
  · unfold nextRecord
    rw [hkept _ (le_refl _)]
    dsimp only
    split
    · rw [List.flatten_append, hn, List.drop_left, readLines, (Lines.complete_lines hpost).1,
        (Lines.complete_lines hpost).2, if_pos rfl, List.append_nil, ← hn, hscan]
    · -- the cursor stands at the end: there is no line left
      have hnil : post = [] := by
        cases post with
        | nil => rfl
        | cons line rest =>
            have := (hpost line List.mem_cons_self).length_pos
            rw [List.flatten_cons, List.length_append] at hlen
            omega
      subst hnil
      obtain ⟨hd, -⟩ := List.append_eq_nil_iff.mp hsplit.symm
      subst hd
      have hwait := congrArg Prod.fst hscan
      have hempty : waiting py (pre ++ []) c = [] := (Except.ok.inj hwait).symm
      rw [hempty]
      rfl
  · rw [hlen, hsplit, List.flatten_append, List.length_append]
    omega
  · have hdrop : ((pre ++ post).flatten ++ torn).drop c.offset = post.flatten ++ torn := by
      rw [List.flatten_append, List.append_assoc, hn, List.drop_left]
    have htorn : 0 < torn.length := List.length_pos_iff.mpr hne
    unfold nextRecord
    rw [hkept _ (by rw [List.length_append]; omega)]
    dsimp only
    rewrite [if_pos (by rw [List.length_append]; omega), hdrop, readLines_torn hpost hne hclean, scan_append,
      hscan, hlen]
    rcases hrest : scan py [torn] (c.offset + post.flatten.length) { c with offset := c.offset + done.flatten.length }
      (waiting py (pre ++ post) c) with ⟨answer, c'⟩
    cases answer <;> simp only [hrest]

/-- Behind records that stand before it, a further one is chosen when it is the most urgent, or
chat as urgent as they are. -/
theorem chooseRecord_snoc {rs : List Record} {t : Record}
    (hord : (rs ++ [t]).Pairwise fun r r' => r.nextOffset ≤ r'.offset)
    (hpos : ∀ r ∈ rs ++ [t], r.offset < r.nextOffset) (base : Nat) :
    chooseRecord (rs ++ [t]) base = chooseRecord rs base ↔
      ∃ r ∈ rs, r.rank < t.rank ∨ (r.rank = t.rank ∧ isCompactable t.rank = false) := by
  have hbefore : ∀ r ∈ rs, r.offset < t.offset := fun r hr =>
    (hpos r (List.mem_append_left _ hr)).trans_le ((List.pairwise_append.mp hord).2.2 r hr t (by simp))
  have hordrs := (List.pairwise_append.mp hord).1
  have hposrs : ∀ r ∈ rs, r.offset < r.nextOffset := fun r hr => hpos r (List.mem_append_left _ hr)
  constructor
  · intro heq
    by_contra hno
    have hlate : ∀ r ∈ rs, t.rank ≤ r.rank ∧ (r.rank = t.rank → isCompactable t.rank = true) := by
      refine fun r hr => ⟨Nat.le_of_not_lt fun hlt => hno ⟨r, hr, .inl hlt⟩, fun he => ?_⟩
      by_contra hc
      exact hno ⟨r, hr, .inr ⟨he, Bool.eq_false_iff.mpr hc⟩⟩
    obtain ⟨o, ho⟩ : ∃ o, chooseRecord (rs ++ [t]) base = some o := by
      cases h : chooseRecord (rs ++ [t]) base with
      | none => simpa using chooseRecord_none.mp h
      | some o => exact ⟨o, rfl⟩
    have hchosen := chooseRecord_spec hord hpos ho
    have hmem := (chooseRecord_spec hordrs hposrs (heq ▸ ho)).mem
    -- an older record is chosen although the new one is no less urgent
    obtain ⟨hge, hcomp⟩ := hlate _ hmem
    have hrank : t.rank = o.record.rank := le_antisymm hge (hchosen.best t (by simp))
    have hnewest := hchosen.newest (hrank ▸ hcomp hrank.symm) t (by simp) hrank
    have := hbefore _ hmem
    omega
  · rintro ⟨r, hr, hless⟩
    obtain ⟨best, hbest⟩ : ∃ best, (rs.map Record.rank).min? = some best := by
      cases hm : (rs.map Record.rank).min? with
      | none =>
          rw [List.map_eq_nil_iff.mp (List.min?_eq_none_iff.mp hm)] at hr
          cases hr
      | some best => exact ⟨best, rfl⟩
    obtain ⟨hattained, hmin⟩ := List.min?_eq_some_iff.mp hbest
    have hle : best ≤ t.rank := by
      have := hmin _ (List.mem_map_of_mem hr)
      omega
    have hbest' : ((rs ++ [t]).map Record.rank).min? = some best := by
      refine List.min?_eq_some_iff.mpr ⟨by simpa using .inl (List.mem_map.mp hattained), fun n hn => ?_⟩
      rw [List.map_append, List.mem_append] at hn
      rcases hn with hn | hn
      · exact hmin n hn
      · obtain rfl : n = t.rank := by simpa using hn
        exact hle
    have hcand : (if isCompactable best then ((rs ++ [t]).filter fun x => x.rank = best).getLast?
        else ((rs ++ [t]).filter fun x => x.rank = best).head?) =
        if isCompactable best then (rs.filter fun x => x.rank = best).getLast?
        else (rs.filter fun x => x.rank = best).head? := by
      rw [List.filter_append]
      by_cases ht : t.rank = best
      · -- as urgent as the others, and they come first
        have hfifo : isCompactable best = false := by
          have := hmin _ (List.mem_map_of_mem hr)
          rcases hless with hlt | ⟨-, hf⟩
          · omega
          · rw [← ht]
            exact hf
        obtain ⟨x, hx, hxr⟩ := List.mem_map.mp hattained
        have hne : rs.filter (fun x => x.rank = best) ≠ [] :=
          List.ne_nil_of_mem (List.mem_filter.mpr ⟨hx, by simpa using hxr⟩)
        rw [hfifo, if_neg (by simp), if_neg (by simp), List.head?_append_of_ne_nil _ hne]
      · rw [show [t].filter (fun x => x.rank = best) = [] by simpa using ht, List.append_nil]
    simp only [chooseRecord, hbest, hbest', Option.bind_some]
    rw [hcand]
    refine Option.map_congr fun x hx => ?_
    have hmem : x ∈ rs := by
      split at hx
      · exact (List.mem_filter.mp (List.mem_of_getLast? hx)).1
      · exact (List.mem_filter.mp (List.mem_of_head? hx)).1
    have hprior : (rs ++ [t]).filter (fun y => y.offset < x.offset) = rs.filter fun y => y.offset < x.offset := by
      rw [List.filter_append, List.filter_cons_of_neg (by have := hbefore x hmem; simp; omega),
        List.filter_nil, List.append_nil]
    rw [hprior]

/-! ## Tolerating it -/

/-- A pass that meets the beginning of a line is the pass over the complete lines: the same answer,
the same cursor.  Once the line is complete, its record is among those that the next pass offers
of, and is offered when nothing else waits. -/
structure Tolerates (py : Python) (lines : List (List UInt8)) (line torn : List UInt8) (c : Cursor) : Prop where
  pass : nextRecord py (lines.flatten ++ torn) c = nextRecord py lines.flatten c
  later : ∃ base, (nextRecord py (lines ++ [line]).flatten (nextRecord py (lines.flatten ++ torn) c).2).1 =
    .ok (chooseRecord (waiting py (lines ++ [line]) c) base)
  whole : ∀ r, readRecord py (lines.flatten.length, line) = some r → r.settled py c = false →
    waiting py (lines ++ [line]) c = waiting py lines c ++ [r] ∧
    (waiting py lines c = [] → ∃ o,
      (nextRecord py (lines ++ [line]).flatten (nextRecord py (lines.flatten ++ torn) c).2).1 = .ok (some o) ∧
        o.record = r)

/-- There is no beginning; or it reads as a record already, and that record is acknowledged
behind one that waits, or waits behind a more urgent one, or behind one of its rank that is first
come first served. -/
def Unnoticed (py : Python) (lines : List (List UInt8)) (torn : List UInt8) (c : Cursor) : Prop :=
  torn = [] ∨ ∃ fields, parseRecord py torn lines.flatten.length = .ok fields ∧
    ((isAlreadyAcked py fields c = .ok true ∧ waiting py lines c ≠ []) ∨
      (isAlreadyAcked py fields c = .ok false ∧ ∃ rank, recordPriority py fields = .ok rank ∧
        ∃ r ∈ waiting py lines c, r.rank < rank ∨ (r.rank = rank ∧ isCompactable rank = false)))

section Tail

variable {lines : List (List UInt8)} {line torn : List UInt8} {c : Cursor}

/-- What stands behind complete lines comes after their records. -/
theorem waiting_snoc_ordered (hl : ∀ line ∈ lines, Lines.IsLine newline line) {t : Record}
    (ho : t.offset = lines.flatten.length) (hn : t.offset < t.nextOffset) :
    (waiting py lines c ++ [t]).Pairwise (fun r r' => r.nextOffset ≤ r'.offset) ∧
      ∀ r ∈ waiting py lines c ++ [t], r.offset < r.nextOffset := by
  have hwithin : ∀ r ∈ waiting py lines c, r.offset < r.nextOffset ∧ r.nextOffset ≤ t.offset := by
    intro r hr
    have := recordsAt_within hl (List.mem_filter.mp hr).1
    omega
  refine ⟨List.pairwise_append.mpr ⟨(recordsAt_ordered 0 lines).filter _, List.pairwise_singleton _ _,
    fun r hr r' hr' => ?_⟩, fun r hr => ?_⟩
  · rw [List.mem_singleton.mp hr']
    exact (hwithin r hr).2
  · rcases List.mem_append.mp hr with hr | hr
    · exact (hwithin r hr).1
    · rw [List.mem_singleton.mp hr]
      exact hn

/-- The pass does not see the beginning exactly when it goes unnoticed. -/
theorem pass_iff (hv : ∀ line ∈ lines, ValidLine py line) (hc : Boundary lines c.offset)
    (hclean : newline ∉ torn) :
    nextRecord py (lines.flatten ++ torn) c = nextRecord py lines.flatten c ↔ Unnoticed py lines torn c := by
  by_cases hne : torn = []
  · subst hne
    rw [List.append_nil]
    exact ⟨fun _ => .inl rfl, fun _ => rfl⟩
  obtain ⟨n, hpass, hle, htail⟩ := nextRecord_valid hv hc
  have hpos : 0 < torn.length := List.length_pos_iff.mpr hne
  rw [hpass, htail torn hne hclean]
  simp only [scan, isAlreadyAcked_offset, Unnoticed, hne, false_or]
  cases hparse : parseRecord py torn lines.flatten.length with
  | error e => simp
  | ok fields =>
  cases hacked : isAlreadyAcked py fields c with
  | error e => simp [hacked]
  | ok acked =>
  cases acked with
  | true =>
      generalize lines.flatten.length = len at hle
      by_cases hw : waiting py lines c = []
      · -- the cursor has moved over the beginning
        have hmoved : len + torn.length ≠ n := by omega
        simp [hacked, hw, hmoved]
      · simp [hacked, hw]
  | false =>
      obtain ⟨rank, hrank⟩ := isAlreadyAcked_rank hacked
      obtain ⟨hord, hlt⟩ := @waiting_snoc_ordered py lines c (fun line hline => (hv line hline).line)
        ⟨fields, lines.flatten.length, lines.flatten.length + torn.length, rank⟩ rfl
        (Nat.lt_add_of_pos_right hpos)
      have hchoose := chooseRecord_snoc hord hlt n
      simp only [hacked, hrank, Prod.mk.injEq, Except.ok.injEq, and_true, hchoose]
      simp [hacked, hrank]

/-- A cursor that has passed over nothing that waits. -/
theorem waiting_moved {n : Nat} (hline : Lines.IsLine newline line) (hle : c.offset ≤ n)
    (hend : n ≤ lines.flatten.length) (hn : ∀ r ∈ waiting py lines c, n ≤ r.offset) :
    waiting py (lines ++ [line]) { c with offset := n } = waiting py (lines ++ [line]) c := by
  refine List.filter_congr fun r hr => ?_
  rw [settled_offset]
  cases hs : r.settled py c with
  | true => simp
  | false =>
      have hiff : n ≤ r.offset ↔ c.offset ≤ r.offset := by
        refine ⟨fun h => hle.trans h, fun h => ?_⟩
        rw [recordsAt_append, List.mem_append] at hr
        rcases hr with hr | hr
        · exact hn r (List.mem_filter.mpr ⟨hr, by simp [h, hs]⟩)
        · have := recordsAt_within (fun x hx => List.mem_singleton.mp hx ▸ hline) hr
          omega
      simp [hiff]

theorem waiting_snoc {r : Record} (hc : c.offset ≤ lines.flatten.length)
    (hr : readRecord py (lines.flatten.length, line) = some r) (hs : r.settled py c = false) :
    waiting py (lines ++ [line]) c = waiting py lines c ++ [r] := by
  obtain ⟨-, -, ho, -⟩ := readRecord_some hr
  have hlast : recordsAt py (0 + lines.flatten.length) [line] = [r] := by
    rw [Nat.zero_add, recordsAt_cons, hr]
    rfl
  have hone : [r].filter (fun r => c.offset ≤ r.offset && !r.settled py c) = [r] := by
    refine List.filter_eq_self.mpr fun x hx => ?_
    rw [List.mem_singleton.mp hx, hs, ho]
    simpa using hc
  rw [waiting, recordsAt_append, hlast, List.filter_append, hone]
  rfl

/-- A torn tail is tolerated exactly when it goes unnoticed. -/
theorem torn_tail_iff (hv : ∀ line ∈ lines, ValidLine py line) (hline : ValidLine py line)
    (hpre : torn <+: line) (hne : torn ≠ line) (hc : Boundary lines c.offset) :
    Tolerates py lines line torn c ↔ Unnoticed py lines torn c := by
  have hiff := @pass_iff py lines torn c hv hc (torn_clean hline.line hpre hne)
  refine ⟨fun h => hiff.mp h.pass, fun h => ?_⟩
  have hpass := hiff.mpr h
  have hl : ∀ line ∈ lines, Lines.IsLine newline line := fun x hx => (hv x hx).line
  obtain ⟨n, hcur, hle, hbound, hn⟩ := (nextRecord_spec hl hc).cursor
  have hvall : ∀ x ∈ lines ++ [line], ValidLine py x := by
    intro x hx
    rcases List.mem_append.mp hx with hx | hx
    · exact hv x hx
    · exact List.mem_singleton.mp hx ▸ hline
  have hnext : Passed py (lines ++ [line]) { c with offset := n }
      (nextRecord py (lines ++ [line]).flatten { c with offset := n }) :=
    nextRecord_spec (fun x hx => (hvall x hx).line) (hbound.append [line])
  obtain ⟨a, ha⟩ := hnext.valid hvall
  obtain ⟨base, hbase⟩ := hnext.offer a ha
  rw [waiting_moved hline.line hle hbound.le hn] at hbase
  have hlater : (nextRecord py (lines ++ [line]).flatten (nextRecord py (lines.flatten ++ torn) c).2).1 =
      .ok (chooseRecord (waiting py (lines ++ [line]) c) base) := by
    rw [hpass, hcur, ha, hbase]
  refine ⟨hpass, ⟨base, hlater⟩, fun r hr hs => ?_⟩
  have hsnoc := waiting_snoc hc.le hr hs
  refine ⟨hsnoc, fun hnone => ?_⟩
  rw [hlater, hsnoc, hnone, List.nil_append]
  obtain ⟨-, -, ho, hend⟩ := readRecord_some hr
  have hpos : r.offset < r.nextOffset := by
    rw [ho, hend]
    exact Nat.lt_add_of_pos_right hline.line.length_pos
  cases hch : chooseRecord [r] base with
  | none => simpa using chooseRecord_none.mp hch
  | some o =>
      have hchosen := chooseRecord_spec (List.pairwise_singleton _ r)
        (fun x hx => by rw [List.mem_singleton.mp hx]; exact hpos) hch
      exact ⟨o, rfl, List.mem_singleton.mp hchosen.mem⟩

end Tail

/-! ## A task and the beginning of a call -/

def taskLine : List UInt8 := Envelope.raw ⟨"d-task-1", "demo", 4, "explicit_task"⟩

def callLine : List UInt8 := Envelope.raw ⟨"d-msg-2", "demo", 5, "direct_user"⟩

theorem callLine_unreadable :
    (courier sampleEnvelopes).loads (callLine.take 1) = none ∧ callLine.take 1 ≠ [] ∧
      newline ∉ callLine.take 1 ∧ 1 < callLine.length := by
  decide +kernel

/-- The whole call is not there yet, and the pass fails: the task is not offered. -/
theorem torn_tail_raises :
    (nextRecord (courier sampleEnvelopes) ([taskLine].flatten ++ callLine.take 1) emptyState).1 =
        .error (.value ("invalid inbox JSON at byte " ++ toString taskLine.length)) ∧
      ¬ Tolerates (courier sampleEnvelopes) [taskLine] callLine (callLine.take 1) emptyState := by
  obtain ⟨hloads, hne, hclean, -⟩ := callLine_unreadable
  have hvalid : ∀ line ∈ [taskLine], ValidLine (courier sampleEnvelopes) line := by
    intro line hline
    rw [List.mem_singleton.mp hline]
    exact sampleEnvelopes_legible.valid List.mem_cons_self
  obtain ⟨n, hpass, -, htail⟩ := nextRecord_valid (c := emptyState) hvalid ⟨[], [taskLine], rfl, rfl⟩
  have hraised : (nextRecord (courier sampleEnvelopes) ([taskLine].flatten ++ callLine.take 1) emptyState).1 =
      .error (.value ("invalid inbox JSON at byte " ++ toString taskLine.length)) := by
    rw [htail _ hne hclean]
    simp [scan, parseRecord, hloads]
  refine ⟨hraised, fun h => ?_⟩
  rw [h.pass, hpass] at hraised
  cases hraised

/-- Nothing of the call, and its first byte. -/
theorem torn_tail_iff_sample :
    Tolerates (courier sampleEnvelopes) [taskLine] callLine [] emptyState ∧
    (Tolerates (courier sampleEnvelopes) [taskLine] callLine (callLine.take 1) emptyState ↔
      Unnoticed (courier sampleEnvelopes) [taskLine] (callLine.take 1) emptyState) := by
  have hvalid : ∀ e ∈ sampleEnvelopes, ValidLine (courier sampleEnvelopes) e.raw := fun e he =>
    sampleEnvelopes_legible.valid he
  have htask : ∀ line ∈ [taskLine], ValidLine (courier sampleEnvelopes) line := fun line hline =>
    List.mem_singleton.mp hline ▸ hvalid _ List.mem_cons_self
  have hcall : ValidLine (courier sampleEnvelopes) callLine :=
    hvalid _ (List.mem_cons_of_mem _ List.mem_cons_self)
  have hlong : 1 < callLine.length := callLine_unreadable.2.2.2
  have hbound : Boundary [taskLine] emptyState.offset := ⟨[], [taskLine], rfl, rfl⟩
  refine ⟨(torn_tail_iff htask hcall List.nil_prefix (fun h => ?_) hbound).mpr (.inl rfl),
    torn_tail_iff htask hcall (List.take_prefix _ _) (fun h => ?_) hbound⟩
  · rw [← h] at hlong
    cases hlong
  · have hlen := congrArg List.length h
    rw [List.length_take] at hlen
    omega

end Loca.Queue
