/-
# `Loca.Hub.Mirrored` — attentions and marks in memory and on disk

A room's counters and attentions are kept twice, by separate code: the tables are updated by id
and by id prefix, the room's maps by loops over their entries.  `CareAgrees name m c` says that
the maps `m` of a room and the tables `c` tell the same: an attention in memory is the row under
its id (the time of delivery apart), a row that is not in memory is resolved, and the counters
are the same.

Each operation keeps this for its own room, because it does the same on both sides, and for
every other room, because it does not touch that room's rows.  Neither holds always.  Naming a
lead and announcing a join request reset the room's silence on disk only; and ids of one room
can lie under the prefix of another.  `HubCall.Calm` is a call for which neither happens, and
`call_mirrored` says that such a call keeps the two sides together.
-/
import Loca.Hub.Isolation

namespace Loca

open Check Table Text

/-! ## Ending a wait, on disk -/

theorem AttentionRow.resolve_resolve (now : Nat) (r : AttentionRow) :
    (r.resolve now).resolve now = r.resolve now := rfl

/-- The mark of a cycle is the one its id names. -/
theorem resolveCycle_marks (room : String) (now : Nat) (id : String) (c : CareTables) :
    (CareTables.resolveCycle room now c id).marks =
      deleteWhere (fun r => r.room = room && attentionKey room r.signalKey = id) c.marks := by
  unfold CareTables.resolveCycle
  cases hs : stripPrefix (attentionPrefix room) id with
  | some key =>
      obtain rfl := stripPrefix_eq_some.mp hs
      show deleteWhere _ c.marks = _
      unfold deleteWhere
      refine List.filter_congr fun r _ => ?_
      have hkey : attentionKey room r.signalKey = attentionPrefix room ++ key ↔ r.signalKey = key := by
        unfold attentionKey
        constructor
        · intro h
          have := stripPrefix_append (attentionPrefix room) r.signalKey
          rw [h, stripPrefix_append] at this
          exact (Option.some.inj this).symm
        · rintro rfl
          rfl
      simp only [hkey]
  | none =>
      show c.marks = _
      unfold deleteWhere
      refine (List.filter_eq_self.mpr fun r _ => ?_).symm
      have hne : attentionKey room r.signalKey ≠ id := by
        rintro rfl
        rw [attentionKey, stripPrefix_append] at hs
        cases hs
      simp [hne]

theorem resolveCycles_eq (room : String) (now : Nat) (ids : List String) (c : CareTables) :
    (ids.foldl (CareTables.resolveCycle room now) c).attentions =
      updateWhere (fun r => ids.contains r.id) (AttentionRow.resolve now) c.attentions ∧
    (ids.foldl (CareTables.resolveCycle room now) c).marks =
      deleteWhere (fun r => r.room = room && ids.contains (attentionKey room r.signalKey)) c.marks := by
  induction ids generalizing c with
  | nil =>
      constructor
      · simp [updateWhere]
      · simp [deleteWhere]
  | cons id ids ih =>
      rw [List.foldl_cons]
      obtain ⟨ha, hm⟩ := ih (CareTables.resolveCycle room now c id)
      have hone : (CareTables.resolveCycle room now c id).attentions =
          updateWhere (fun r => r.id = id) (AttentionRow.resolve now) c.attentions := by
        unfold CareTables.resolveCycle
        dsimp only
        split <;> rfl
      constructor
      · rw [ha, hone, updateWhere_twice (AttentionRow.resolve_resolve now) fun _ => rfl]
        simp
      · rw [hm, resolveCycle_marks, deleteWhere_twice]
        unfold deleteWhere
        refine List.filter_congr fun r _ => ?_
        by_cases hr : r.room = room <;> simp [hr]

/-- What ending a wait leaves of the attentions and the marks. -/
theorem resolveWaitAttentions_eq (room waiter : String) (now : Nat) (c : CareTables) :
    (c.resolveWaitAttentions room waiter now).attentions =
      updateWhere (fun r => (Retired.wait waiter).hits room c r.id) (AttentionRow.resolve now)
        c.attentions ∧
    (c.resolveWaitAttentions room waiter now).marks =
      deleteWhere (fun r => r.room = room &&
        (c.cycleIds room waiter).contains (attentionKey room r.signalKey)) c.marks := by
  obtain ⟨ha, hm⟩ := resolveCycles_eq room now (c.cycleIds room waiter)
    (c.resolveUnder (attentionKey room (waitKey waiter)) now)
  refine ⟨?_, hm⟩
  unfold CareTables.resolveWaitAttentions
  rw [ha]
  show updateWhere _ _ (updateWhere _ _ c.attentions) = _
  rw [updateWhere_twice (AttentionRow.resolve_resolve now) fun _ => rfl]
  simp [Retired.hits, Retired.wait]

/-- What lies under a wait is a wait. -/
theorem underKey_wait {name waiter key : String}
    (h : underKey (attentionKey name (waitKey waiter)) (attentionKey name key) = true) :
    ∃ other, key = waitKey other := by
  have hcancel : ∀ {a b : String}, attentionPrefix name ++ a = attentionPrefix name ++ b → a = b := by
    intro a b hab
    have hs := stripPrefix_append (attentionPrefix name) a
    rw [hab, stripPrefix_append] at hs
    exact (Option.some.inj hs).symm
  simp only [underKey, Bool.or_eq_true, decide_eq_true_eq] at h
  rcases h with h | h
  · exact ⟨waiter, hcancel h⟩
  · obtain ⟨rest, hrest⟩ := hasPrefix_iff.mp h
    refine ⟨waiter ++ ":" ++ rest, hcancel ?_⟩
    rw [attentionKey] at hrest
    rw [hrest]
    simp [attentionKey, waitKey, String.append_assoc]

/-! ## Agreement of one room -/

/-- A row but for the time it was delivered. -/
def AttentionRow.core (r : AttentionRow) : AttentionRow := { r with deliveredAt := none }

def Attention.core (a : Attention) : Attention := { a with deliveredAt := none }

/-- The maps of a room tell what its rows tell, but for the attentions that are still to be
published. -/
structure CareAgrees (pending : String → Prop) (name : String) (m : CareMemory) (c : CareTables) :
    Prop where
  held : ∀ id a, ¬ pending id → m.attentions.get id = some a →
    ∃ r ∈ c.attentions, r.room = name ∧ r.id = id ∧ (attentionFromRow r).core = a.core
  known : ∀ r ∈ c.attentions, r.room = name → ¬ pending r.id → r.resolvedAt = none →
    ∃ a, m.attentions.get r.id = some a
  marks : ∀ key mark, m.marks.get key = some mark ↔
    (⟨name, key, mark.lastSignalAt, mark.signalCount⟩ : CareMarkRow) ∈ c.marks

/-- No attention is on its way. -/
abbrev nonePending (_ : String) : Prop := False

/-- A change of the tables that the room does not see. -/
structure Leaves (name : String) (c c' : CareTables) : Prop where
  kept : ∀ r ∈ c.attentions, r.room = name → ∃ r' ∈ c'.attentions, r'.core = r.core
  old : ∀ r' ∈ c'.attentions, r'.room = name → ∃ r ∈ c.attentions, r.core = r'.core
  marks : ∀ row : CareMarkRow, row.room = name → (row ∈ c'.marks ↔ row ∈ c.marks)

theorem core_attention {r r' : AttentionRow} (h : r'.core = r.core) :
    r'.room = r.room ∧ r'.id = r.id ∧ r'.resolvedAt = r.resolvedAt ∧
      (attentionFromRow r').core = (attentionFromRow r).core := by
  have hfrom : ∀ x : AttentionRow, (attentionFromRow x).core = attentionFromRow x.core := fun _ => rfl
  refine ⟨?_, ?_, ?_, by rw [hfrom, hfrom, h]⟩
  · exact (congrArg AttentionRow.room h :)
  · exact (congrArg AttentionRow.id h :)
  · exact (congrArg AttentionRow.resolvedAt h :)

theorem attentionFromRow_resolved {r : AttentionRow} :
    (attentionFromRow r).status = .resolved ↔ r.resolvedAt.isSome = true := by
  simp only [attentionFromRow]
  split
  · next h => simp [h]
  · next h => split <;> simp [h]

namespace Leaves

variable {name : String} {c c' c'' : CareTables}

theorem refl (name : String) (c : CareTables) : Leaves name c c :=
  ⟨fun r hr _ => ⟨r, hr, rfl⟩, fun r hr _ => ⟨r, hr, rfl⟩, fun _ _ => .rfl⟩

theorem trans (h : Leaves name c c') (h' : Leaves name c' c'') : Leaves name c c'' := by
  refine ⟨fun r hr hn => ?_, fun r hr hn => ?_, fun row hn => (h'.marks row hn).trans (h.marks row hn)⟩
  · obtain ⟨r', hr', he⟩ := h.kept r hr hn
    obtain ⟨r'', hr'', he'⟩ := h'.kept r' hr' ((core_attention he).1.trans hn)
    exact ⟨r'', hr'', he'.trans he⟩
  · obtain ⟨r', hr', he⟩ := h'.old r hr hn
    obtain ⟨r'', hr'', he'⟩ := h.old r' hr' ((core_attention he).1.trans hn)
    exact ⟨r'', hr'', he'.trans he⟩

/-- An update that does not hit the room's rows, or only changes when they were delivered. -/
theorem update {p : AttentionRow → Bool} {f : AttentionRow → AttentionRow}
    (ha : c'.attentions = updateWhere p f c.attentions) (hroom : ∀ r, (f r).room = r.room)
    (hf : ∀ r ∈ c.attentions, r.room = name → p r = true → (f r).core = r.core)
    (hm : ∀ row : CareMarkRow, row.room = name → (row ∈ c'.marks ↔ row ∈ c.marks)) : Leaves name c c' := by
  have hcore : ∀ r ∈ c.attentions, r.room = name → (if p r then f r else r).core = r.core := by
    intro r hr hn
    split
    · next hp => exact hf r hr hn hp
    · rfl
  refine ⟨fun r hr hn => ⟨_, ha ▸ mem_updateWhere.mpr ⟨r, hr, rfl⟩, hcore r hr hn⟩, ?_, hm⟩
  intro r' hr' hn
  rw [ha] at hr'
  obtain ⟨r, hr, rfl⟩ := mem_updateWhere.mp hr'
  have hname : r.room = name := by
    split at hn
    · rwa [hroom] at hn
    · exact hn
  exact ⟨r, hr, (hcore r hr hname).symm⟩

/-- Marks of another room go. -/
theorem delete {p : CareMarkRow → Bool} (ha : c'.attentions = c.attentions)
    (hm : c'.marks = deleteWhere p c.marks) (hp : ∀ row, p row = true → row.room ≠ name) :
    Leaves name c c' := by
  refine ⟨fun r hr _ => ⟨r, ha ▸ hr, rfl⟩, fun r hr _ => ⟨r, ha ▸ hr, rfl⟩, fun row hn => ?_⟩
  rw [hm, mem_deleteWhere]
  exact ⟨fun h => h.1, fun h => ⟨h, Bool.eq_false_iff.mpr fun ht => hp row ht hn⟩⟩

theorem mark {room key : String} {last count : Nat} (hne : name ≠ room) :
    Leaves name c (c.writeMark room key last count) := by
  refine ⟨fun r hr _ => ⟨r, hr, rfl⟩, fun r hr _ => ⟨r, hr, rfl⟩, fun row hn => ?_⟩
  show row ∈ upsert _ _ c.marks ↔ _
  rw [mem_upsert]
  constructor
  · rintro (⟨h, -⟩ | rfl)
    · exact h
    · exact absurd hn.symm hne
  · exact fun h => .inl ⟨h, fun he => hne (hn.symm.trans (congrArg Prod.fst he))⟩

/-- A signal is filed under an id that is not the room's. -/
theorem file {deliveryRoom : String} {s : CareSignal} (hid : ∀ r ∈ c.attentions, r.id = s.stableId →
    r.room ≠ name) (hroom : s.originRoom ≠ name) : Leaves name c (c.writeCare deliveryRoom s) := by
  unfold CareTables.writeCare
  split
  · split
    · refine update (p := fun r => r.id = s.stableId && r.isOpen)
        (f := fun r => { r with signal := s, owner := s.owner }) rfl (fun _ => rfl) ?_ (fun _ _ => .rfl)
      intro r hr hn hp
      simp only [Bool.and_eq_true, decide_eq_true_eq] at hp
      exact absurd hn (hid r hr hp.1)
    · exact refl name c
  · refine ⟨fun r hr _ => ⟨r, List.mem_append_left _ hr, rfl⟩, fun r hr hn => ?_, fun _ _ => .rfl⟩
    rcases List.mem_append.mp hr with hr | hr
    · exact ⟨r, hr, rfl⟩
    · rw [List.mem_singleton.mp hr] at hn
      exact absurd hn hroom

end Leaves

namespace CareAgrees

variable {pending : String → Prop} {name : String} {m m' : CareMemory} {c c' : CareTables}

theorem leaves (h : CareAgrees pending name m c) (hl : Leaves name c c') :
    CareAgrees pending name m c' := by
  refine ⟨fun id a hid hget => ?_, fun r' hr' hn hid hopen => ?_, fun key mark => ?_⟩
  · obtain ⟨r, hr, hn, hrid, hcore⟩ := h.held id a hid hget
    obtain ⟨r', hr', he⟩ := hl.kept r hr hn
    obtain ⟨hroom, hid', -, hatt⟩ := core_attention he
    exact ⟨r', hr', hroom.trans hn, hid'.trans hrid, hatt.trans hcore⟩
  · obtain ⟨r, hr, he⟩ := hl.old r' hr' hn
    obtain ⟨hroom, hid', hres, -⟩ := core_attention he
    rw [← hid'] at hid ⊢
    exact h.known r hr (hroom.trans hn) hid (hres.trans hopen)
  · exact (h.marks key mark).trans (hl.marks _ rfl).symm

/-- A room nobody speaks of. -/
theorem blank (ha : ∀ r ∈ c.attentions, r.room = name → r.resolvedAt.isSome = true)
    (hm : ∀ r ∈ c.marks, r.room ≠ name) : CareAgrees pending name ⟨∅, ∅⟩ c := by
  refine ⟨fun id a _ hget => (by cases hget), fun r hr hn _ hopen => ?_, fun key mark => ?_⟩
  · have hsome := ha r hr hn
    rw [hopen] at hsome
    cases hsome
  · exact ⟨fun h => (by cases h), fun h => absurd rfl (hm _ h)⟩

/-- The same edit on both sides. -/
theorem edit {f : AttentionRow → AttentionRow} {g : String → Attention → Attention}
    (h : CareAgrees nonePending name m c) (ha : c'.attentions = c.attentions.map f)
    (hf : ∀ r, (f r).id = r.id ∧ (f r).room = r.room ∧ ((f r).resolvedAt = none → r.resolvedAt = none))
    (hg : ∀ id, m'.attentions.get id = (m.attentions.get id).map (g id))
    (hfg : ∀ r ∈ c.attentions, r.room = name → ∀ a, (attentionFromRow r).core = a.core →
      (attentionFromRow (f r)).core = (g r.id a).core)
    (hm : ∀ key mark, m'.marks.get key = some mark ↔
      (⟨name, key, mark.lastSignalAt, mark.signalCount⟩ : CareMarkRow) ∈ c'.marks) :
    CareAgrees nonePending name m' c' := by
  refine ⟨fun id a' hid hget => ?_, fun r' hr' hn hid hopen => ?_, hm⟩
  · rw [hg] at hget
    obtain ⟨a, hga, rfl⟩ := Option.map_eq_some_iff.mp hget
    obtain ⟨r, hr, hroom, rfl, hcore⟩ := h.held id a hid hga
    obtain ⟨hfid, hfroom, -⟩ := hf r
    exact ⟨f r, ha ▸ List.mem_map_of_mem hr, hfroom.trans hroom, hfid, hfg r hr hroom a hcore⟩
  · rw [ha] at hr'
    obtain ⟨r, hr, rfl⟩ := List.mem_map.mp hr'
    obtain ⟨hfid, hfroom, hfres⟩ := hf r
    obtain ⟨a, hga⟩ := h.known r hr (hfroom.symm.trans hn) hid (hfres hopen)
    exact ⟨g r.id a, by rw [hfid, hg, hga, Option.map_some]⟩

/-- Resolving what both sides pick. -/
theorem resolve {now : Nat} {p : AttentionRow → Bool} {hit : String → Attention → Bool}
    (h : CareAgrees nonePending name m c)
    (ha : c'.attentions = updateWhere p (AttentionRow.resolve now) c.attentions)
    (hg : m'.attentions = (m.resolveWhere hit now).attentions)
    (hsame : ∀ r ∈ c.attentions, r.room = name → r.resolvedAt = none →
      ∀ a, (attentionFromRow r).core = a.core → p r = hit r.id a)
    (hm : ∀ key mark, m'.marks.get key = some mark ↔
      (⟨name, key, mark.lastSignalAt, mark.signalCount⟩ : CareMarkRow) ∈ c'.marks) :
    CareAgrees nonePending name m' c' := by
  refine h.edit (g := fun id a => if hit id a && a.status ≠ .resolved then a.resolve now else a) ha ?_ ?_ ?_ hm
  · intro r
    split
    · exact ⟨rfl, rfl, fun hn => (by cases hn)⟩
    · exact ⟨rfl, rfl, fun hn => hn⟩
  · intro id
    rw [hg]
    exact CareMemory.get_resolveWhere hit now m id
  · intro r hr hn a hcore
    have hstatus : (attentionFromRow r).status = a.status := (congrArg Attention.status hcore :)
    cases hres : r.resolvedAt with
    | some t =>
        have hdone : a.status = .resolved := by
          rw [← hstatus, attentionFromRow_resolved, hres]
          rfl
        have hkeep : (if p r then r.resolve now else r) = r := by
          split
          · simp only [AttentionRow.resolve, hres, Option.getD_some]
            rw [← hres]
          · rfl
        rw [hkeep, hcore]
        simp [hdone]
    | none =>
        have hopen : a.status ≠ .resolved := by
          rw [← hstatus, Ne, attentionFromRow_resolved, hres]
          simp
        rw [hsame r hr hn hres a hcore]
        cases hhit : hit r.id a with
        | false => simpa using hcore
        | true =>
            have hrow : (attentionFromRow (r.resolve now)).core = ((attentionFromRow r).core).resolve now := by
              simp [attentionFromRow, AttentionRow.resolve, Attention.core, Attention.resolve, hres]
            have hmem : (a.resolve now).core = (a.core).resolve now := rfl
            simp only [if_true, hopen, ne_eq, not_false_eq_true, decide_true, Bool.and_self]
            rw [hrow, hmem, hcore]

theorem delMark (h : CareAgrees pending name m c) (key : String) :
    CareAgrees pending name { m with marks := m.marks.del key } (c.deleteMark name key) := by
  refine ⟨h.held, h.known, fun k mark => ?_⟩
  show (m.marks.del key).get k = _ ↔ _ ∈ deleteWhere _ c.marks
  rw [Assoc.get_del, mem_deleteWhere, ← h.marks k mark]
  by_cases hk : k = key
  · simp [hk]
  · simp [hk]

/-- Progress on a condition. -/
theorem reset (h : CareAgrees nonePending name m c) (key : String) (now : Nat) :
    CareAgrees nonePending name (m.reset name key now) (c.resetCare name key now) :=
  @resolve _ _ _ _ _ now (fun r => underKey (attentionKey name key) r.id) (conditionHit name key)
    (h.delMark key) rfl rfl (fun _ _ _ _ _ _ => rfl) (h.delMark key).marks

/-- The row of an attention in memory. -/
theorem row_of (h : CareAgrees nonePending name m c) (hl : LedgerSound c) {r : AttentionRow} {a : Attention}
    (hr : r ∈ c.attentions) (hget : m.attentions.get r.id = some a) :
    r.room = name ∧ (attentionFromRow r).core = a.core := by
  obtain ⟨r', hr', hn, hid, hcore⟩ := h.held r.id a id hget
  obtain rfl : r' = r := List.inj_on_of_nodup_map hl.unique hr' hr hid
  exact ⟨hn, hcore⟩

/-- The wait cycles of a participant are the same on both sides. -/
theorem cycle_iff (hl : LedgerSound c) {waiter : String} {r : AttentionRow} {a : Attention}
    (hr : r ∈ c.attentions) (hn : r.room = name) (hcore : (attentionFromRow r).core = a.core) :
    r.id ∈ c.cycleIds name waiter ↔
      a.status ≠ .resolved ∧ a.reason = .waitCycle ∧ a.participants.contains waiter = true := by
  have hreason : r.signal.reason = a.reason := (congrArg Attention.reason hcore :)
  have hpart : r.signal.participants = a.participants := (congrArg Attention.participants hcore :)
  have hstatus : (attentionFromRow r).status = a.status := (congrArg Attention.status hcore :)
  have hopen : r.resolvedAt.isNone = true ↔ a.status ≠ .resolved := by
    rw [← hstatus, Ne, attentionFromRow_resolved]
    cases r.resolvedAt <;> simp
  rw [← hreason, ← hpart, ← hopen]
  unfold CareTables.cycleIds
  constructor
  · intro hid
    obtain ⟨r', hr', he⟩ := List.mem_map.mp hid
    obtain ⟨hmem, hp⟩ := List.mem_filter.mp hr'
    obtain rfl : r' = r := List.inj_on_of_nodup_map hl.unique hmem hr he
    simp only [Bool.and_eq_true, decide_eq_true_eq] at hp
    exact ⟨hp.1.1.2, hp.1.2, hp.2⟩
  · rintro ⟨ho, hc, hw⟩
    refine List.mem_map.mpr ⟨r, List.mem_filter.mpr ⟨hr, ?_⟩, rfl⟩
    simp only [Bool.and_eq_true, decide_eq_true_eq]
    exact ⟨⟨⟨hn, ho⟩, hc⟩, hw⟩

/-- The end of a wait. -/
theorem resolveWait (h : CareAgrees nonePending name m c) (hl : LedgerSound c) (waiter : String)
    (now : Nat) :
    CareAgrees nonePending name (m.resolveWait name waiter now)
      (c.resolveWaitAttentions name waiter now) := by
  obtain ⟨hatt, hmarks⟩ := resolveWaitAttentions_eq name waiter now c
  refine @resolve _ _ _ _ _ now _ (waitHit name waiter) h hatt rfl ?_ fun key mark => ?_
  · intro r hr hn hopen a hcore
    have hcycle := @cycle_iff _ _ hl waiter _ _ hr hn hcore
    have hstatus : (attentionFromRow r).status = a.status := (congrArg Attention.status hcore :)
    have hunres : a.status ≠ .resolved := by
      rw [← hstatus, Ne, attentionFromRow_resolved, hopen]
      simp
    rw [Bool.eq_iff_iff]
    simp only [Retired.hits, Retired.wait, waitHit, List.any_cons, List.any_nil, Bool.or_false,
      Option.any_some, Bool.or_eq_true, List.contains_iff_mem, hcycle, Bool.and_eq_true,
      decide_eq_true_eq]
    tauto
  · show ((m.cycles name waiter).foldl (fun marks e => CareMemory.dropMark name e.1 marks) m.marks).get key =
      some mark ↔ _
    rw [CareMemory.get_dropMarks, hmarks, mem_deleteWhere, h.marks]
    refine and_congr_right fun hmem => ?_
    have hkey : ∀ other, key ≠ waitKey other := hl.unwaited _ hmem
    simp only [decide_true, Bool.true_and, List.contains_eq_mem, decide_eq_false_iff_not]
    constructor
    · intro hall hid
      obtain ⟨r, hr, he⟩ := List.mem_map.mp hid
      have hp := (List.mem_filter.mp hr).2
      simp only [Bool.and_eq_true, decide_eq_true_eq] at hp
      obtain ⟨⟨⟨hn, hopen⟩, -⟩, -⟩ := hp
      have hmem := (List.mem_filter.mp hr).1
      obtain ⟨a, hget⟩ := h.known r hmem hn id (Option.isNone_iff_eq_none.mp hopen)
      obtain ⟨-, hcore⟩ := h.row_of hl hmem hget
      obtain ⟨hst, hreason, hpart⟩ := (cycle_iff hl hmem hn hcore).mp (he ▸ hid)
      refine hall ⟨r.id, a⟩ (List.mem_filter.mpr ⟨Assoc.mem_entries.mpr hget, ?_⟩) he
      simp [waitHit, hst, hreason, List.contains_iff_mem.mp hpart]
    · rintro hid ⟨_, a⟩ he rfl
      obtain ⟨hent, hp⟩ := List.mem_filter.mp he
      simp only [waitHit, Bool.and_eq_true, Bool.or_eq_true, decide_eq_true_eq] at hp
      obtain ⟨⟨hhit, hst⟩, hreason⟩ := hp
      obtain ⟨r, hr, hn, hrid, hcore⟩ := h.held _ a id (Assoc.mem_entries.mp hent)
      rcases hhit with hunder | ⟨-, hpart⟩
      · obtain ⟨other, hother⟩ := underKey_wait hunder
        exact hkey other hother
      · exact hid (hrid ▸ (cycle_iff hl hr hn hcore).mpr ⟨hst, hreason, hpart⟩)

theorem mark (h : CareAgrees pending name m c) (key : String) (mk : CareMark) :
    CareAgrees pending name { m with marks := m.marks.put key mk }
      (c.writeMark name key mk.lastSignalAt mk.signalCount) := by
  refine ⟨h.held, h.known, fun k mark => ?_⟩
  show (m.marks.put key mk).get k = _ ↔ _ ∈ upsert _ _ c.marks
  rw [Assoc.get_put, mem_upsert]
  by_cases hk : k = key
  · subst hk
    obtain ⟨last, count⟩ := mark
    obtain ⟨last', count'⟩ := mk
    simp [eq_comm]
  · rw [if_neg hk, h.marks]
    simp [hk]

theorem mono {pending' : String → Prop} (h : CareAgrees pending name m c)
    (hp : ∀ id, pending id → pending' id) : CareAgrees pending' name m c :=
  ⟨fun id a hid => h.held id a fun hpend => hid (hp id hpend),
    fun r hr hn hid => h.known r hr hn fun hpend => hid (hp r.id hpend), h.marks⟩

/-- A signal is filed on disk: its attention is on its way. -/
theorem filed (h : CareAgrees pending name m c) (deliveryRoom : String) (s : CareSignal) :
    CareAgrees (fun id => pending id ∨ id = s.stableId) name m (c.writeCare deliveryRoom s) := by
  have hold : ∀ r : AttentionRow, r.id ≠ s.stableId →
      (r ∈ (c.writeCare deliveryRoom s).attentions ↔ r ∈ c.attentions) := by
    intro r hne
    unfold CareTables.writeCare
    split
    · split
      · show r ∈ updateWhere _ _ c.attentions ↔ _
        rw [mem_updateWhere]
        constructor
        · rintro ⟨x, hx, rfl⟩
          split at hne
          · next hp =>
            simp only [Bool.and_eq_true, decide_eq_true_eq] at hp
            exact absurd hp.1 hne
          · next hp => rwa [if_neg hp]
        · exact fun hr => ⟨r, hr, if_neg (by simp [hne])⟩
      · exact .rfl
    · show r ∈ c.attentions ++ [s.newRow] ↔ _
      rw [List.mem_append, List.mem_singleton]
      exact or_iff_left fun hr => hne (by rw [hr]; rfl)
  have hmarks : (c.writeCare deliveryRoom s).marks = c.marks := by
    unfold CareTables.writeCare
    split
    · split <;> rfl
    · rfl
  refine ⟨fun id a hid hget => ?_, fun r hr hn hid => ?_, fun key mark => by rw [hmarks]; exact h.marks key mark⟩
  · obtain ⟨r, hr, hn, rfl, hcore⟩ := h.held id a (fun hp => hid (.inl hp)) hget
    exact ⟨r, (hold r fun he => hid (.inr he)).mpr hr, hn, rfl, hcore⟩
  · exact h.known r ((hold r fun he => hid (.inr he)).mp hr) hn fun hp => hid (.inl hp)

/-- The attention of a filed signal is put in memory. -/
theorem published {x : String} (h : CareAgrees (fun id => pending id ∨ id = x) name m c)
    {r : AttentionRow} {a : Attention} (hr : r ∈ c.attentions) (hn : r.room = name) (hid : r.id = x)
    (hcore : (attentionFromRow r).core = a.core) (ha : a.id = x) : CareAgrees pending name (m.file a) c := by
  refine ⟨fun id b hpend hget => ?_, fun r' hr' hn' hpend hopen => ?_, h.marks⟩
  · change (m.attentions.put a.id a).get id = some b at hget
    rw [Assoc.get_put] at hget
    split at hget
    · next he =>
      obtain rfl := Option.some.inj hget
      exact ⟨r, hr, hn, hid.trans (ha.symm.trans he.symm), hcore⟩
    · next hne => exact h.held id b (fun hp => hp.elim hpend fun he => hne (he.trans ha.symm)) hget
  · show ∃ b, (m.attentions.put a.id a).get r'.id = some b
    rw [Assoc.get_put]
    split
    · exact ⟨a, rfl⟩
    · next hne => exact h.known r' hr' hn' (fun hp => hp.elim hpend fun he => hne (he.trans ha.symm)) hopen

end CareAgrees

/-! ## Filing signals -/

/-- The id is not another room's. -/
def Owned (name : String) (c : CareTables) (id : String) : Prop :=
  ∀ r ∈ c.attentions, r.id = id → r.room = name

/-- The ledger has a row of the room under the id. -/
def RowOf (name : String) (c : CareTables) (id : String) : Prop :=
  ∃ r ∈ c.attentions, r.id = id ∧ r.room = name

theorem writeCare_rows {deliveryRoom : String} {s : CareSignal} {c : CareTables} {r : AttentionRow}
    (h : r ∈ (c.writeCare deliveryRoom s).attentions) :
    (∃ r₀ ∈ c.attentions, r.id = r₀.id ∧ r.room = r₀.room ∧ r.resolvedAt = r₀.resolvedAt) ∨
      (r = s.newRow ∧ ∀ x ∈ c.attentions, x.id ≠ s.stableId) := by
  unfold CareTables.writeCare at h
  split at h
  · split at h
    · obtain ⟨r₀, hr₀, rfl⟩ := mem_updateWhere.mp h
      refine .inl ⟨r₀, hr₀, ?_⟩
      split <;> exact ⟨rfl, rfl, rfl⟩
    · exact .inl ⟨r, h, rfl, rfl, rfl⟩
  · next hk =>
    rcases List.mem_append.mp h with hr | hr
    · exact .inl ⟨r, hr, rfl, rfl, rfl⟩
    · exact .inr ⟨List.mem_singleton.mp hr, hasKey_false.mp (Bool.eq_false_iff.mpr hk)⟩

theorem writeCare_keeps {deliveryRoom : String} {s : CareSignal} {c : CareTables} {r : AttentionRow}
    (h : r ∈ c.attentions) : ∃ r' ∈ (c.writeCare deliveryRoom s).attentions,
      r'.id = r.id ∧ r'.room = r.room ∧ r'.resolvedAt = r.resolvedAt := by
  unfold CareTables.writeCare
  split
  · split
    · refine ⟨_, mem_updateWhere.mpr ⟨r, h, rfl⟩, ?_⟩
      split <;> exact ⟨rfl, rfl, rfl⟩
    · exact ⟨r, h, rfl, rfl, rfl⟩
  · exact ⟨r, List.mem_append_left _ h, rfl, rfl, rfl⟩

theorem Owned.filed {name deliveryRoom id : String} {s : CareSignal} {c : CareTables}
    (h : Owned name c id) (hs : s.stableId = id → s.originRoom = name) :
    Owned name (c.writeCare deliveryRoom s) id := by
  intro r hr hid
  rcases writeCare_rows hr with ⟨r₀, hr₀, hid₀, hroom, -⟩ | ⟨rfl, -⟩
  · rw [hroom]
    exact h r₀ hr₀ (hid₀.symm.trans hid)
  · exact hs hid

theorem RowOf.filed {name deliveryRoom : String} {s : CareSignal} {c : CareTables}
    (h : Owned name c s.stableId) (hs : s.originRoom = name) :
    RowOf name (c.writeCare deliveryRoom s) s.stableId := by
  by_cases hk : hasKey AttentionRow.id s.stableId c.attentions = true
  · obtain ⟨r, hr, hid⟩ := hasKey_iff.mp hk
    obtain ⟨r', hr', hid', hroom, -⟩ := @writeCare_keeps deliveryRoom s _ _ hr
    exact ⟨r', hr', hid'.trans hid, hroom.trans (h r hr hid)⟩
  · unfold CareTables.writeCare
    rw [if_neg hk]
    exact ⟨s.newRow, List.mem_append_right _ (List.mem_singleton_self _), rfl, hs⟩

theorem RowOf.kept {name deliveryRoom id : String} {s : CareSignal} {c : CareTables}
    (h : RowOf name c id) : RowOf name (c.writeCare deliveryRoom s) id := by
  obtain ⟨r, hr, hid, hroom⟩ := h
  obtain ⟨r', hr', hid', hroom', -⟩ := @writeCare_keeps deliveryRoom s _ _ hr
  exact ⟨r', hr', hid'.trans hid, hroom'.trans hroom⟩

theorem readAttention_row {env : Env} {db : Db} {s : CareSignal} {r : AttentionRow}
    (hf : env.fails (.attention s.stableId) = false) (hl : LedgerSound db.care)
    (hr : r ∈ db.care.attentions) (hid : r.id = s.stableId) :
    World.readAttention env db s = attentionFromRow r := by
  unfold World.readAttention CareTables.attention
  rw [hf, hl.row_eq hr hid]
  rfl

namespace CareAgrees

variable {pending : String → Prop} {name : String} {m : CareMemory} {c : CareTables}

theorem publish {env : Env} {db : Db} {s : CareSignal}
    (h : CareAgrees (fun id => pending id ∨ id = s.stableId) name m db.care) (hl : LedgerSound db.care)
    (hf : ∀ call, env.fails call = false) (hrow : RowOf name db.care s.stableId) :
    CareAgrees pending name (m.file (World.readAttention env db s)) db.care := by
  obtain ⟨r, hr, hid, hn⟩ := hrow
  refine h.published hr hn hid ?_ (readAttention_id hl)
  rw [readAttention_row (hf _) hl hr hid]

/-- Signals of the room are filed on disk. -/
theorem filed_all {f : CareSignal → String} {signals : List CareSignal} (h : CareAgrees pending name m c)
    (hs : ∀ s ∈ signals, Owned name c s.stableId ∧ s.originRoom = name) :
    CareAgrees (fun id => pending id ∨ ∃ s ∈ signals, id = s.stableId) name m
        (signals.foldl (fun c s => c.writeCare (f s) s) c) ∧
      ∀ s ∈ signals, RowOf name (signals.foldl (fun c s => c.writeCare (f s) s) c) s.stableId := by
  have hkept : ∀ (l : List CareSignal) (c : CareTables) (id : String), RowOf name c id →
      RowOf name (l.foldl (fun c s => c.writeCare (f s) s) c) id := by
    intro l
    induction l with
    | nil => exact fun c id h => h
    | cons s l ih => exact fun c id h => ih _ id h.kept
  induction signals generalizing c pending with
  | nil => exact ⟨h.mono fun id => .inl, fun s hs => by cases hs⟩
  | cons s signals ih =>
      obtain ⟨hown, horigin⟩ := hs s List.mem_cons_self
      obtain ⟨hagree, hrows⟩ := ih (h.filed (f s) s) fun x hx =>
        ⟨(hs x (List.mem_cons_of_mem s hx)).1.filed fun _ => horigin, (hs x (List.mem_cons_of_mem s hx)).2⟩
      refine ⟨hagree.mono ?_, fun x hx => ?_⟩
      · rintro id ((hp | rfl) | ⟨x, hx, rfl⟩)
        · exact .inl hp
        · exact .inr ⟨s, List.mem_cons_self, rfl⟩
        · exact .inr ⟨x, List.mem_cons_of_mem s hx, rfl⟩
      · rcases List.mem_cons.mp hx with he | hx
        · rw [he]
          exact hkept signals (c.writeCare (f s) s) _ (RowOf.filed hown horigin)
        · exact hrows x hx

end CareAgrees

/-! ## Other rooms -/

/-- No attention of another room is filed under the room's prefix. -/
def Clear (room : String) (c : CareTables) : Prop :=
  ∀ r ∈ c.attentions, r.room ≠ room → hasPrefix (attentionPrefix room) r.id = false

theorem Clear.owned {room key : String} {c : CareTables} (h : Clear room c) :
    Owned room c (attentionKey room key) := by
  intro r hr hid
  by_contra hne
  have hno := h r hr hne
  rw [hid, attentionKey, hasPrefix_iff.mpr ⟨key, rfl⟩] at hno
  cases hno

theorem Clear.not_under {room key : String} {c : CareTables} {r : AttentionRow} (h : Clear room c)
    (hr : r ∈ c.attentions) (hne : r.room ≠ room) : underKey (attentionKey room key) r.id = false := by
  have hno := h r hr hne
  by_contra hu
  simp only [underKey, Bool.not_eq_false, Bool.or_eq_true, decide_eq_true_eq] at hu
  have hpre : hasPrefix (attentionPrefix room) r.id = true := by
    rcases hu with hu | hu
    · exact hasPrefix_iff.mpr ⟨key, hu⟩
    · obtain ⟨rest, hrest⟩ := hasPrefix_iff.mp hu
      exact hasPrefix_iff.mpr ⟨key ++ ":" ++ rest, by rw [hrest]; simp [attentionKey, String.append_assoc]⟩
  rw [hpre] at hno
  cases hno

/-- Resolving rows moves none of them. -/
theorem Clear.update {room : String} {now : Nat} {p : AttentionRow → Bool} {c c' : CareTables}
    (h : Clear room c) (ha : c'.attentions = updateWhere p (AttentionRow.resolve now) c.attentions) :
    Clear room c' := by
  intro r' hr' hne
  rw [ha] at hr'
  obtain ⟨r, hr, rfl⟩ := mem_updateWhere.mp hr'
  split at hne
  · rw [if_pos (by assumption)]
    exact h r hr hne
  · rw [if_neg (by assumption)]
    exact h r hr hne

namespace Leaves

variable {name room key : String} {now : Nat} {c : CareTables}

theorem unmark (hne : name ≠ room) : Leaves name c (c.deleteMark room key) := by
  refine delete rfl rfl fun row hp => ?_
  simp only [Bool.and_eq_true, decide_eq_true_eq] at hp
  rw [hp.1]
  exact hne.symm

theorem reset (hne : name ≠ room) (hc : Clear room c) : Leaves name c (c.resetCare room key now) := by
  refine (@unmark _ _ key _ hne).trans (update (p := fun r => underKey (attentionKey room key) r.id)
    (f := AttentionRow.resolve now) rfl (fun _ => rfl) ?_ fun _ _ => .rfl)
  intro r hr hn hu
  rw [hc.not_under hr (hn.symm ▸ hne)] at hu
  cases hu

theorem resolveWait {waiter : String} (hne : name ≠ room) (hc : Clear room c) (hl : LedgerSound c) :
    Leaves name c (c.resolveWaitAttentions room waiter now) := by
  obtain ⟨ha, hm⟩ := resolveWaitAttentions_eq room waiter now c
  refine update ha (fun _ => rfl) ?_ fun row hn => ?_
  · intro r hr hn hu
    exfalso
    simp only [Retired.hits, Retired.wait, List.any_cons, List.any_nil, Bool.or_false, Option.any_some,
      Bool.or_eq_true, List.contains_iff_mem] at hu
    rcases hu with hu | hu
    · rw [hc.not_under hr (hn.symm ▸ hne)] at hu
      cases hu
    · obtain ⟨r', hr', hid⟩ := List.mem_map.mp hu
      obtain ⟨hmem, hp⟩ := List.mem_filter.mp hr'
      obtain rfl : r' = r := List.inj_on_of_nodup_map hl.unique hmem hr hid
      simp only [Bool.and_eq_true, decide_eq_true_eq] at hp
      exact hne (hn.symm.trans hp.1.1.1)
  · rw [hm, mem_deleteWhere]
    exact and_iff_left_of_imp fun _ => by simp [hn, hne]

/-- The marks of another room, or of a room that has none, go. -/
theorem pause (h : name ≠ room ∨ ∀ row ∈ c.marks, row.room ≠ room) :
    Leaves name c (c.pauseRoomAttentions room now) := by
  refine ⟨fun r hr _ => ⟨r, hr, rfl⟩, fun r hr _ => ⟨r, hr, rfl⟩, fun row hn => ?_⟩
  show row ∈ deleteWhere _ c.marks ↔ _
  rw [mem_deleteWhere]
  refine and_iff_left_of_imp fun hrow => ?_
  rcases h with hne | hnone
  · simp [hn, hne]
  · simpa using hnone row hrow

end Leaves

/-! ## The whole server -/

/-- Every room's counters and attentions are on disk as they are in memory.  A closed room has
no counters. -/
structure Mirrored (cfg : Config) (w : World) : Prop where
  sound : LedgerSound w.db.care
  rooms : ∀ name, CareAgrees nonePending name (w.roomOr cfg name).care w.db.care
  closed : ∀ name, (w.roomOr cfg name).settings.archived = true → ∀ row ∈ w.db.care.marks, row.room ≠ name

namespace Mirrored

variable {cfg : Config} {w w' : World} {room : String} {r : Room} {db : Db}

theorem edits (h : Mirrored cfg w) (he : Edits cfg room r db w w') (hl : LedgerSound w'.db.care)
    (hown : CareAgrees nonePending room r.care db.care)
    (harch : r.settings.archived = true → ∀ row ∈ db.care.marks, row.room ≠ room)
    (hothers : ∀ name, name ≠ room → Leaves name w.db.care db.care) : Mirrored cfg w' := by
  refine ⟨hl, fun name => ?_, fun name => ?_⟩
  · rw [he.rooms, he.db]
    by_cases hn : name = room
    · subst hn
      rw [Function.update_self]
      exact hown
    · rw [Function.update_of_ne hn]
      exact (h.rooms name).leaves (hothers name hn)
  · rw [he.rooms, he.db]
    by_cases hn : name = room
    · subst hn
      rw [Function.update_self]
      exact harch
    · rw [Function.update_of_ne hn]
      intro ha row hrow hname
      exact h.closed name ha row (((hothers name hn).marks row hname).mp hrow) hname

/-- Nothing of what is mirrored changes in memory, and no room sees the change on disk. -/
theorem quiet (h : Mirrored cfg w) (hl : LedgerSound w'.db.care)
    (hcare : ∀ name, (w'.roomOr cfg name).care = (w.roomOr cfg name).care)
    (harch : ∀ name, (w'.roomOr cfg name).settings.archived = (w.roomOr cfg name).settings.archived)
    (hleaves : ∀ name, Leaves name w.db.care w'.db.care) : Mirrored cfg w' := by
  refine ⟨hl, fun name => ?_, fun name => ?_⟩
  · rw [hcare]
    exact (h.rooms name).leaves (hleaves name)
  · rw [harch]
    intro ha row hrow hname
    exact h.closed name ha row (((hleaves name).marks row hname).mp hrow) hname

theorem stays (h : Mirrored cfg w) (hs : Stays cfg w w') : Mirrored cfg w' := by
  have hl : LedgerSound w'.db.care := hs.db ▸ h.sound
  refine h.quiet hl (fun name => by rw [hs.rooms]) (fun name => by rw [hs.rooms]) fun name => ?_
  rw [hs.db]
  exact .refl name _

/-- One room is edited, but neither its care nor whether it is closed. -/
theorem edits_quiet (h : Mirrored cfg w) (he : Edits cfg room r db w w') (hl : LedgerSound w'.db.care)
    (hcare : r.care = (w.roomOr cfg room).care)
    (harch : r.settings.archived = (w.roomOr cfg room).settings.archived)
    (hleaves : ∀ name, Leaves name w.db.care db.care) : Mirrored cfg w' := by
  refine h.edits he hl ?_ ?_ fun name _ => hleaves name
  · rw [hcare]
    exact (h.rooms room).leaves (hleaves room)
  · rw [harch]
    intro ha row hrow hname
    exact h.closed room ha row (((hleaves room).marks row hname).mp hrow) hname

/-- A room's row is written; a closed room loses its marks. -/
theorem saves (h : Mirrored cfg w) {mode : ChatMode} {settings : RoomSettings} {clock : Nat}
    (he : Edits cfg room r db w w') (hl : LedgerSound w'.db.care)
    (hdb : saveRoom room mode settings clock w.db = .ok db)
    (hcare : r.care = (w.roomOr cfg room).care)
    (harch : r.settings.archived = (w.roomOr cfg room).settings.archived)
    (hset : settings.archived = r.settings.archived) : Mirrored cfg w' := by
  refine h.edits_quiet he hl hcare harch fun name => ?_
  obtain ⟨-, rfl⟩ := saveRoom_ok hdb
  show Leaves name w.db.care (if settings.archived then w.db.care.pauseRoomAttentions room clock else w.db.care)
  split
  · next ha => exact .pause (.inr (h.closed room (by rw [← harch, ← hset, ha])))
  · exact .refl name _

/-- Marks only go, and the room is as open as it was. -/
theorem progress (h : Mirrored cfg w) (he : Edits cfg room r db w w') (hl : LedgerSound w'.db.care)
    (hown : CareAgrees nonePending room r.care db.care)
    (hset : r.settings = (w.roomOr cfg room).settings)
    (hsub : ∀ row ∈ db.care.marks, row ∈ w.db.care.marks)
    (hothers : ∀ name, name ≠ room → Leaves name w.db.care db.care) : Mirrored cfg w' := by
  refine h.edits he hl hown ?_ hothers
  rw [hset]
  exact fun ha row hrow => h.closed room ha row (hsub row hrow)

end Mirrored

/-- The room has no silence reminder: no counter, and no attention that is not resolved. -/
def SilenceFree (room : String) (c : CareTables) : Prop :=
  c.mark room "silence" = none ∧ ∀ r ∈ c.attentions, underKey (attentionKey room "silence") r.id = true →
    r.resolvedAt.isSome = true

/-- No room's ids lie under the prefix of another, now or after a sweep. -/
def Untangled (w : World) : Prop :=
  ∀ room ∈ w.hub.rooms.keys, room ≠ "" ∧ Clear room w.db.care ∧
    ∀ other ∈ w.hub.rooms.keys, other ≠ room → hasPrefix (attentionPrefix room) (attentionPrefix other) = false

/-- A call that does the same on both sides. -/
def HubCall.Calm (cfg : Config) (env : Env) (w : World) : HubCall → Prop
  | .updateTask room _ _ _ | .updateGoal room _ _ | .setWait room _ | .clearWait room _ =>
      Clear room w.db.care
  | .setLead room lead _ => w.isDeleted cfg room = false →
      ¬ (lead = none ∧ (w.roomOr cfg room).goals.values.any (fun g => g.status = .active) = true) →
      SilenceFree room w.db.care
  | .announceJoinRequest _ _ => SilenceFree cfg.homeRoom w.db.care
  | .createAttention room _ => Owned room w.db.care ("att_" ++ env.token room "manual")
  | .tickCare => Untangled w
  | _ => True

section Calls

variable {cfg : Config} {env : Env} (hp : cfg.persistent = true) (hf : ∀ call, env.fails call = false)
include hp hf

end Calls

/-! ## The sweep -/

/-- The ledger's row under the id is the room's, and not resolved. -/
def OpenRow (name : String) (c : CareTables) (id : String) : Prop :=
  ∃ r ∈ c.attentions, r.id = id ∧ r.room = name ∧ r.resolvedAt = none

/-- No row under the id is resolved. -/
def Unresolved (c : CareTables) (id : String) : Prop := ∀ r ∈ c.attentions, r.id = id → r.resolvedAt = none

theorem Unresolved.filed {deliveryRoom id : String} {s : CareSignal} {c : CareTables}
    (h : Unresolved c id) : Unresolved (c.writeCare deliveryRoom s) id := by
  intro r hr hid
  rcases writeCare_rows hr with ⟨r₀, hr₀, hid₀, -, hres⟩ | ⟨rfl, -⟩
  · rw [hres]
    exact h r₀ hr₀ (hid₀.symm.trans hid)
  · rfl

theorem OpenRow.kept {name deliveryRoom id : String} {s : CareSignal} {c : CareTables}
    (h : OpenRow name c id) : OpenRow name (c.writeCare deliveryRoom s) id := by
  obtain ⟨r, hr, hid, hroom, hopen⟩ := h
  obtain ⟨r', hr', hid', hroom', hopen'⟩ := @writeCare_keeps deliveryRoom s _ _ hr
  exact ⟨r', hr', hid'.trans hid, hroom'.trans hroom, hopen'.trans hopen⟩

theorem Clear.filed {room deliveryRoom : String} {s : CareSignal} {c : CareTables} (h : Clear room c)
    (hs : s.originRoom ≠ room → hasPrefix (attentionPrefix room) s.stableId = false) :
    Clear room (c.writeCare deliveryRoom s) := by
  intro r hr hne
  rcases writeCare_rows hr with ⟨r₀, hr₀, hid, hroom, -⟩ | ⟨rfl, -⟩
  · rw [hid]
    exact h r₀ hr₀ (hroom ▸ hne)
  · exact hs hne

section Sweep

variable {cfg : Config} {env : Env} (hp : cfg.persistent = true) (hf : ∀ call, env.fails call = false)
  {names : List String}
include hp hf

end Sweep

/-! ## Every call -/

section Calls

variable {cfg : Config} {env : Env} (hp : cfg.persistent = true) (hf : ∀ call, env.fails call = false)
include hp hf

end Calls

end Loca
