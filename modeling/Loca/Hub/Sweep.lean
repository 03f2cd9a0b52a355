/-
# `Loca.Hub.Sweep` — what a care sweep can do

The sweep looks at every room and files at most one reminder in each.  `Filed` lists the
four ways a reminder is written: with its mark, with the wait it is about, to everyone, or
for the room to see when nobody can be reached.  `sweepRoom_spec` says that one turn of
the first loop does one of these or nothing, `publishCareSignal_spec` that one turn of the
second files the attention of a written signal in its room.
-/
import Loca.Hub.Effect
import Loca.Hub.Scheduler

namespace Loca

open Check Text

/-- A signal about the condition `key` of a room. -/
structure Voice (room key : String) (s : CareSignal) : Prop where
  id : s.attentionId = attentionKey room key
  /-- The ledger files it under its room; a room without a name has none. -/
  origin : room ≠ "" → s.originRoom = room

/-- The marks of reminders other than wait cycles. -/
def ReminderKey (key : String) : Prop :=
  (∃ id, key = taskKey id) ∨ (∃ id, key = goalKey id) ∨ key = "silence"

/-- A signal and the key of the mark that counts it. -/
def Counted (room key : String) (s : CareSignal) : Prop :=
  (s.reason = .waitCycle ∧ Voice room key s ∧ ∃ rest, key = "wait-cycle:" ++ rest) ∨
    (s.reason ≠ .waitCycle ∧ ReminderKey key ∧ ∃ k, Voice room k s)

/-- A reminder is written: the signals to publish, the room and the database after it. -/
inductive Filed (room : String) (r : Room) (db : Db) : List CareSignal → Room → Db → Prop
  | marked {key : String} {mark : CareMark} {s : CareSignal} : Counted room key s →
      Filed room r db [s] { r with careMarks := r.careMarks.put key mark }
        (db.withCare (db.care.enqueueCareWithMark room key mark.lastSignalAt mark.signalCount s.room s))
  | waited {name : String} {wait : WaitState} {last count : Nat} {s : CareSignal} :
      r.waits.get name = some wait → s.reason ≠ .waitCycle → (∃ k, Voice room k s) →
      Filed room r db [s]
        { r with
          waits := r.waits.put name { wait with signalCount := count, lastSignalAt := some last } }
        (enqueueCareWithWaits [{ wait with signalCount := count, lastSignalAt := some last }] s.room s db)
  | everyone {key : String} {mark : CareMark} {signals : List CareSignal} : ReminderKey key →
      (∀ s ∈ signals, Counted room key s) →
      Filed room r db signals { r with careMarks := r.careMarks.put key mark }
        (db.withCare (db.care.enqueueEveryoneCare room key mark.lastSignalAt mark.signalCount signals))
  | noticed {s : CareSignal} : s.reason ≠ .waitCycle → (∃ k, Voice room k s) →
      Filed room r db [s] r (db.withCare (db.care.writeCare s.room s))

/-! ## The signals -/

theorem makeCareSignal_voice {cfg : Config} {env : Env} {room key : String} {r : Room}
    {d : CareDraft} (hk : d.attentionKey = key) :
    Voice room key (makeCareSignal cfg env room r d) := by
  refine ⟨congrArg (attentionKey room) hk, fun hne => ?_⟩
  unfold CareSignal.originRoom makeCareSignal
  by_cases hd : d.rehomed cfg room = true <;> simp [hd, hne]

theorem cycleKey_eq (now : Nat) (cycle : List String) (r : Room) :
    ∃ rest, cycleKey now cycle r = "wait-cycle:" ++ rest :=
  ⟨_, (congrArg (· ++ _) String.append_assoc).trans String.append_assoc⟩

theorem reminders_key {now : Nat} {r : Room} {rem : Reminder} (h : rem ∈ r.reminders now) :
    ReminderKey rem.key ∧ rem.reason ≠ .waitCycle := by
  simp only [Room.reminders, List.mem_append, List.mem_map] at h
  rcases h with (h | ⟨g, -, rfl⟩) | h
  · split at h
    · obtain ⟨t, -, rfl⟩ := List.mem_map.mp h
      exact ⟨.inl ⟨t.id, rfl⟩, by simp [taskReminder]⟩
    · cases h
  · exact ⟨.inr (.inl ⟨g.id, rfl⟩), by simp [goalReminder]⟩
  · split at h
    · obtain rfl := List.mem_singleton.mp h
      exact ⟨.inr (.inr rfl), by simp [silenceReminder]⟩
    · cases h

section Specs

variable {cfg : Config} {env : Env} (hp : cfg.persistent = true)
include hp

/-! ## One candidate -/

theorem signalWithMark_spec {room key : String} {r : Room} {mark : CareMark} {s : CareSignal}
    {w w' : World} {signals : List CareSignal} (hs : Counted room key s)
    (h : signalWithMark cfg env room key r mark s w = some (w', signals)) :
    ∃ r' db, Filed room r w.db signals r' db ∧ Puts room r' db w w' := by
  unfold signalWithMark at h
  split at h
  · cases h
  · next w₁ hst =>
    obtain rfl := World.store_total hp hst
    cases h
    exact ⟨_, _, .marked hs, .of_set _ _ _ _⟩

theorem tryCycle_spec {room : String} {owner : Option String} {r : Room} {cycle : List String}
    {w w' : World} {signals : List CareSignal}
    (h : tryCycle cfg env room owner r w cycle = some (w', signals)) :
    ∃ r' db, Filed room r w.db signals r' db ∧ Puts room r' db w w' := by
  unfold tryCycle at h
  dsimp only at h
  split at h
  · split at h
    · cases h
    · refine signalWithMark_spec hp (.inl ⟨rfl, ?_, cycleKey_eq _ _ _⟩) h
      exact makeCareSignal_voice rfl
  · cases h

theorem tryWait_spec {room name : String} {owner : Option String} {r : Room}
    {w w' : World} {signals : List CareSignal}
    (h : tryWait cfg env room owner r w name = some (w', signals)) :
    ∃ r' db, Filed room r w.db signals r' db ∧ Puts room r' db w w' := by
  unfold tryWait at h
  split at h
  · cases h
  · next wait hw =>
    split at h
    · dsimp only at h
      split at h
      · cases h
      · split at h
        · cases h
        · next w₁ hst =>
          obtain rfl := World.store_total hp hst
          cases h
          exact ⟨_, _, .waited hw (by simp [makeCareSignal]) ⟨_, makeCareSignal_voice rfl⟩,
            .of_set _ _ _ _⟩
    · cases h

theorem tryEveryone_spec {room : String} {r : Room} {mark next : CareMark} {escalated : Bool}
    {rem : Reminder} {w w' : World} {signals : List CareSignal}
    (hk : ReminderKey rem.key ∧ rem.reason ≠ .waitCycle)
    (h : tryEveryone cfg env room r mark next escalated rem w = some (w', signals)) :
    ∃ r' db, Filed room r w.db signals r' db ∧ Puts room r' db w w' := by
  simp only [tryEveryone, Option.bind_eq_bind, Option.bind_eq_some_iff] at h
  obtain ⟨recipients, -, u, -, h⟩ := h
  split at h
  · cases h
  · next w₁ hst =>
    obtain rfl := World.store_total hp hst
    cases h
    refine ⟨_, _, .everyone hk.1 ?_, .of_set _ _ _ _⟩
    intro s hs
    obtain ⟨e, -, rfl⟩ := List.mem_map.mp (List.mem_filter.mp hs).1
    exact .inr ⟨hk.2, hk.1, _, makeCareSignal_voice rfl⟩

theorem tryReminder_spec {room : String} {owner : Option String} {r : Room} {rem : Reminder}
    {w w' : World} {signals : List CareSignal} (hr : w.room? room = some r)
    (hk : ReminderKey rem.key ∧ rem.reason ≠ .waitCycle)
    (h : tryReminder cfg env room owner r w rem = some (w', signals)) :
    ∃ r' db, Filed room r w.db signals r' db ∧ Puts room r' db w w' := by
  unfold tryReminder at h
  dsimp only at h
  split at h
  · split at h
    · exact tryEveryone_spec hp hk h
    · split at h
      · cases h
      · split at h
        · split at h
          · cases h
          · split at h
            · cases h
            · next w₁ hst =>
              obtain rfl := World.store_total hp hst
              cases h
              refine ⟨r, _, .noticed hk.2 ⟨_, makeCareSignal_voice rfl⟩, fun name => ?_, rfl, rfl⟩
              split
              · next hn => rw [hn]; exact hr
              · rfl
        · exact signalWithMark_spec hp (.inr ⟨hk.2, hk.1, _, makeCareSignal_voice rfl⟩) h
  · cases h

/-! ## One room -/

theorem chooseReminder_spec {room : String} {r : Room} {w w' : World} {signals : List CareSignal}
    (hr : w.room? room = some r) (h : chooseReminder cfg env room r w = some (w', signals)) :
    ∃ r' db, Filed room r w.db signals r' db ∧ Puts room r' db w w' := by
  unfold chooseReminder at h
  dsimp only at h
  split at h
  · next chosen hc =>
    cases h
    obtain ⟨cycle, -, hc⟩ := List.exists_of_findSome?_eq_some hc
    exact tryCycle_spec hp hc
  · split at h
    · next chosen hc =>
      cases h
      obtain ⟨name, -, hc⟩ := List.exists_of_findSome?_eq_some hc
      exact tryWait_spec hp hc
    · obtain ⟨rem, hrem, hc⟩ := List.exists_of_findSome?_eq_some h
      exact tryReminder_spec hp hr (reminders_key hrem) hc

omit hp in
/-- Only what is neither claimed nor resolved is chosen. -/
theorem chooseReminder_open {room : String} {r : Room} {w w' : World} {signals : List CareSignal}
    (h : chooseReminder cfg env room r w = some (w', signals)) :
    ∀ s ∈ signals, w.ownedOrDone env r s.attentionId = false := by
  have hmark : ∀ {key mark s}, signalWithMark cfg env room key r mark s w = some (w', signals) →
      signals = [s] := by
    intro key mark s hs
    unfold signalWithMark at hs
    split at hs
    · cases hs
    · cases hs
      rfl
  have hone : ∀ {s}, ¬ w.ownedOrDone env r s.attentionId = true → signals = [s] →
      ∀ s ∈ signals, w.ownedOrDone env r s.attentionId = false := by
    rintro s hs rfl x hx
    rw [List.mem_singleton.mp hx]
    exact Bool.eq_false_iff.mpr hs
  unfold chooseReminder at h
  dsimp only at h
  split at h
  · next chosen hc =>
    cases h
    obtain ⟨cycle, -, hc⟩ := List.exists_of_findSome?_eq_some hc
    unfold tryCycle at hc
    dsimp only at hc
    split at hc
    · split at hc
      · cases hc
      · next hopen => exact hone hopen (hmark hc)
    · cases hc
  · split at h
    · next chosen hc =>
      cases h
      obtain ⟨name, -, hc⟩ := List.exists_of_findSome?_eq_some hc
      unfold tryWait at hc
      split at hc
      · cases hc
      · split at hc
        · dsimp only at hc
          split at hc
          · cases hc
          · next hopen =>
            split at hc
            · cases hc
            · cases hc
              exact hone hopen rfl
        · cases hc
    · obtain ⟨rem, -, hc⟩ := List.exists_of_findSome?_eq_some h
      unfold tryReminder at hc
      dsimp only at hc
      split at hc
      · split at hc
        · simp only [tryEveryone, Option.bind_eq_bind, Option.bind_eq_some_iff] at hc
          obtain ⟨recipients, -, u, -, hc⟩ := hc
          split at hc
          · cases hc
          · cases hc
            intro s hs
            simpa using (List.mem_filter.mp hs).2
        · split at hc
          · cases hc
          · next hopen =>
            split at hc
            · split at hc
              · cases hc
              · split at hc
                · cases hc
                · cases hc
                  exact hone hopen rfl
            · exact hone hopen (hmark hc)
      · cases hc

/-- One turn of the first loop: nothing, or a reminder that is filed and collected. -/
theorem sweepRoom_choice (acc : World × List (String × CareSignal)) (room : String) :
    sweepRoom cfg env acc room = acc ∨
    ∃ r' db signals, (acc.1.roomOr cfg room).settings.archived = false ∧
      (acc.1.room? room).isSome ∧
      (∀ s ∈ signals, acc.1.ownedOrDone env (acc.1.roomOr cfg room) s.attentionId = false) ∧
      Filed room (acc.1.roomOr cfg room) acc.1.db signals r' db ∧
      (sweepRoom cfg env acc room).2 = acc.2 ++ signals.map (fun s => (room, s)) ∧
      Puts room r' db acc.1 (sweepRoom cfg env acc room).1 := by
  unfold sweepRoom
  split
  · exact .inl rfl
  · next r hr =>
    rw [World.roomOr_of_some hr]
    split
    · exact .inl rfl
    · next harch =>
      split
      · exact .inl rfl
      · next w signals hc =>
        obtain ⟨r', db, hf, he⟩ := chooseReminder_spec hp hr hc
        exact .inr ⟨r', db, signals, Bool.eq_false_iff.mpr harch, by simp [hr], chooseReminder_open hc,
          hf, rfl, he⟩

theorem sweepRoom_spec (acc : World × List (String × CareSignal)) (room : String) :
    sweepRoom cfg env acc room = acc ∨
    ∃ r' db signals, (acc.1.roomOr cfg room).settings.archived = false ∧
      (acc.1.room? room).isSome ∧
      Filed room (acc.1.roomOr cfg room) acc.1.db signals r' db ∧
      (sweepRoom cfg env acc room).2 = acc.2 ++ signals.map (fun s => (room, s)) ∧
      Puts room r' db acc.1 (sweepRoom cfg env acc room).1 := by
  rcases @sweepRoom_choice _ env hp acc room with h | ⟨r', db, signals, ha, hsome, -, h⟩
  · exact .inl h
  · exact .inr ⟨r', db, signals, ha, hsome, h⟩

omit hp in
/-- Entering the home room at the end of an operation changes nothing that is read. -/
theorem Edits.enter {room home : String} {r : Room} {db : Db} {w w' : World}
    {frames : List ServerFrame} (h : Edits cfg room r db w w') :
    Edits cfg room r db w ((w'.setRoom home (w'.roomOr cfg home)).send home frames) :=
  ⟨(World.roomOr_enter cfg home w').trans h.rooms, h.db⟩

omit hp in
/-- Publishing a signal files its attention in the room it came from, unless the condition
has been resolved since or the room is gone. -/
theorem publishCareSignal_spec (w : World) (p : String × CareSignal) :
    (Stays cfg w (publishCareSignal cfg env w p) ∧
      (w.room? p.1 = none ∨
        ((w.roomOr cfg p.1).attentions.get p.2.stableId).any (fun a => a.status = .resolved) = true ∨
        (w.ledger env p.2.stableId).any (fun a => a.status = .resolved) = true)) ∨
    Edits cfg p.1 ((w.roomOr cfg p.1).fileAttention (World.readAttention env w.db p.2)) w.db w
      (publishCareSignal cfg env w p) := by
  unfold publishCareSignal
  dsimp only
  split
  · next hres =>
    refine .inl ⟨.refl cfg w, ?_⟩
    rcases (Bool.or_eq_true _ _).mp hres with h | h
    · cases hr : w.room? p.1 with
      | none => exact .inl rfl
      | some r =>
          rw [hr] at h
          exact .inr (.inl (by rw [World.roomOr_of_some hr]; exact h))
    · exact .inr (.inr h)
  · have hnote : ∀ b : Bool, Stays cfg w (if b then w.noteDelivery p.2 else w) := by
      intro b
      cases b <;> exact ⟨rfl, rfl⟩
    have hroom : ∀ b : Bool, (if b then w.noteDelivery p.2 else w).room? p.1 = w.room? p.1 := by
      intro b
      cases b <;> rfl
    obtain ⟨hrooms, hdb⟩ := hnote p.2.owner.isSome
    rw [hroom, hdb]
    generalize (if p.2.owner.isSome = true then w.noteDelivery p.2 else w) = w₁ at hrooms hdb
    cases hr : w.room? p.1 with
    | none =>
        refine .inl ⟨?_, .inl rfl⟩
        dsimp only
        split
        · exact ⟨(World.roomOr_enter cfg _ w₁).trans hrooms, hdb⟩
        · exact ⟨hrooms, hdb⟩
    | some r =>
        right
        have he : ∀ frames, Edits cfg p.1 (r.fileAttention (World.readAttention env w.db p.2)) w.db w
            ((w₁.setRoom p.1 (r.fileAttention (World.readAttention env w.db p.2))).send p.1 frames) :=
          fun frames => ⟨by rw [World.roomOr_send, World.roomOr_setRoom, hrooms], hdb⟩
        rw [World.roomOr_of_some hr]
        dsimp only
        split
        · exact (he _).enter
        · exact he _

end Specs

end Loca
