/-
# `Loca.Hub.Care` — what a step does to the care tables

Every operation of the Hub, a restart included, changes the three care tables by a few kinds of
writes, one after the other.  `CareStep` lists them, and `step_care` says that a step of the
server is a sequence of such writes.  A law of the care tables that each of them keeps is then
a law of every run.
-/
import Mathlib.Logic.Relation
import Loca.Hub.Reboot

namespace Loca

open Check Relation Table

/-- One write to the care tables. -/
inductive CareStep : CareTables → CareTables → Prop
  | retire (p : String) (now : Nat) (c : CareTables) : CareStep c (c.resolveUnder p now)
  | unmark (room key : String) (c : CareTables) : CareStep c (c.deleteMark room key)
  | cycle (room : String) (now : Nat) (id : String) (c : CareTables) :
      CareStep c (CareTables.resolveCycle room now c id)
  /-- A signal is delivered in the room it names. -/
  | file {s : CareSignal} (c : CareTables) : s.attentionId ≠ "" → CareStep c (c.writeCare s.room s)
  /-- A wait counts its reminders itself and has no mark. -/
  | mark {room key : String} {last count : Nat} (c : CareTables) : (∀ waiter, key ≠ waitKey waiter) →
      CareStep c (c.writeMark room key last count)
  | claim (id actor : String) (now : Nat) (c : CareTables) : CareStep c (c.claimAttention id actor now).2
  | resolve (id : String) (now : Nat) (c : CareTables) : CareStep c (c.resolveAttention id now).2
  | ack (id owner : String) (principal : Option String) (now : Nat) (c : CareTables) :
      CareStep c (c.ackCareScoped id owner principal now).2
  | pause (room : String) (now : Nat) (c : CareTables) : CareStep c (c.pauseRoomAttentions room now)
  | end_ (room : String) (now : Nat) (c : CareTables) : CareStep c (c.retireRoomAttentions room now)

abbrev CareSteps := ReflTransGen CareStep

namespace CareSteps

variable {room key : String} {now : Nat} {c c' : CareTables}

theorem of_eq (h : c' = c) : CareSteps c c' := h ▸ .refl

theorem resetCare (room key : String) (now : Nat) (c : CareTables) :
    CareSteps c (c.resetCare room key now) :=
  .tail (.single (.unmark room key c)) (.retire _ now _)

theorem resolveWait (room waiter : String) (now : Nat) (c : CareTables) :
    CareSteps c (c.resolveWaitAttentions room waiter now) := by
  have hfold : ∀ (ids : List String) (c : CareTables),
      CareSteps c (ids.foldl (CareTables.resolveCycle room now) c) := by
    intro ids
    induction ids with
    | nil => exact fun c => .refl
    | cons id ids ih => exact fun c => .head (.cycle room now id c) (ih _)
  exact .head (.retire _ now c) (hfold _ _)

theorem filed {s : CareSignal} {deliveryRoom : String} (h : s.attentionId ≠ "")
    (hroom : s.room = deliveryRoom) (c : CareTables) : CareSteps c (c.writeCare deliveryRoom s) :=
  hroom ▸ .single (.file c h)

theorem filed_all {f : CareSignal → String} {signals : List CareSignal}
    (h : ∀ s ∈ signals, s.attentionId ≠ "" ∧ s.room = f s) (c : CareTables) :
    CareSteps c (signals.foldl (fun c s => c.writeCare (f s) s) c) := by
  induction signals generalizing c with
  | nil => exact .refl
  | cons s signals ih =>
      obtain ⟨hs, hroom⟩ := h s List.mem_cons_self
      exact (filed hs hroom c).trans (ih (fun s' hs' => h s' (List.mem_cons_of_mem s hs')) _)

theorem taskCare (t : Task) (goal : Option Goal) (clear : Bool) (c : CareTables) :
    CareSteps c (Loca.taskCare t goal clear c) := by
  have htask : CareSteps c (if clear then c.resetCare t.room (taskKey t.id) t.progressAt else c) := by
    split
    · exact resetCare _ _ _ c
    · exact .refl
  cases goal with
  | none => exact htask
  | some g => exact htask.trans (resetCare _ _ _ _)

theorem goalCare (g : Goal) (clear : Bool) (c : CareTables) : CareSteps c (Loca.goalCare g clear c) := by
  unfold Loca.goalCare
  split
  · exact resetCare _ _ _ c
  · exact .refl

theorem save {mode : ChatMode} {settings : RoomSettings} {db db' : Db}
    (h : saveRoom room mode settings now db = .ok db') : CareSteps db.care db'.care := by
  obtain ⟨-, rfl⟩ := saveRoom_ok h
  show CareSteps db.care (if settings.archived then db.care.pauseRoomAttentions room now else db.care)
  split
  · exact .single (.pause room now _)
  · exact .refl

theorem announce {m : Message} {mode : ChatMode} {settings : RoomSettings} {db db' : Db}
    (h : insertMessageWithRoom m mode settings none db = .ok db') : CareSteps db.care db'.care := by
  simp only [insertMessageWithRoom, bind_ok] at h
  obtain ⟨db₁, h₁, h₂⟩ := h
  obtain ⟨-, -, refs, pending, rfl⟩ := writeMessage_ok h₂
  obtain ⟨-, rfl⟩ := writeRoomState_ok.mp h₁
  exact resetCare _ _ _ _

end CareSteps

/-! ## Signals name a condition -/

theorem Voice.attentionId_ne {room key : String} {s : CareSignal} (h : Voice room key s) :
    s.attentionId ≠ "" := by
  rw [h.id]
  intro he
  have hlen := congrArg String.length he
  simp [attentionKey, attentionPrefix, String.length_append] at hlen

theorem Counted.attentionId_ne {room key : String} {s : CareSignal} (h : Counted room key s) :
    s.attentionId ≠ "" := by
  rcases h with ⟨-, hv, -⟩ | ⟨-, -, k, hv⟩
  · exact hv.attentionId_ne
  · exact hv.attentionId_ne

theorem ReminderKey.ne_waitKey {key : String} (h : ReminderKey key) (waiter : String) :
    key ≠ waitKey waiter := by
  have hfirst : ∀ {p q s t : String}, p ++ s = q ++ t → p.toList.head? ≠ none → q.toList.head? ≠ none →
      p.toList.head? = q.toList.head? := by
    intro p q s t h hp hq
    have hl := congrArg (fun x : String => x.toList.head?) h
    simp only [String.toList_append, List.head?_append] at hl
    cases hph : p.toList.head? with
    | none => exact absurd hph hp
    | some a =>
        cases hqh : q.toList.head? with
        | none => exact absurd hqh hq
        | some b =>
            rw [hph, hqh] at hl
            simpa using hl
  rcases h with ⟨id, rfl⟩ | ⟨id, rfl⟩ | rfl
  · exact fun he => absurd (hfirst he (by decide) (by decide)) (by decide)
  · exact fun he => absurd (hfirst he (by decide) (by decide)) (by decide)
  · intro he
    have hs : "silence" ++ "" = "wait:" ++ waiter := he
    exact absurd (hfirst hs (by decide) (by decide)) (by decide)

theorem Counted.ne_waitKey {room key : String} {s : CareSignal} (h : Counted room key s)
    (waiter : String) : key ≠ waitKey waiter := by
  rcases h with ⟨-, -, rest, rfl⟩ | ⟨-, hk, -⟩
  · intro he
    have hl := congrArg (fun x : String => x.toList.drop 4 |>.head?) he
    simp only [waitKey, String.toList_append] at hl
    exact absurd hl (by simp)
  · exact hk.ne_waitKey waiter

theorem Filed.care {room : String} {r r' : Room} {db db' : Db} {signals : List CareSignal}
    (h : Filed room r db signals r' db') : CareSteps db.care db'.care := by
  cases h with
  | marked hc => exact .head (.mark _ hc.ne_waitKey) (CareSteps.filed hc.attentionId_ne rfl _)
  | waited _ _ hv =>
      obtain ⟨k, hv⟩ := hv
      exact CareSteps.filed hv.attentionId_ne rfl _
  | everyone hk hc =>
      exact .head (.mark _ hk.ne_waitKey) (CareSteps.filed_all (fun s hs => ⟨(hc s hs).attentionId_ne, rfl⟩) _)
  | noticed _ hv =>
      obtain ⟨k, hv⟩ := hv
      exact CareSteps.filed hv.attentionId_ne rfl _

/-- The signals a post files: each names its condition, and the room it is delivered in. -/
theorem draft_signals {cfg : Config} {env : Env} {q : PostRequest} {attachments : List Attachment}
    {author : Option String} {r : Room} {hub : Hub} {d : PostDraft}
    (hd : d = q.draft cfg env attachments author r hub) :
    (∀ s ∈ d.summons, s.attentionId ≠ "" ∧ s.room = cfg.homeRoom) ∧
      ∀ wait wake, d.wake = some (wait, wake) → wake.attentionId ≠ "" ∧ wake.room = q.room := by
  have hkey : ∀ room key, attentionKey room key ≠ "" := by
    intro room key he
    have hlen := congrArg String.length he
    simp [attentionKey, attentionPrefix, String.length_append] at hlen
  constructor
  · intro s hs
    rw [hd] at hs
    simp only [PostRequest.draft] at hs
    split at hs
    · cases hs
    · obtain ⟨owner, -, rfl⟩ := List.mem_map.mp hs
      exact ⟨hkey _ _, rfl⟩
  · intro wait wake hw
    rw [hd] at hw
    obtain ⟨m, g, hww⟩ := draft_wake hw
    simp only [waitWake, Option.bind_eq_bind, Option.bind_eq_some_iff, Option.pure_def,
      Option.some.injEq, Prod.mk.injEq] at hww
    obtain ⟨target, -, -, -, existing, -, -, -, -, rfl⟩ := hww
    exact ⟨hkey _ _, rfl⟩

/-! ## Every step -/

section Calls

variable {cfg : Config} {env : Env} (hp : cfg.persistent = true)
include hp

theorem tickCare_care (w : World) : CareSteps w.db.care (tickCare cfg env w).db.care := by
  have hsweep : ∀ (acc : World × List (String × CareSignal)) name,
      CareSteps acc.1.db.care (sweepRoom cfg env acc name).1.db.care := by
    intro acc name
    rcases sweepRoom_spec hp acc name with h | ⟨r', db, signals, -, -, hf, -, he⟩
    · rw [h]
    · rw [he.db]
      exact hf.care
  have hpublish : ∀ w p, CareSteps w.db.care (publishCareSignal cfg env w p).db.care := by
    intro w p
    rcases @publishCareSignal_spec cfg env w p with ⟨h, -⟩ | h
    · rw [h.db]
    · rw [h.db]
  exact (Sys.foldl_rel (R := fun a b => CareSteps a.1.db.care b.1.db.care) (fun _ => .refl)
    (fun _ _ _ => .trans) hsweep _ (w, [])).trans
      (Sys.foldl_rel (R := fun a b : World => CareSteps a.db.care b.db.care) (fun _ => .refl)
        (fun _ _ _ => .trans) hpublish _ _)

theorem call_care (c : HubCall) (w : World) : CareSteps w.db.care (c.run cfg env w).2.db.care := by
  have stays : ∀ {w'}, Stays cfg w w' → CareSteps w.db.care w'.db.care := fun h => CareSteps.of_eq (by rw [h.db])
  have edits : ∀ {room r db w'}, Edits cfg room r db w w' → CareSteps w.db.care db.care →
      CareSteps w.db.care w'.db.care := fun h hc => by rw [h.db]; exact hc
  have reseats : ∀ {room w'}, Reseats cfg room w w' → CareSteps w.db.care w'.db.care := by
    rintro room w' ⟨members, muted, banned, db, hc, he⟩
    exact edits he (CareSteps.of_eq hc.care)
  cases c with
  | createTask name req =>
      rcases @createTask_spec cfg env hp name req w with h | ⟨t, -, h⟩
      · exact stays h
      · exact edits h .refl
  | updateTask name id req isOperator =>
      rcases @updateTask_spec cfg env hp name id req isOperator w with h | ⟨t, t', p, goal, -, -, -, h⟩
      · exact stays h
      · refine edits h ?_
        rw [upsertTaskWithGoalProgress_eq]
        exact CareSteps.taskCare t' goal p _
  | createGoal name req =>
      rcases @createGoal_spec cfg env hp name req w with h | ⟨g, -, h⟩
      · exact stays h
      · exact edits h .refl
  | updateGoal name id req =>
      rcases @updateGoal_spec cfg env hp name id req w with h | ⟨g, g', p, -, -, h⟩
      · exact stays h
      · refine edits h ?_
        rw [upsertGoalWithCareReset_eq]
        exact CareSteps.goalCare g' p _
  | setWait name req =>
      rcases @setWait_spec cfg env hp name req w with h | ⟨wait, -, -, h⟩
      · exact stays h
      · exact edits h (.head (.unmark _ _ _) (CareSteps.resolveWait _ _ _ _))
  | clearWait name waiter =>
      rcases @clearWait_spec cfg env hp name waiter w with h | h
      · exact stays h
      · exact edits h (.head (.unmark _ _ _) (CareSteps.resolveWait _ _ _ _))
  | setLead name lead actor =>
      rcases @setLead_spec cfg env hp name lead actor w with h | ⟨m, s, db, -, hm, -, -, hdb, h⟩
      · exact stays h
      · exact edits h (CareSteps.announce hdb)
  | announceJoinRequest name kind =>
      obtain ⟨m, db, -, -, hdb, h⟩ := @announceJoinRequest_spec cfg env hp name kind w
      rcases hdb with rfl | hdb
      · exact edits h .refl
      · exact edits h (CareSteps.announce hdb)
  | setMode name mode clock =>
      rcases @setMode_spec cfg env hp name mode clock w with h | ⟨db, -, hdb, h⟩
      · exact stays h
      · exact edits h (CareSteps.save hdb)
  | setSettings name req clock =>
      rcases @setSettings_spec cfg env hp name req clock w with h | ⟨db, -, hdb, h⟩
      · exact stays h
      · exact edits h (CareSteps.save hdb)
  | expireLive clock =>
      refine Sys.foldl_rel (R := fun a b : World => CareSteps a.db.care b.db.care) (fun _ => .refl)
        (fun _ _ _ => .trans) (fun w n => ?_) _ w
      rcases @expireLiveRoom_spec cfg env hp clock n w with h | ⟨s, db, -, -, hdb, h⟩
      · rw [h.db]
      · rw [h.db]
        exact CareSteps.save hdb
  | createNote name req =>
      rcases @createNote_spec cfg env hp name req w with h | ⟨note, -, -, h⟩
      · exact stays h
      · exact edits h .refl
  | updateNote name key req isOperator =>
      rcases @updateNote_spec cfg env hp name key req isOperator w with h | ⟨n, n', db, -, -, hdb, h⟩
      · exact stays h
      · simp only [replaceNote, bind_ok, found_ok, pure_ok] at hdb
        obtain ⟨revisions, -, rfl⟩ := hdb
        exact edits h .refl
  | deleteNote name key =>
      rcases @deleteNote_spec cfg env hp name key w with h | h
      · exact stays h
      · exact edits h .refl
  | appendJournal name entryBy byType text =>
      rcases @appendJournal_spec cfg env hp name entryBy byType text w with h | ⟨e, db, -, -, hdb, h⟩
      · exact stays h
      · simp only [appendJournalRow, bind_ok, pure_ok] at hdb
        obtain ⟨journal, -, rfl⟩ := hdb
        exact edits h .refl
  | createAttention name req =>
      rcases @createAttention_spec cfg env hp name req w with h | ⟨s, o, ps, db, a, -, hs, rfl, -, h⟩
      · exact stays h
      · refine edits h (CareSteps.filed ?_ ?_ _)
        · rw [hs]
          intro he
          have hlen := congrArg String.length he
          simp [manualSignal, String.length_append] at hlen
        · rw [hs]
          rfl
  | claimAttention name id actor =>
      rcases @claimAttention_spec cfg env hp name id actor w with h | ⟨a, -, -, -, h⟩
      · exact stays h
      · exact edits h (.single (.claim _ _ _ _))
  | resolveAttention name id actor principal isOperator =>
      rcases @resolveAttention_spec cfg env hp name id actor principal isOperator w with
        h | ⟨a, -, -, -, h⟩
      · exact stays h
      · exact edits h (.single (.resolve _ _ _))
  | ackCare signalId owner principal =>
      rcases @ackCare_spec cfg env hp signalId owner principal w with
        h | ⟨db, rfl, hr, hdb⟩ | ⟨name, id, a, -, h⟩
      · exact stays h
      · exact (congrArg (fun db : Db => CareSteps w.db.care db.care) hdb).mpr
          (.single (.ack signalId owner principal env.now w.db.care))
      · exact edits h (.single (.ack _ _ _ _ _))
  | tickCare => exact tickCare_care hp w
  | createLoca name actor clock =>
      rcases @createLoca_spec cfg env hp name actor clock w with h | ⟨db, -, -, hdb, hr, hsame⟩
      · exact stays h
      · refine .trans (b := db.care) ?_ (CareSteps.of_eq hsame.care)
        rcases hdb with hdb | hdb
        · obtain ⟨-, rfl⟩ := writeRoomState_ok.mp hdb
          exact .refl
        · exact CareSteps.save hdb
  | deleteRoom name =>
      rcases @deleteRoom_spec cfg env hp name w with h | ⟨-, -, h⟩
      · exact stays h
      · exact edits h (.single (.end_ _ _ _))
  | subscribe name => exact stays (subscribe_spec name w)
  | join name identity label kind session => exact reseats (join_spec name identity label kind session w)
  | leave name identity => exact reseats (leave_spec name identity w)
  | admitMember name kind admittedBy => exact reseats (admitMember_spec hp "" name kind admittedBy w)
  | inviteMemberToRoom member name issuedBy =>
      exact reseats (inviteMemberToRoom_spec hp member name issuedBy w)
  | revokeDavet token => exact reseats (revokeDavet_spec hp "" token w)
  | revokeMember token => exact reseats (revokeMember_spec hp "" token w)
  | moderate name action who => exact reseats (moderate_spec hp name action who w)
  | outside db => exact .refl

theorem postLocked_care (q : PostRequest) (attachments : List Attachment) (w : World) :
    CareSteps w.db.care (postLocked cfg env q attachments w).2.db.care := by
  rcases @postLocked_spec cfg env hp q attachments w with ⟨m, -, hl⟩ | ⟨e, times, -, he⟩ |
    ⟨author, r, d, db, hr, hd, hdb, -, -, -, he⟩
  · rw [hl]
    exact .refl
  · rw [he.db]
  · have hroom : d.msg.room = q.room := by rw [hd]; rfl
    obtain ⟨hsummons, hwake⟩ := draft_signals hd
    obtain ⟨-, -, -, refs, pending, rfl⟩ := persist_ok hroom hdb
    rw [he.db]
    show CareSteps w.db.care (d.care cfg env.now q w.db.care)
    unfold PostDraft.care
    cases hw : d.wake with
    | none => exact (CareSteps.resetCare _ _ _ _).trans (CareSteps.filed_all hsummons _)
    | some p =>
        obtain ⟨hid, hdel⟩ := hwake p.1 p.2 hw
        exact ((CareSteps.resetCare _ _ _ _).trans (CareSteps.resolveWait _ _ _ _)).trans (CareSteps.filed hid hdel _)

end Calls

theorem build_care (cfg : Config) (env : Env) (clock : Nat) (db : Db) :
    CareSteps db.care (build cfg env clock db).db.care := by
  refine build_rule (P := fun w => CareSteps db.care w.db.care) ?_ ?_ ?_ ?_ ?_
  · exact fun db₀ hc => CareSteps.of_eq hc.care
  · intro w room h
    rcases migrateOperator_spec env clock w room with ⟨-, hc⟩ | ⟨r, st, db₁, db₂, -, -, hc, hdb, he⟩
    · exact h.trans (CareSteps.of_eq hc.care)
    · rw [he]
      exact (h.trans (CareSteps.of_eq hc.care)).trans (CareSteps.save hdb)
  · exact fun w w' h _ hc => h.trans (CareSteps.of_eq hc.care)
  · exact fun w h => h
  · exact fun w b _ h => h

/-- A step of the server is a sequence of writes to the care tables. -/
theorem step_care {cfg : Config} (hp : cfg.persistent = true) (s : Server) (i : HubInput) :
    CareSteps s.world.db.care (s.step cfg i).2.world.db.care := by
  rcases serverStep_world cfg s i with hs | ⟨env, c, -, hs⟩ | ⟨env, k, q, att, posts, -, -, hs⟩ |
    ⟨env, clock, -, hs⟩
  · rw [hs]
  · rw [hs]; exact call_care hp c s.world
  · rw [hs]; exact postLocked_care hp q att s.world
  · rw [hs]; exact build_care cfg env clock s.world.db

/-! ## What every write keeps -/

/-- Attentions are filed under the id of their signal and marks under their room and key, each
once.  No mark counts the reminders of a wait. -/
structure LedgerSound (c : CareTables) : Prop where
  unique : (c.attentions.map AttentionRow.id).Nodup
  named : ∀ r ∈ c.attentions, r.signal.stableId = r.id
  counted : (c.marks.map fun r => (r.room, r.signalKey)).Nodup
  unwaited : ∀ r ∈ c.marks, ∀ waiter, r.signalKey ≠ waitKey waiter

namespace LedgerSound

variable {c c' : CareTables}

theorem empty {c : CareTables} (ha : c.attentions = []) (hm : c.marks = []) : LedgerSound c := by
  constructor <;> simp [ha, hm]

/-- Rows are found by id. -/
theorem row_eq {id : String} {r : AttentionRow} (hl : LedgerSound c) (hr : r ∈ c.attentions)
    (hid : r.id = id) : c.row id = some r := by
  unfold CareTables.row
  cases hx : c.attentions.find? fun x => x.id = id with
  | none => exact absurd hid (by simpa using List.find?_eq_none.mp hx r hr)
  | some x =>
      have hxid : x.id = id := by simpa using List.find?_some hx
      exact congrArg some (List.inj_on_of_nodup_map hl.unique (List.mem_of_find?_eq_some hx) hr
        (hxid.trans hid.symm))

/-- An update that keeps ids and signals. -/
theorem update (h : LedgerSound c) {p : AttentionRow → Bool} {f : AttentionRow → AttentionRow}
    (ha : c'.attentions = updateWhere p f c.attentions) (hm : c'.marks = c.marks)
    (hid : ∀ r, (f r).id = r.id) (hsignal : ∀ r, (f r).signal = r.signal) : LedgerSound c' := by
  refine ⟨?_, ?_, hm ▸ h.counted, hm ▸ h.unwaited⟩
  · rw [ha]
    exact nodup_updateWhere hid h.unique
  · intro r hr
    rw [ha] at hr
    obtain ⟨x, hx, rfl⟩ := mem_updateWhere.mp hr
    split
    · rw [hsignal, hid]
      exact h.named x hx
    · exact h.named x hx

theorem delete (h : LedgerSound c) {p : CareMarkRow → Bool} (ha : c'.attentions = c.attentions)
    (hm : c'.marks = deleteWhere p c.marks) : LedgerSound c' := by
  refine ⟨ha ▸ h.unique, ha ▸ h.named, hm ▸ nodup_deleteWhere h.counted, ?_⟩
  intro r hr
  rw [hm] at hr
  exact h.unwaited r (mem_deleteWhere.mp hr).1

theorem file (h : LedgerSound c) (deliveryRoom : String) (s : CareSignal) :
    LedgerSound (c.writeCare deliveryRoom s) := by
  unfold CareTables.writeCare
  split
  · split
    · refine ⟨nodup_updateWhere (fun _ => rfl) h.unique, ?_, h.counted, h.unwaited⟩
      intro r hr
      obtain ⟨x, hx, rfl⟩ := mem_updateWhere.mp hr
      split
      · next hid =>
        simp only [Bool.and_eq_true, decide_eq_true_eq] at hid
        exact hid.1.symm
      · exact h.named x hx
    · exact h
  · next hk =>
    have hnew := hasKey_false.mp (Bool.eq_false_iff.mpr hk)
    refine ⟨nodup_append_new h.unique hnew, ?_, h.counted, h.unwaited⟩
    intro r hr
    rcases List.mem_append.mp hr with hr | hr
    · exact h.named r hr
    · rw [List.mem_singleton.mp hr]
      rfl

end LedgerSound

theorem CareStep.ledger {c c' : CareTables} (h : CareStep c c') (hs : LedgerSound c) : LedgerSound c' := by
  cases h with
  | retire p now => exact hs.update rfl rfl (fun _ => rfl) (fun _ => rfl)
  | unmark room key => exact hs.delete rfl rfl
  | cycle room now id =>
      unfold CareTables.resolveCycle
      dsimp only
      split
      · next key _ =>
        exact (@LedgerSound.delete _ (c.deleteMark room key) hs _ rfl rfl).update rfl rfl (fun _ => rfl) (fun _ => rfl)
      · exact hs.update rfl rfl (fun _ => rfl) (fun _ => rfl)
  | @file s _ => exact hs.file s.room s
  | @mark room key last count _ hkey =>
      refine ⟨hs.unique, hs.named, nodup_upsert hs.counted, ?_⟩
      intro r hr
      rcases mem_upsert.mp hr with ⟨hr, -⟩ | rfl
      · exact hs.unwaited r hr
      · exact hkey
  | claim id actor now => exact hs.update rfl rfl (fun _ => rfl) (fun _ => rfl)
  | resolve id now =>
      unfold CareTables.resolveAttention
      split
      · exact hs.update rfl rfl (fun _ => rfl) (fun _ => rfl)
      · exact hs
  | ack id owner principal now =>
      unfold CareTables.ackCareScoped
      split
      · exact hs
      · exact hs.update rfl rfl (fun _ => rfl) (fun _ => rfl)
  | pause room now => exact hs.delete rfl rfl
  | end_ room now =>
      exact (@LedgerSound.delete _ (c.pauseRoomAttentions room now) hs _ rfl rfl).update rfl rfl
        (fun _ => rfl) (fun _ => rfl)

theorem CareSteps.ledger {c c' : CareTables} (h : CareSteps c c') (hs : LedgerSound c) : LedgerSound c' := by
  induction h with
  | refl => exact hs
  | tail _ hstep ih => exact hstep.ledger ih

theorem run_ledgerSound {cfg : Config} (hp : cfg.persistent = true) {ok : Server → HubInput → Prop}
    {tr : List (HubInput × HubAnswer)} {s : Server} (r : Sys.Run (hubMachine cfg) ok tr s) :
    LedgerSound s.world.db.care := by
  refine Sys.Run.invariant (I := fun s => LedgerSound s.world.db.care) ?_ ?_ r
  · rintro s ⟨env, clock, rfl⟩
    exact (build_care cfg env clock {}).ledger (.empty rfl rfl)
  · exact fun s i h _ => (step_care hp s i).ledger h

end Loca
