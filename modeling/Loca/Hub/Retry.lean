/-
# `Loca.Hub.Retry` — a retried post is one message

A client that does not hear back posts again under the same operation id.  The server
recognises the retry in two places: the archive, before the rooms are locked, and a bounded
window of recent operations in memory, under the lock.  Between the two another copy of the
same post may be stored, and the window forgets: at its limit, when a room is deleted, at a
restart.  What makes the law hold in every interleaving is the unique index on the archive:
a second row for the operation is refused there, and the window only ever holds what the
archive has.

`Quiet` is what every call but a post does to the two places: it stores no message under an
operation, and remembers none.
-/
import Loca.Hub.Boot
import Loca.Hub.Refusal
import Loca.Hub.Step

namespace Loca

open Check

/-- A message as the archive gives it back; the author it answers is not stored. -/
def Message.core (m : Message) : Message := { m with replyToSender := none }

/-- The archive has the message of an operation. -/
def Archived (db : Db) (room : String) (o : Operation) (m : Message) : Prop :=
  ∃ row ∈ db.messages, row.room = room ∧ row.operation = some o ∧ row.toMessage = m.core

/-- Two rows under one operation of one room. -/
def MessageRow.Clash (a b : MessageRow) : Prop :=
  a.operation.isSome ∧ a.room = b.room ∧ a.operation = b.operation

structure Remembers (cfg : Config) (w : World) : Prop where
  unique : w.db.messages.Pairwise fun a b => ¬a.Clash b
  window : ∀ room o m, (w.roomOr cfg room).operations.get o = some m → Archived w.db room o m

/-! ## Calls other than posts -/

structure Quiet (cfg : Config) (w w' : World) : Prop where
  archive : ∃ rows, w'.db.messages = w.db.messages ++ rows ∧ ∀ r ∈ rows, r.operation = none
  window : ∀ room o m, (w'.roomOr cfg room).operations.get o = some m →
    (w.roomOr cfg room).operations.get o = some m

namespace Quiet

variable {cfg : Config} {w w' w'' : World} {room : String} {r : Room} {db : Db}

theorem of_eq (hr : ∀ n, (w'.roomOr cfg n).operations = (w.roomOr cfg n).operations)
    (hm : w'.db.messages = w.db.messages) : Quiet cfg w w' :=
  ⟨⟨[], by simpa using hm, by simp⟩, fun n o m h => hr n ▸ h⟩

theorem refl (cfg : Config) (w : World) : Quiet cfg w w := .of_eq (fun _ => rfl) rfl

theorem trans (h : Quiet cfg w w') (h' : Quiet cfg w' w'') : Quiet cfg w w'' := by
  obtain ⟨rows, hm, hn⟩ := h.archive
  obtain ⟨rows', hm', hn'⟩ := h'.archive
  refine ⟨⟨rows ++ rows', by rw [hm', hm, List.append_assoc], ?_⟩,
    fun n o m hg => h.window n o m (h'.window n o m hg)⟩
  intro row hrow
  rcases List.mem_append.mp hrow with hrow | hrow
  · exact hn row hrow
  · exact hn' row hrow

theorem stays (h : Stays cfg w w') : Quiet cfg w w' :=
  .of_eq (fun n => by rw [h.rooms]) (by rw [h.db])

/-- An edit that forgets or keeps the room's window and stores at most announcements. -/
theorem edits (h : Edits cfg room r db w w')
    (ho : r.operations = (w.roomOr cfg room).operations ∨ r.operations = ∅)
    (hm : ∃ rows, db.messages = w.db.messages ++ rows ∧ ∀ row ∈ rows, row.operation = none) :
    Quiet cfg w w' := by
  refine ⟨h.db ▸ hm, fun n o m hg => ?_⟩
  rw [h.rooms, Function.update_apply] at hg
  split at hg
  · next hn =>
    subst hn
    rcases ho with ho | ho
    · rwa [ho] at hg
    · rw [ho] at hg; cases hg
  · exact hg

theorem edits_same (h : Edits cfg room r db w w')
    (ho : r.operations = (w.roomOr cfg room).operations) (hm : db.messages = w.db.messages) :
    Quiet cfg w w' :=
  edits h (.inl ho) ⟨[], by simpa using hm, by simp⟩

theorem reseats (h : Reseats cfg room w w') : Quiet cfg w w' := by
  obtain ⟨members, muted, banned, db, hc, he⟩ := h
  exact edits_same he rfl hc.messages

/-- An announcement is stored without an operation. -/
theorem announces {m : Message} {mode : ChatMode} {settings : RoomSettings}
    (h : Edits cfg room r db w w') (ho : r.operations = (w.roomOr cfg room).operations)
    (hdb : insertMessageWithRoom m mode settings none w.db = .ok db) : Quiet cfg w w' := by
  simp only [insertMessageWithRoom, bind_ok] at hdb
  obtain ⟨db₁, h₁, h₂⟩ := hdb
  obtain ⟨-, rfl⟩ := writeRoomState_ok.mp h₁
  obtain ⟨-, -, refs, pending, rfl⟩ := writeMessage_ok h₂
  exact edits h (.inl ho) ⟨[MessageRow.ofMessage m none], rfl, by simp⟩

end Quiet

theorem Filed.quiet {room : String} {r r' : Room} {db db' : Db} {signals : List CareSignal}
    (h : Filed room r db signals r' db') :
    r'.operations = r.operations ∧ db'.messages = db.messages := by
  cases h <;> exact ⟨rfl, rfl⟩

section Calls

variable {cfg : Config} {env : Env} (hp : cfg.persistent = true)
include hp

theorem tickCare_quiet (w : World) : Quiet cfg w (tickCare cfg env w) := by
  have hsweep : ∀ (acc : World × List (String × CareSignal)) room,
      Quiet cfg acc.1 (sweepRoom cfg env acc room).1 := by
    intro acc room
    rcases sweepRoom_spec hp acc room with h | ⟨r', db, signals, -, -, hf, -, he⟩
    · rw [h]; exact .refl cfg acc.1
    · exact .edits_same he.edits hf.quiet.1 hf.quiet.2
  have hpublish : ∀ w p, Quiet cfg w (publishCareSignal cfg env w p) := by
    intro w p
    rcases @publishCareSignal_spec cfg env w p with ⟨h, -⟩ | h
    · exact .stays h
    · exact .edits_same h rfl rfl
  exact (Sys.foldl_rel (R := fun a b => Quiet cfg a.1 b.1) (fun a => .refl cfg a.1)
    (fun _ _ _ => .trans) hsweep _ (w, [])).trans
      (Sys.foldl_rel (.refl cfg) (fun _ _ _ => .trans) hpublish _ _)

theorem expireLive_quiet (clock : Nat) (w : World) : Quiet cfg w (expireLive cfg env clock w) := by
  refine Sys.foldl_rel (.refl cfg) (fun _ _ _ => .trans) ?_ _ w
  intro w name
  rcases @expireLiveRoom_spec cfg env hp clock name w with h | ⟨s, db, -, -, hdb, he⟩
  · exact .stays h
  · obtain ⟨-, rfl⟩ := saveRoom_ok hdb
    exact .edits_same he rfl rfl

/-- No call stores a message under an operation or remembers one. -/
theorem call_quiet (c : HubCall) (w : World) : Quiet cfg w (c.run cfg env w).2 := by
  cases c with
  | createTask room req =>
      rcases @createTask_spec cfg env hp room req w with h | ⟨t, -, h⟩
      · exact .stays h
      · exact .edits_same h rfl rfl
  | updateTask room id req isOperator =>
      rcases @updateTask_spec cfg env hp room id req isOperator w with h | ⟨t, t', p, goal, -, -, -, h⟩
      · exact .stays h
      · obtain ⟨marks, atts, ht⟩ := putTask_eq room t' p (w.roomOr cfg room)
        rw [upsertTaskWithGoalProgress_eq] at h
        refine .edits_same h ?_ rfl
        cases goal with
        | none => rw [ht]
        | some g =>
            obtain ⟨marks', atts', hg⟩ := putGoal_eq room g true ((w.roomOr cfg room).putTask room t' p)
            dsimp only
            rw [hg, ht]
  | createGoal room req =>
      rcases @createGoal_spec cfg env hp room req w with h | ⟨g, -, h⟩
      · exact .stays h
      · exact .edits_same h rfl rfl
  | updateGoal room id req =>
      rcases @updateGoal_spec cfg env hp room id req w with h | ⟨g, g', p, -, -, h⟩
      · exact .stays h
      · obtain ⟨marks, atts, hg⟩ := putGoal_eq room g' p (w.roomOr cfg room)
        rw [upsertGoalWithCareReset_eq] at h
        exact .edits_same h (by rw [hg]) rfl
  | setWait room req =>
      rcases @setWait_spec cfg env hp room req w with h | ⟨wait, -, -, h⟩
      · exact .stays h
      · obtain ⟨marks, atts, hw⟩ := putWait_eq room wait (w.roomOr cfg room)
        exact .edits_same h (by rw [hw]) rfl
  | clearWait room waiter =>
      rcases @clearWait_spec cfg env hp room waiter w with h | h
      · exact .stays h
      · obtain ⟨marks, atts, hw⟩ := dropWait_eq room waiter env.now (w.roomOr cfg room)
        exact .edits_same h (by rw [hw]) rfl
  | setLead room lead actor =>
      rcases @setLead_spec cfg env hp room lead actor w with h | ⟨m, s, db, -, -, -, -, hdb, h⟩
      · exact .stays h
      · exact .announces h rfl hdb
  | announceJoinRequest name kind =>
      obtain ⟨m, db, -, -, hdb, h⟩ := @announceJoinRequest_spec cfg env hp name kind w
      rcases hdb with rfl | hdb
      · exact .edits_same h rfl rfl
      · exact .announces h rfl hdb
  | setMode room mode clock =>
      rcases @setMode_spec cfg env hp room mode clock w with h | ⟨db, -, hdb, h⟩
      · exact .stays h
      · obtain ⟨-, rfl⟩ := saveRoom_ok hdb
        exact .edits_same h rfl rfl
  | setSettings room req clock =>
      rcases @setSettings_spec cfg env hp room req clock w with h | ⟨db, -, hdb, h⟩
      · exact .stays h
      · obtain ⟨-, rfl⟩ := saveRoom_ok hdb
        exact .edits_same h rfl rfl
  | expireLive clock => exact expireLive_quiet hp clock w
  | createNote room req =>
      rcases @createNote_spec cfg env hp room req w with h | ⟨note, -, -, h⟩
      · exact .stays h
      · exact .edits_same h rfl rfl
  | updateNote room key req isOperator =>
      rcases @updateNote_spec cfg env hp room key req isOperator w with h | ⟨n, n', db, -, -, hdb, h⟩
      · exact .stays h
      · simp only [replaceNote, bind_ok, pure_ok] at hdb
        obtain ⟨revisions, -, rfl⟩ := hdb
        exact .edits_same h rfl rfl
  | deleteNote room key =>
      rcases @deleteNote_spec cfg env hp room key w with h | h
      · exact .stays h
      · exact .edits_same h rfl rfl
  | appendJournal room entryBy byType text =>
      rcases @appendJournal_spec cfg env hp room entryBy byType text w with h | ⟨e, db, -, -, hdb, h⟩
      · exact .stays h
      · simp only [appendJournalRow, bind_ok, pure_ok] at hdb
        obtain ⟨journal, -, rfl⟩ := hdb
        exact .edits_same h rfl rfl
  | createAttention room req =>
      rcases @createAttention_spec cfg env hp room req w with h | ⟨s, o, ps, db, a, -, -, rfl, -, h⟩
      · exact .stays h
      · exact .edits_same h rfl rfl
  | claimAttention room id actor =>
      rcases @claimAttention_spec cfg env hp room id actor w with h | ⟨a, -, -, -, h⟩
      · exact .stays h
      · exact .edits_same h rfl rfl
  | resolveAttention room id actor principal isOperator =>
      rcases @resolveAttention_spec cfg env hp room id actor principal isOperator w with
        h | ⟨a, -, -, -, h⟩
      · exact .stays h
      · exact .edits_same h rfl rfl
  | ackCare signalId owner principal =>
      rcases @ackCare_spec cfg env hp signalId owner principal w with
        h | ⟨db, rfl, hr, hdb⟩ | ⟨name, id, a, -, h⟩
      · exact .stays h
      · exact .of_eq (fun n => congrArg (fun f => (f n).operations) hr) ((congrArg Db.messages hdb).trans rfl)
      · exact .edits_same h rfl rfl
  | tickCare => exact tickCare_quiet hp w
  | createLoca room actor clock =>
      rcases @createLoca_spec cfg env hp room actor clock w with h | ⟨db, -, -, hdb, hr, hc⟩
      · exact .stays h
      · refine .of_eq (fun n => congrArg (fun f => (f n).operations) hr) (hc.messages.trans ?_)
        rcases hdb with hdb | hdb
        · obtain ⟨-, rfl⟩ := writeRoomState_ok.mp hdb
          rfl
        · obtain ⟨-, rfl⟩ := saveRoom_ok hdb
          rfl
  | deleteRoom room =>
      rcases @deleteRoom_spec cfg env hp room w with h | ⟨-, -, h⟩
      · exact .stays h
      · exact .edits h (.inr rfl) ⟨[], (List.append_nil _).symm, by simp⟩
  | subscribe room => exact .stays (subscribe_spec room w)
  | join room identity name kind session => exact .reseats (join_spec room identity name kind session w)
  | leave room identity => exact .reseats (leave_spec room identity w)
  | admitMember name kind admittedBy =>
      exact .reseats (admitMember_spec hp "" name kind admittedBy w)
  | inviteMemberToRoom member room issuedBy =>
      exact .reseats (inviteMemberToRoom_spec hp member room issuedBy w)
  | revokeDavet token => exact .reseats (revokeDavet_spec hp "" token w)
  | revokeMember token => exact .reseats (revokeMember_spec hp "" token w)
  | moderate room action name => exact .reseats (moderate_spec hp room action name w)
  | outside db => exact .of_eq (fun _ => rfl) rfl

end Calls

/-! ## Posts -/

theorem get_foldl_del {keys : List Operation} {operations : Assoc Operation Message} {o : Operation}
    {m : Message} (h : (keys.foldl (fun ops k => ops.del k) operations).get o = some m) :
    operations.get o = some m := by
  induction keys generalizing operations with
  | nil => exact h
  | cons k keys ih =>
      have hk := ih h
      rw [Assoc.get_del] at hk
      split at hk
      · cases hk
      · exact hk

/-- The window after an accepted post holds the post, if it has an operation, and otherwise
only what it held. -/
theorem rememberOperation_get {operation : Option Operation} {m m' : Message} {r : Room}
    {o : Operation} (h : (r.rememberOperation operation m).operations.get o = some m') :
    (operation = some o ∧ m' = m) ∨ r.operations.get o = some m' := by
  cases operation with
  | none => exact .inr h
  | some key =>
      unfold Room.rememberOperation at h
      dsimp only at h
      have hput := get_foldl_del h
      rw [Assoc.get_put] at hput
      split at hput
      · next hk =>
        subst hk
        exact .inl ⟨rfl, (Option.some.inj hput).symm⟩
      · exact .inr hput

theorem mirror_window {env : Env} {q : PostRequest} {db : Db} {d : PostDraft} {r : Room}
    {o : Operation} {m : Message}
    (h : (d.mirror env q db (q.expireStamps env.now r)).operations.get o = some m) :
    (q.operation = some o ∧ m = d.msg) ∨ r.operations.get o = some m := by
  obtain ⟨marks, atts, hm⟩ := @mirror_eq env q db d (q.expireStamps env.now r)
  obtain ⟨times, he⟩ := expireStamps_eq q env.now r
  rw [hm, he] at h
  obtain ⟨times', hs⟩ := stampRate_eq q env.now { r with postTimes := times }
  unfold PostDraft.heard Room.appendHistory Room.setMode? at h
  rw [hs] at h
  dsimp only at h
  have hget := rememberOperation_get h
  exact hget

theorem Archived.mono {db db' : Db} {rows : List MessageRow} {room : String} {o : Operation}
    {m : Message} (h : Archived db room o m) (hm : db'.messages = db.messages ++ rows) :
    Archived db' room o m := by
  obtain ⟨row, hrow, hr⟩ := h
  exact ⟨row, by rw [hm]; exact List.mem_append_left _ hrow, hr⟩

/-- Two answers for one operation are one message. -/
theorem Remembers.same {cfg : Config} {w : World} (h : Remembers cfg w) {room : String}
    {o : Operation} {m m' : Message} (hm : Archived w.db room o m) (hm' : Archived w.db room o m') :
    m.core = m'.core := by
  obtain ⟨row, hrow, hroom, hop, hcore⟩ := hm
  obtain ⟨row', hrow', hroom', hop', hcore'⟩ := hm'
  have hsymm : Std.Symm fun a b : MessageRow => ¬a.Clash b :=
    ⟨fun a b hn hc => hn ⟨hc.2.2 ▸ hc.1, hc.2.1.symm, hc.2.2.symm⟩⟩
  have heq : row = row' := by
    by_contra hne
    refine h.unique.forall hrow hrow' hne ⟨by simp [hop], ?_, ?_⟩
    · rw [hroom, hroom']
    · rw [hop, hop']
  rw [← hcore, ← hcore', heq]

theorem Remembers.quiet {cfg : Config} {w w' : World} (h : Remembers cfg w) (hq : Quiet cfg w w') :
    Remembers cfg w' := by
  obtain ⟨rows, hm, hn⟩ := hq.archive
  refine ⟨?_, fun room o m hg => (h.window room o m (hq.window room o m hg)).mono hm⟩
  rw [hm, List.pairwise_append]
  refine ⟨h.unique, ?_, ?_⟩
  · refine List.pairwise_of_forall_mem_list fun a ha b _ hc => ?_
    simp [MessageRow.Clash, hn a ha] at hc
  · intro a _ b hb hc
    have hop := hc.2.2 ▸ hc.1
    simp [hn b hb] at hop

section Posts

variable {cfg : Config} {env : Env} (hp : cfg.persistent = true)
include hp

omit hp in
/-- An accepted post is stored under its operation, once. -/
theorem accepted_remembers {w w' : World} {q : PostRequest} {attachments : List Attachment}
    {author : Option String} {r : Room} {d : PostDraft} {db : Db} (h : Remembers cfg w)
    (hr : r = q.expireStamps env.now (w.roomOr cfg q.room))
    (hd : d = q.draft cfg env attachments author r w.hub)
    (hdb : d.persist cfg env.now q r w.db = .ok db)
    (he : Edits cfg q.room (d.mirror env q db r) db w w') :
    Remembers cfg w' ∧ w'.db.messages = w.db.messages ++ [MessageRow.ofMessage d.msg q.operation] ∧
      ∀ row ∈ w.db.messages, q.operation.isSome → ¬(row.room = q.room ∧ row.operation = q.operation) := by
  have hroom : d.msg.room = q.room := by rw [hd]; rfl
  obtain ⟨-, -, hop, refs, pending, hdb'⟩ := persist_ok hroom hdb
  have hm : w'.db.messages = w.db.messages ++ [MessageRow.ofMessage d.msg q.operation] := by
    rw [he.db, hdb']
  refine ⟨⟨?_, ?_⟩, hm, hop⟩
  · rw [hm, List.pairwise_append]
    refine ⟨h.unique, List.pairwise_singleton _ _, ?_⟩
    intro a ha b hb hc
    obtain rfl := List.mem_singleton.mp hb
    have hsame : a.operation = q.operation := by simpa using hc.2.2
    exact hop a ha (hsame ▸ hc.1) ⟨hc.2.1.trans hroom, hsame⟩
  · intro room o m hg
    rw [he.rooms, Function.update_apply] at hg
    split at hg
    · next hn =>
      subst hn
      rw [hr] at hg
      rcases mirror_window hg with ⟨ho, rfl⟩ | hold
      · refine ⟨MessageRow.ofMessage d.msg q.operation, ?_, hroom, by simpa using ho, by simp; rfl⟩
        rw [hm]
        exact List.mem_append_right _ (List.mem_singleton.mpr rfl)
      · exact (h.window _ o m hold).mono hm
    · exact (h.window room o m hg).mono hm

/-- The locked part of a post keeps the law, answers with what the archive has, and stores
nothing when the archive already has the operation. -/
theorem postLocked_remembers {w : World} (q : PostRequest) (attachments : List Attachment)
    (h : Remembers cfg w) :
    Remembers cfg (postLocked cfg env q attachments w).2 ∧
    (w.db.messages <+: (postLocked cfg env q attachments w).2.db.messages) ∧
    (∀ m o, (postLocked cfg env q attachments w).1 = .ok m → q.operation = some o →
      Archived (postLocked cfg env q attachments w).2.db q.room o m) ∧
    (∀ m o, (postLocked cfg env q attachments w).1 = .ok m → q.operation = some o →
      (∃ row ∈ w.db.messages, row.room = q.room ∧ row.operation = some o) →
      (postLocked cfg env q attachments w).2 = w.setRoom q.room (w.roomOr cfg q.room) ∧
        (w.room? q.room).isSome) := by
  rcases @postLocked_spec cfg env hp q attachments w with ⟨m, hm, hl⟩ | ⟨e, times, hl, he⟩ |
    ⟨author, r, d, db, hr, hd, hdb, -, -, hl, he⟩
  · have hq := Quiet.stays (Stays.enter cfg q.room w)
    rw [hl]
    refine ⟨h.quiet hq, List.prefix_rfl, ?_, ?_⟩
    · intro m' o hm' ho
      obtain rfl : m = m' := Except.ok.inj hm'
      refine h.window q.room o m ?_
      simpa [PostRequest.remembered, ho] using hm
    · intro m' o hm' ho _
      refine ⟨rfl, ?_⟩
      cases hroom : w.room? q.room with
      | some r => rfl
      | none => simp [PostRequest.remembered, ho, World.roomOr, hroom, Room.fresh] at hm
  · refine ⟨h.quiet (.edits_same he rfl rfl), ?_, ?_, ?_⟩
    · exact (congrArg Db.messages he.db).symm ▸ List.prefix_rfl
    · intro m o hm
      rw [hl] at hm; cases hm
    · intro m o hm
      rw [hl] at hm; cases hm
  · obtain ⟨hrem, hmsg, hfresh⟩ := accepted_remembers h hr hd hdb he
    refine ⟨hrem, by rw [hmsg]; exact List.prefix_append _ _, ?_, ?_⟩
    · intro m o hm ho
      obtain rfl : d.msg = m := Except.ok.inj (hl.symm.trans hm)
      refine ⟨MessageRow.ofMessage d.msg q.operation, ?_, by rw [hd]; rfl, by simpa using ho, by simp; rfl⟩
      rw [hmsg]
      exact List.mem_append_right _ (List.mem_singleton.mpr rfl)
    · rintro m o - ho ⟨row, hrow, hroom, hop⟩
      exact absurd ⟨hroom, hop.trans ho.symm⟩ (hfresh row hrow (by simp [ho]))

end Posts

/-! ## Starting -/

/-- A start remembers no operation and keeps the archive. -/
theorem build_archive (cfg : Config) (env : Env) (clock : Nat) (db : Db) :
    (build cfg env clock db).db.messages = db.messages ∧
      ∀ room, ((build cfg env clock db).roomOr cfg room).operations = ∅ := by
  have hroomOr : ∀ {w w' : World}, w'.hub.rooms = w.hub.rooms → w'.roomOr cfg = w.roomOr cfg :=
    fun h => World.roomOr_eq_of_room? fun n => congrArg (Assoc.get n) h
  have hset : ∀ {w : World} {name : String} {r : Room},
      (∀ room, (w.roomOr cfg room).operations = ∅) → r.operations = ∅ →
      ∀ room, ((w.setRoom name r).roomOr cfg room).operations = ∅ := by
    intro w name r hw hr room
    rw [World.roomOr_setRoom, Function.update_apply]
    split
    · exact hr
    · exact hw room
  refine build_rule (P := fun w => w.db.messages = db.messages ∧
    ∀ room, (w.roomOr cfg room).operations = ∅) ?_ ?_ ?_ ?_ ?_
  · intro db₀ hc
    refine ⟨hc.messages, fun room => ?_⟩
    unfold World.roomOr
    rw [room?_restored]
    split <;> rfl
  · rintro w room ⟨hm, hw⟩
    rcases migrateOperator_spec env clock w room with ⟨hr, hc⟩ | ⟨r, s, db₁, db₂, hr, -, hc, hs, he⟩
    · exact ⟨hc.messages.trans hm, fun n => by rw [hroomOr hr]; exact hw n⟩
    · obtain ⟨-, rfl⟩ := saveRoom_ok hs
      rw [he]
      refine ⟨hc.messages.trans hm, hset (fun n => hw n) ?_⟩
      rw [← World.roomOr_of_some hr]
      exact hw room
  · rintro w w' ⟨hm, hw⟩ hr hc
    exact ⟨hc.messages.trans hm, fun n => by rw [hroomOr hr]; exact hw n⟩
  · rintro w ⟨hm, hw⟩
    refine ⟨hm, hset hw ?_⟩
    split
    · exact hw _
    · exact hw _
  · rintro w b - ⟨hm, hw⟩
    refine ⟨hm, hset hw ?_⟩
    split
    · exact hw _
    · split
      · exact hw _
      · exact hw _

theorem build_remembers {cfg : Config} {env : Env} {clock : Nat} {db : Db}
    (h : db.messages.Pairwise fun a b => ¬a.Clash b) : Remembers cfg (build cfg env clock db) := by
  obtain ⟨hm, ho⟩ := build_archive cfg env clock db
  refine ⟨hm ▸ h, fun room o m hg => ?_⟩
  rw [ho room] at hg
  cases hg

/-! ## The law -/

/-- Nothing of the server differs: no room, counter or map, no table, and nothing was sent. -/
structure Untouched (w w' : World) : Prop where
  rooms : ∀ name, w'.room? name = w.room? name
  hub : w'.hub = { w.hub with rooms := w'.hub.rooms }
  db : w'.db = w.db
  sent : w'.sent = w.sent

theorem Untouched.refl (w : World) : Untouched w w := ⟨fun _ => rfl, rfl, rfl, rfl⟩

/-- Entering a room that is there touches nothing. -/
theorem Untouched.enter {cfg : Config} {w : World} {room : String} (h : (w.room? room).isSome) :
    Untouched w (w.setRoom room (w.roomOr cfg room)) := by
  obtain ⟨r, hr⟩ := Option.isSome_iff_exists.mp h
  refine ⟨fun name => ?_, rfl, rfl, rfl⟩
  rw [World.room?_setRoom, World.roomOr_of_some hr]
  split
  · next hn => rw [hn, hr]
  · rfl

/-- What a run has answered and stored for operations. -/
structure RetryLaw (cfg : Config) (tr : List (HubInput × HubAnswer)) (s : Server) : Prop where
  /-- At most one row per room and operation. -/
  one : ∀ room o, (s.world.db.messages.filter fun r => r.room = room ∧ r.operation = some o).length ≤ 1
  /-- Every accepted post is answered with the archived message of its operation. -/
  stored : ∀ i q m o, (i, .posted q m) ∈ tr → q.operation = some o → Archived s.world.db q.room o m
  same : ∀ i q m j q' m' o, (i, .posted q m) ∈ tr → (j, .posted q' m') ∈ tr →
    q.operation = some o → q'.operation = some o → q.room = q'.room → m.core = m'.core
  /-- No step removes or changes a stored message. -/
  kept : ∀ i, s.world.db.messages <+: (s.step cfg i).2.world.db.messages
  /-- A post that is accepted for an operation the archive has touches nothing. -/
  replay : ∀ i q m o, (s.step cfg i).1 = .posted q m → q.operation = some o →
    (∃ row ∈ s.world.db.messages, row.room = q.room ∧ row.operation = some o) →
    Untouched s.world (s.step cfg i).2.world

theorem Remembers.one {cfg : Config} {w : World} (h : Remembers cfg w) (room : String) (o : Operation) :
    (w.db.messages.filter fun r => r.room = room ∧ r.operation = some o).length ≤ 1 := by
  have hsub := h.unique.sublist (List.filter_sublist (p := fun r => r.room = room ∧ r.operation = some o))
  have hall : ∀ r ∈ w.db.messages.filter fun r => r.room = room ∧ r.operation = some o,
      r.room = room ∧ r.operation = some o := fun r hr => by simpa using (List.mem_filter.mp hr).2
  generalize (w.db.messages.filter fun r => r.room = room ∧ r.operation = some o) = l at hsub hall
  match l with
  | [] => exact Nat.zero_le 1
  | [_] => exact le_refl 1
  | a :: b :: rest =>
      obtain ⟨hra, hoa⟩ := hall a List.mem_cons_self
      obtain ⟨hrb, hob⟩ := hall b (List.mem_cons_of_mem _ List.mem_cons_self)
      refine absurd ?_ ((List.pairwise_cons.mp hsub).1 b List.mem_cons_self)
      exact ⟨by simp [hoa], hra.trans hrb.symm, hoa.trans hob.symm⟩

section Law

variable {cfg : Config} (hp : cfg.persistent = true)
include hp

/-- One step keeps the law and the archive, and every accepted post is archived. -/
theorem step_remembers (s : Server) (i : HubInput) (h : Remembers cfg s.world) :
    Remembers cfg (s.step cfg i).2.world ∧
    (s.world.db.messages <+: (s.step cfg i).2.world.db.messages) ∧
    ∀ q m o, (s.step cfg i).1 = .posted q m → q.operation = some o →
      Archived (s.step cfg i).2.world.db q.room o m := by
  have hposted : ∀ q m o, (s.step cfg i).1 = .posted q m → q.operation = some o →
      Archived (s.step cfg i).2.world.db q.room o m := by
    intro q m o ha ho
    rcases serverStep_posted ha with ⟨env, rfl, hl, hs⟩ | ⟨env, k, attachments, rfl, -, hm, hw⟩
    · rw [hs]
      simp only [lookUp, bind_ok, require_ok, pure_ok, exists_const, ho, Option.bind_some,
        messageByOperation, Option.map_eq_some_iff] at hl
      obtain ⟨-, -, row, hrow, rfl⟩ := hl
      have hkey := List.find?_some hrow
      simp only [Bool.and_eq_true, decide_eq_true_eq] at hkey
      exact ⟨row, List.mem_of_find?_eq_some hrow, hkey.1, hkey.2, rfl⟩
    · rw [hw]
      exact (postLocked_remembers hp q attachments h).2.2.1 m o hm ho
  rcases serverStep_world cfg s i with hs | ⟨env, c, -, hs⟩ | ⟨env, k, q, attachments, posts, -, -, hs⟩ |
    ⟨env, clock, -, hs⟩
  · refine ⟨hs ▸ h, ?_, hposted⟩
    exact (congrArg (fun w : World => w.db.messages) hs).symm ▸ List.prefix_rfl
  · have hq := @call_quiet cfg env hp c s.world
    refine ⟨by rw [hs]; exact h.quiet hq, ?_, hposted⟩
    obtain ⟨rows, hm, -⟩ := hq.archive
    rw [hs]
    exact ⟨rows, hm.symm⟩
  · obtain ⟨hr, hpre, -, -⟩ := @postLocked_remembers cfg env hp s.world q attachments h
    exact ⟨by rw [hs]; exact hr, by rw [hs]; exact hpre, hposted⟩
  · have hm := (build_archive cfg env clock s.world.db).1
    have hb := @build_remembers cfg env clock s.world.db h.unique
    refine ⟨by rw [hs]; exact ⟨hb.unique, hb.window⟩, ?_, hposted⟩
    rw [hs]
    show _ <+: (build cfg env clock s.world.db).db.messages
    exact hm.symm ▸ List.prefix_rfl

/-- Accepting a post for an archived operation touches nothing. -/
theorem step_replay {s : Server} {i : HubInput} {q : PostRequest} {m : Message} {o : Operation}
    (h : Remembers cfg s.world) (ha : (s.step cfg i).1 = .posted q m) (ho : q.operation = some o)
    (hrow : ∃ row ∈ s.world.db.messages, row.room = q.room ∧ row.operation = some o) :
    Untouched s.world (s.step cfg i).2.world := by
  rcases serverStep_posted ha with ⟨env, -, -, hs⟩ | ⟨env, k, attachments, -, -, hm, hw⟩
  · rw [hs]
    exact .refl _
  · obtain ⟨heq, hroom⟩ := (postLocked_remembers hp q attachments h).2.2.2 m o hm ho hrow
    rw [hw, heq]
    exact .enter hroom

/-- Along every run, however posts, retries, other calls and restarts are interleaved. -/
theorem retried_post {tr : List (HubInput × HubAnswer)} {s : Server}
    (r : Sys.Run (hubMachine cfg) anyHubInput tr s) : RetryLaw cfg tr s := by
  have hinv : Remembers cfg s.world ∧ ∀ i q m o, (i, HubAnswer.posted q m) ∈ tr →
      q.operation = some o → Archived s.world.db q.room o m := by
    refine Sys.Run.induction (P := fun tr s => Remembers cfg s.world ∧
      ∀ i q m o, (i, HubAnswer.posted q m) ∈ tr → q.operation = some o →
        Archived s.world.db q.room o m) ?_ ?_ r
    · rintro s ⟨env, clock, rfl⟩
      exact ⟨build_remembers List.Pairwise.nil, by simp⟩
    · intro tr s i _ ⟨hrem, htr⟩ _
      obtain ⟨hrem', ⟨rows, hrows⟩, hposted⟩ := step_remembers hp s i hrem
      refine ⟨hrem', fun j q m o hj ho => ?_⟩
      rcases List.mem_cons.mp hj with hj | hj
      · exact hposted q m o (congrArg Prod.snd hj).symm ho
      · exact (htr j q m o hj ho).mono hrows.symm
  obtain ⟨hrem, hstored⟩ := hinv
  refine ⟨hrem.one, hstored, ?_, fun i => (step_remembers hp s i hrem).2.1,
    fun i q m o ha ho hrow => step_replay hp hrem ha ho hrow⟩
  intro i q m j q' m' o hi hj ho ho' hroom
  exact hrem.same (hstored i q m o hi ho) (hroom ▸ hstored j q' m' o hj ho')

end Law

/-- A post, its retry while the server is up, a restart, and another retry. -/
def retryInputs : List HubInput :=
  let env := sampleEnv 1000 fun _ => false
  [.post env samplePost, .post env samplePost, .advance env 0, .advance env 0, .advance env 0,
    .advance env 0, .restart env 1000, .post env samplePost]

def sampleServer : Server := ⟨build sampleConfig (sampleEnv 1000 fun _ => false) 1000 {}, []⟩

theorem sampleServer_run (is : List HubInput) :
    Sys.Run (hubMachine sampleConfig) anyHubInput ((hubMachine sampleConfig).exec is [] sampleServer).1
      ((hubMachine sampleConfig).exec is [] sampleServer).2 :=
  Sys.Run.exec is (Sys.Machine.admits_of_all (fun _ _ => trivial) is _) (.nil ⟨_, _, rfl⟩)

/-- All three copies are answered with one message. -/
theorem retried_post_sample :
    ((hubMachine sampleConfig).exec retryInputs [] sampleServer).1.map Prod.snd =
      [.posted samplePost (samplePost.message [] none 1 1000), .done,
        .posted samplePost (samplePost.message [] none 1 1000), .pending,
        .posted samplePost (samplePost.message [] none 1 1000), .pending, .pending, .pending] ∧
    RetryLaw sampleConfig ((hubMachine sampleConfig).exec retryInputs [] sampleServer).1
      ((hubMachine sampleConfig).exec retryInputs [] sampleServer).2 :=
  ⟨by decide +kernel, retried_post rfl (sampleServer_run retryInputs)⟩

/-! ## An empty operation id

It counts as none, so nothing ties two such posts together. -/

/-- The same post under an empty operation id. -/
def blankPost : PostRequest := { samplePost with body := { samplePost.body with opId := some "" } }

def blankInputs : List HubInput :=
  let env := sampleEnv 1000 fun _ => false
  [.post env blankPost, .advance env 0, .advance env 0, .post env blankPost, .advance env 0,
    .advance env 0]

/-- The message of `blankPost`, by id and time. -/
def blankMessage (id ts : Nat) : Message := blankPost.message [] none id ts

theorem blankInputs_answers :
    ((hubMachine sampleConfig).exec blankInputs [] sampleServer).1.map Prod.snd =
      [.posted blankPost (blankMessage 2 1001), .pending, .pending,
        .posted blankPost (blankMessage 1 1000), .pending, .pending] := by
  decide +kernel

theorem blank_op_id_is_not_idempotent :
    ¬ ∀ tr s, Sys.Run (hubMachine sampleConfig) anyHubInput tr s →
      ∀ i q m j q' m', (i, HubAnswer.posted q m) ∈ tr → (j, HubAnswer.posted q' m') ∈ tr →
        q.room = q'.room → q.principal = q'.principal → q.body.opId = q'.body.opId →
        q.body.opId.isSome → m.core = m'.core := by
  intro h
  have hmem : ∀ a ∈ [HubAnswer.posted blankPost (blankMessage 1 1000),
      .posted blankPost (blankMessage 2 1001)], ∃ i,
      (i, a) ∈ ((hubMachine sampleConfig).exec blankInputs [] sampleServer).1 := by
    intro a ha
    have hanswer : a ∈ ((hubMachine sampleConfig).exec blankInputs [] sampleServer).1.map Prod.snd := by
      rw [blankInputs_answers]
      revert a
      decide
    obtain ⟨⟨i, a'⟩, hi, rfl⟩ := List.mem_map.mp hanswer
    exact ⟨i, hi⟩
  obtain ⟨i, hi⟩ := hmem _ List.mem_cons_self
  obtain ⟨j, hj⟩ := hmem _ (List.mem_cons_of_mem _ List.mem_cons_self)
  have hsame := h _ _ (sampleServer_run blankInputs) i _ _ j _ _ hi hj rfl rfl rfl rfl
  exact absurd hsame (by decide)

end Loca
