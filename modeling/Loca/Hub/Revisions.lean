/-
# `Loca.Hub.Revisions` — the numbers of a room's notes

Every write of a note takes the room's next revision number.  The counter lives in memory;
a start computes it again, from the notes that are stored at that moment.  Revisions that were
replaced are archived in a table of their own, which the start does not look at, so a number
comes back when the note that carried the latest one was deleted before the start.

`Numbered` is a step that is no such start, and `revisions_never_collide` is the law for runs
of such steps: the numbers given grow, no version is archived twice, and no write is refused
because of an archived version.
-/
import Loca.Hub.Reboot

namespace Loca

open Check Mirror Table

theorem Edits.self {cfg : Config} {room : String} {r : Room} {db : Db} {w w' : World}
    (h : Edits cfg room r db w w') : w'.roomOr cfg room = r := by
  rw [h.rooms, Function.update_self]

/-- What of a world the numbers of a room's notes depend on stays as it is. -/
structure Steady (cfg : Config) (room : String) (w w' : World) : Prop where
  notes : (w'.roomOr cfg room).notes = (w.roomOr cfg room).notes
  nextRev : (w'.roomOr cfg room).nextRev = (w.roomOr cfg room).nextRev
  archive : w'.db.noteRevisions.filter (fun r => r.room = room) =
    w.db.noteRevisions.filter fun r => r.room = room
  sealed : isSealed room w'.db = isSealed room w.db

namespace Steady

variable {cfg : Config} {room name : String} {w w' w'' : World} {r : Room} {db : Db}

theorem refl (cfg : Config) (room : String) (w : World) : Steady cfg room w w := ⟨rfl, rfl, rfl, rfl⟩

theorem trans (h : Steady cfg room w w') (h' : Steady cfg room w' w'') : Steady cfg room w w'' :=
  ⟨h'.notes.trans h.notes, h'.nextRev.trans h.nextRev, h'.archive.trans h.archive,
    h'.sealed.trans h.sealed⟩

theorem stays (h : Stays cfg w w') : Steady cfg room w w' := by
  refine ⟨?_, ?_, ?_, ?_⟩
  · rw [h.rooms]
  · rw [h.rooms]
  · rw [h.db]
  · rw [h.db]

/-- An edit of another room, or one that is not about notes. -/
theorem edits (h : Edits cfg name r db w w')
    (hn : r.notes = (w.roomOr cfg name).notes) (hv : r.nextRev = (w.roomOr cfg name).nextRev)
    (ha : db.noteRevisions = w.db.noteRevisions) (hs : ∀ n, isSealed n db = isSealed n w.db) :
    Steady cfg room w w' := by
  refine ⟨?_, ?_, ?_, ?_⟩
  · rw [h.rooms, Function.update_apply]
    split
    · next he => rw [hn, he]
    · rfl
  · rw [h.rooms, Function.update_apply]
    split
    · next he => rw [hv, he]
    · rfl
  · rw [h.db, ha]
  · rw [h.db, hs]

theorem beside (h : Edits cfg name r db w w') (hne : name ≠ room) (hb : Beside room w.db db) :
    Steady cfg room w w' := by
  refine ⟨?_, ?_, ?_, ?_⟩
  · rw [h.rooms, Function.update_of_ne hne.symm]
  · rw [h.rooms, Function.update_of_ne hne.symm]
  · rw [h.db]; exact hb.revisions
  · rw [h.db]; exact hb.isSealed_eq

theorem reseats (h : Reseats cfg name w w') : Steady cfg room w w' := by
  obtain ⟨members, muted, banned, db, hc, he⟩ := h
  exact edits he rfl rfl hc.noteRevisions hc.isSealed

theorem saves {mode : ChatMode} {settings : RoomSettings} {clock : Nat} (h : Edits cfg name r db w w')
    (hdb : saveRoom name mode settings clock w.db = .ok db)
    (hn : r.notes = (w.roomOr cfg name).notes) (hv : r.nextRev = (w.roomOr cfg name).nextRev) :
    Steady cfg room w w' := by
  obtain ⟨-, rfl⟩ := saveRoom_ok hdb
  exact edits h hn hv rfl fun n => isSealed_roomRow n name mode settings w.db

theorem announces {m : Message} {mode : ChatMode} {settings : RoomSettings}
    (h : Edits cfg name r db w w')
    (hdb : insertMessageWithRoom m mode settings none w.db = .ok db)
    (hn : r.notes = (w.roomOr cfg name).notes) (hv : r.nextRev = (w.roomOr cfg name).nextRev) :
    Steady cfg room w w' := by
  simp only [insertMessageWithRoom, bind_ok] at hdb
  obtain ⟨db₁, h₁, h₂⟩ := hdb
  obtain ⟨-, -, refs, pending, rfl⟩ := writeMessage_ok h₂
  obtain ⟨-, rfl⟩ := writeRoomState_ok.mp h₁
  exact edits h hn hv rfl fun n => isSealed_roomRow n m.room mode settings w.db

end Steady

theorem Filed.steady {room : String} {r r' : Room} {db db' : Db} {signals : List CareSignal}
    (h : Filed room r db signals r' db') :
    r'.notes = r.notes ∧ r'.nextRev = r.nextRev ∧ db'.noteRevisions = db.noteRevisions ∧
      db'.rooms = db.rooms := by
  cases h <;> exact ⟨rfl, rfl, rfl, rfl⟩

/-! ## Steps that write no note of the room -/

/-- A write of one of the room's notes, or the end of the room. -/
def HubCall.Writes (room : String) : HubCall → Prop
  | .createNote name _ => name = room
  | .updateNote name _ _ _ => name = room
  | .deleteNote name _ => name = room
  | .deleteRoom name => name = room
  | _ => False

section Calls

variable {cfg : Config} {env : Env} (hp : cfg.persistent = true) {room : String}
include hp

theorem tickCare_steady (w : World) : Steady cfg room w (tickCare cfg env w) := by
  have hsweep : ∀ (acc : World × List (String × CareSignal)) name,
      Steady cfg room acc.1 (sweepRoom cfg env acc name).1 := by
    intro acc name
    rcases sweepRoom_spec hp acc name with h | ⟨r', db, signals, -, -, hf, -, he⟩
    · rw [h]; exact .refl cfg room acc.1
    · obtain ⟨hn, hv, ha, hr⟩ := hf.steady
      exact .edits he.edits hn hv ha fun n => by unfold isSealed; rw [hr]
  have hpublish : ∀ w p, Steady cfg room w (publishCareSignal cfg env w p) := by
    intro w p
    rcases @publishCareSignal_spec cfg env w p with ⟨h, -⟩ | h
    · exact .stays h
    · exact .edits h rfl rfl rfl fun _ => rfl
  exact (Sys.foldl_rel (R := fun a b => Steady cfg room a.1 b.1) (fun a => .refl cfg room a.1)
    (fun _ _ _ => .trans) hsweep _ (w, [])).trans
      (Sys.foldl_rel (.refl cfg room) (fun _ _ _ => .trans) hpublish _ _)

theorem call_steady (c : HubCall) (w : World) (hc : ¬c.Writes room) :
    Steady cfg room w (c.run cfg env w).2 := by
  cases c with
  | createTask name req =>
      rcases @createTask_spec cfg env hp name req w with h | ⟨t, -, h⟩
      · exact .stays h
      · exact .edits h rfl rfl rfl fun _ => rfl
  | updateTask name id req isOperator =>
      rcases @updateTask_spec cfg env hp name id req isOperator w with h | ⟨t, t', p, goal, -, -, -, h⟩
      · exact .stays h
      · obtain ⟨marks, atts, ht⟩ := putTask_eq name t' p (w.roomOr cfg name)
        rw [upsertTaskWithGoalProgress_eq] at h
        cases goal with
        | none => exact .edits h (by dsimp only; rw [ht]) (by dsimp only; rw [ht]) rfl fun _ => rfl
        | some g =>
            obtain ⟨marks', atts', hg⟩ := putGoal_eq name g true ((w.roomOr cfg name).putTask name t' p)
            exact .edits h (by dsimp only; rw [hg, ht]) (by dsimp only; rw [hg, ht]) rfl fun _ => rfl
  | createGoal name req =>
      rcases @createGoal_spec cfg env hp name req w with h | ⟨g, -, h⟩
      · exact .stays h
      · exact .edits h rfl rfl rfl fun _ => rfl
  | updateGoal name id req =>
      rcases @updateGoal_spec cfg env hp name id req w with h | ⟨g, g', p, -, -, h⟩
      · exact .stays h
      · obtain ⟨marks, atts, hg⟩ := putGoal_eq name g' p (w.roomOr cfg name)
        rw [upsertGoalWithCareReset_eq] at h
        exact .edits h (by rw [hg]) (by rw [hg]) rfl fun _ => rfl
  | setWait name req =>
      rcases @setWait_spec cfg env hp name req w with h | ⟨wait, -, -, h⟩
      · exact .stays h
      · obtain ⟨marks, atts, hw⟩ := putWait_eq name wait (w.roomOr cfg name)
        exact .edits h (by rw [hw]) (by rw [hw]) rfl fun _ => rfl
  | clearWait name waiter =>
      rcases @clearWait_spec cfg env hp name waiter w with h | h
      · exact .stays h
      · obtain ⟨marks, atts, hw⟩ := dropWait_eq name waiter env.now (w.roomOr cfg name)
        exact .edits h (by rw [hw]) (by rw [hw]) rfl fun _ => rfl
  | setLead name lead actor =>
      rcases @setLead_spec cfg env hp name lead actor w with h | ⟨m, s, db, -, hm, -, -, hdb, h⟩
      · exact .stays h
      · exact .announces h hdb rfl rfl
  | announceJoinRequest name kind =>
      obtain ⟨m, db, -, -, hdb, h⟩ := @announceJoinRequest_spec cfg env hp name kind w
      rcases hdb with rfl | hdb
      · exact .edits h rfl rfl rfl fun _ => rfl
      · exact .announces h hdb rfl rfl
  | setMode name mode clock =>
      rcases @setMode_spec cfg env hp name mode clock w with h | ⟨db, -, hdb, h⟩
      · exact .stays h
      · exact .saves h hdb rfl rfl
  | setSettings name req clock =>
      rcases @setSettings_spec cfg env hp name req clock w with h | ⟨db, -, hdb, h⟩
      · exact .stays h
      · exact .saves h hdb rfl rfl
  | expireLive clock =>
      refine Sys.foldl_rel (.refl cfg room) (fun _ _ _ => .trans) (fun w n => ?_) _ w
      rcases @expireLiveRoom_spec cfg env hp clock n w with h | ⟨s, db, -, -, hdb, h⟩
      · exact .stays h
      · exact .saves h hdb rfl rfl
  | createNote name req =>
      rcases @createNote_spec cfg env hp name req w with h | ⟨note, -, -, h⟩
      · exact .stays h
      · exact .beside h hc (.of_apart (apart_upsertNote hc) rfl rfl)
  | updateNote name key req isOperator =>
      rcases @updateNote_spec cfg env hp name key req isOperator w with h | ⟨n, n', db, -, -, hdb, h⟩
      · exact .stays h
      · exact .beside h hc (beside_replaceNote hc hdb)
  | deleteNote name key =>
      rcases @deleteNote_spec cfg env hp name key w with h | h
      · exact .stays h
      · exact .beside h hc (.of_apart (apart_deleteNoteRow hc) rfl rfl)
  | appendJournal name entryBy byType text =>
      rcases @appendJournal_spec cfg env hp name entryBy byType text w with h | ⟨e, db, -, -, hdb, h⟩
      · exact .stays h
      · simp only [appendJournalRow, bind_ok, pure_ok] at hdb
        obtain ⟨journal, -, rfl⟩ := hdb
        exact .edits h rfl rfl rfl fun _ => rfl
  | createAttention name req =>
      rcases @createAttention_spec cfg env hp name req w with h | ⟨s, o, ps, db, a, -, -, rfl, -, h⟩
      · exact .stays h
      · exact .edits h rfl rfl rfl fun _ => rfl
  | claimAttention name id actor =>
      rcases @claimAttention_spec cfg env hp name id actor w with h | ⟨a, -, -, -, h⟩
      · exact .stays h
      · exact .edits h rfl rfl rfl fun _ => rfl
  | resolveAttention name id actor principal isOperator =>
      rcases @resolveAttention_spec cfg env hp name id actor principal isOperator w with
        h | ⟨a, -, -, -, h⟩
      · exact .stays h
      · exact .edits h rfl rfl rfl fun _ => rfl
  | ackCare signalId owner principal =>
      rcases @ackCare_spec cfg env hp signalId owner principal w with
        h | ⟨db, rfl, hr, hdb⟩ | ⟨name, id, a, -, h⟩
      · exact .stays h
      · refine ⟨congrArg (fun f => (f room).notes) hr, congrArg (fun f => (f room).nextRev) hr, ?_, ?_⟩
        · exact congrArg (fun db : Db => db.noteRevisions.filter fun r => r.room = room) hdb
        · exact (congrArg (isSealed room) hdb).trans rfl
      · exact .edits h rfl rfl rfl fun _ => rfl
  | tickCare => exact tickCare_steady hp w
  | createLoca name actor clock =>
      rcases @createLoca_spec cfg env hp name actor clock w with h | ⟨db, -, -, hdb, hr, hsame⟩
      · exact .stays h
      · have hdb' : db.noteRevisions = w.db.noteRevisions ∧ isSealed room db = isSealed room w.db := by
          rcases hdb with hdb | hdb
          · obtain ⟨-, rfl⟩ := writeRoomState_ok.mp hdb
            exact ⟨rfl, isSealed_roomRow room name _ _ w.db⟩
          · obtain ⟨-, rfl⟩ := saveRoom_ok hdb
            exact ⟨rfl, isSealed_roomRow room name _ _ w.db⟩
        refine ⟨congrArg (fun f => (f room).notes) hr, congrArg (fun f => (f room).nextRev) hr, ?_, ?_⟩
        · exact congrArg (List.filter fun r : NoteRevisionRow => r.room = room)
            (hsame.noteRevisions.trans hdb'.1)
        · exact (hsame.isSealed room).trans hdb'.2
  | deleteRoom name =>
      rcases @deleteRoom_spec cfg env hp name w with h | ⟨-, -, h⟩
      · exact .stays h
      · exact .beside h hc (beside_sealRoom hc)
  | subscribe name => exact .stays (subscribe_spec name w)
  | join name identity label kind session => exact .reseats (join_spec name identity label kind session w)
  | leave name identity => exact .reseats (leave_spec name identity w)
  | admitMember name kind admittedBy => exact .reseats (admitMember_spec hp "" name kind admittedBy w)
  | inviteMemberToRoom member name issuedBy =>
      exact .reseats (inviteMemberToRoom_spec hp member name issuedBy w)
  | revokeDavet token => exact .reseats (revokeDavet_spec hp "" token w)
  | revokeMember token => exact .reseats (revokeMember_spec hp "" token w)
  | moderate name action who => exact .reseats (moderate_spec hp name action who w)
  | outside db => exact ⟨rfl, rfl, rfl, rfl⟩

theorem postLocked_steady (q : PostRequest) (attachments : List Attachment) (w : World) :
    Steady cfg room w (postLocked cfg env q attachments w).2 := by
  rcases @postLocked_spec cfg env hp q attachments w with ⟨m, -, hl⟩ | ⟨e, times, -, he⟩ |
    ⟨author, r, d, db, hr, hd, hdb, -, -, -, he⟩
  · rw [hl]
    exact .stays (.enter cfg q.room w)
  · exact .edits he rfl rfl rfl fun _ => rfl
  · have hroom : d.msg.room = q.room := by rw [hd]; rfl
    obtain ⟨times, hexp⟩ := expireStamps_eq q env.now (w.roomOr cfg q.room)
    have hkept : (d.mirror env q db r).kept = (d.heard env q r).kept := by
      obtain ⟨marks, atts, hm⟩ := @mirror_eq env q db d r
      have hcare : ∀ y : Room, { y with careMarks := marks, attentions := atts }.kept = y.kept :=
        fun _ => rfl
      rw [hm, hcare]
    rw [heard_kept] at hkept
    have hkeep : r.notes = (w.roomOr cfg q.room).notes ∧
        r.nextRev = (w.roomOr cfg q.room).nextRev := by
      rw [hr, hexp]
      exact ⟨rfl, rfl⟩
    have hnotes : (d.mirror env q db r).notes = r.notes := congrArg Prod.fst hkept
    have hrev : (d.mirror env q db r).nextRev = r.nextRev := congrArg (fun x => x.2.1) hkept
    obtain ⟨-, -, -, refs, pending, rfl⟩ := persist_ok hroom hdb
    refine .edits he (hnotes.trans hkeep.1) (hrev.trans hkeep.2) rfl fun n => ?_
    show (d.roomRows q r w.db.rooms).any _ = _
    unfold PostDraft.roomRows
    cases d.moved with
    | none => rfl
    | some mode => exact isSealed_roomRow n q.room mode r.settings w.db

end Calls

/-! ## Steps that write a note of the room -/

/-- The archive of a room, its notes and its counter fit together. -/
structure Revised (cfg : Config) (room : String) (w : World) : Prop where
  sealed : isSealed room w.db = false
  below : ∀ row ∈ w.db.noteRevisions, row.room = room → row.rev < (w.roomOr cfg room).nextRev
  /-- A note is newer than its archived versions. -/
  older : ∀ row ∈ w.db.noteRevisions, row.room = room →
    ∀ n, (w.roomOr cfg room).notes.get row.key = some n → row.rev < n.rev
  unique : ((w.db.noteRevisions.filter fun row => row.room = room).map
    fun row => (row.key, row.rev)).Nodup

theorem Revised.steady {cfg : Config} {room : String} {w w' : World} (h : Revised cfg room w)
    (hs : Steady cfg room w w') : Revised cfg room w' := by
  have hrow : ∀ row ∈ w'.db.noteRevisions, row.room = room → row ∈ w.db.noteRevisions := by
    intro row hr hroom
    have hmem : row ∈ w'.db.noteRevisions.filter fun r => r.room = room :=
      List.mem_filter.mpr ⟨hr, by simpa using hroom⟩
    rw [hs.archive] at hmem
    exact (List.mem_filter.mp hmem).1
  refine ⟨hs.sealed.trans h.sealed, ?_, ?_, hs.archive ▸ h.unique⟩
  · intro row hr hroom
    rw [hs.nextRev]
    exact h.below row (hrow row hr hroom) hroom
  · intro row hr hroom n hn
    rw [hs.notes] at hn
    exact h.older row (hrow row hr hroom) hroom n hn

section Notes

variable {cfg : Config} {env : Env} (hp : cfg.persistent = true) {room : String} {w : World}
include hp

theorem createNote_revised (req : CreateNote) (h : Revised cfg room w) :
    Revised cfg room (createNote cfg env room req w).2 := by
  rcases @createNote_spec cfg env hp room req w with hs | ⟨note, -, hrev, he⟩
  · exact h.steady (.stays hs)
  · have hroom := he.self
    refine ⟨?_, ?_, ?_, ?_⟩
    · rw [he.db]
      exact h.sealed
    · intro row hr hn
      rw [he.db] at hr
      rw [hroom]
      have hlt := h.below row hr hn
      show row.rev < note.rev + 1
      omega
    · intro row hr hn n hget
      rw [he.db] at hr
      rw [hroom] at hget
      rw [Assoc.get_put] at hget
      split at hget
      · cases hget
        rw [hrev]
        exact h.below row hr hn
      · exact h.older row hr hn n hget
    · rw [he.db]
      exact h.unique

omit hp in
/-- The row an update archives is none of those that are there. -/
theorem Revised.unarchived {key : String} {previous : Note} (h : Revised cfg room w)
    (hn : (w.roomOr cfg room).notes.get key = some previous) (hkey : previous.key = key) :
    ∀ row ∈ w.db.noteRevisions, (row.room, row.key, row.rev) ≠ (room, previous.key, previous.rev) := by
  intro row hr heq
  simp only [Prod.mk.injEq] at heq
  obtain ⟨hroom, hk, hrev⟩ := heq
  have hlt := h.older row hr hroom previous (by rw [hk, hkey]; exact hn)
  omega

omit hp in
theorem Synced.note_key {r : Room} {db : Db} {key : String} {n : Note} (h : Synced cfg room r db)
    (hn : r.notes.get key = some n) : n.key = key := by
  obtain ⟨row, -, hk, rfl⟩ := (h.notes.same key n).mp hn
  exact hk

theorem updateNote_revised (key : String) (req : UpdateNote) (isOperator : Bool)
    (hsync : Synced cfg room (w.roomOr cfg room) w.db) (h : Revised cfg room w) :
    Revised cfg room (updateNote cfg env room key req isOperator w).2 := by
  rcases @updateNote_spec cfg env hp room key req isOperator w with hs |
    ⟨previous, updated, db, hn, hu, hdb, he⟩
  · exact h.steady (.stays hs)
  · have hkey : previous.key = key := hsync.note_key hn
    have hlt : previous.rev < (w.roomOr cfg room).nextRev := hsync.revs key previous hn
    have hrev : updated.rev = (w.roomOr cfg room).nextRev := by rw [hu]; rfl
    simp only [replaceNote, bind_ok, found_ok, pure_ok] at hdb
    obtain ⟨rows, hrows, rfl⟩ := hdb
    obtain ⟨hnew, rfl⟩ := insertNew_eq_some.mp hrows
    have hroom := he.self
    have hbelow : ∀ row ∈ (updateNote cfg env room key req isOperator w).2.db.noteRevisions,
        row.room = room → row.rev < (w.roomOr cfg room).nextRev := by
      intro row hr hn
      rw [he.db] at hr
      rcases List.mem_append.mp hr with hr | hr
      · exact h.below row hr hn
      · rw [List.mem_singleton.mp hr]
        exact hlt
    refine ⟨?_, ?_, ?_, ?_⟩
    · rw [he.db]
      exact h.sealed
    · intro row hr hn
      rw [hroom]
      exact Nat.lt_succ_of_lt (hbelow row hr hn)
    · intro row hr hn' n hget
      rw [hroom] at hget
      rw [Assoc.get_put] at hget
      split at hget
      · cases hget
        rw [hrev]
        exact hbelow row hr hn'
      · next hne =>
        rw [he.db] at hr
        rcases List.mem_append.mp hr with hr | hr
        · exact h.older row hr hn' n hget
        · rw [List.mem_singleton.mp hr] at hne
          exact absurd hkey hne
    · rw [he.db]
      show ((w.db.noteRevisions ++ [_]).filter _ |>.map _).Nodup
      rw [List.filter_append, List.map_append, List.nodup_append]
      refine ⟨h.unique, ?_, ?_⟩
      · simp
      · intro a ha b hb hab
        obtain ⟨row, hrow, rfl⟩ := List.mem_map.mp ha
        obtain ⟨hrow, hn'⟩ := List.mem_filter.mp hrow
        have hb' : b = (previous.key, previous.rev) := by simpa using hb
        rw [hb', Prod.mk.injEq] at hab
        refine hnew row hrow ?_
        simp only [Prod.mk.injEq]
        exact ⟨by simpa using hn', hab⟩

theorem deleteNote_revised (key : String) (h : Revised cfg room w) :
    Revised cfg room (deleteNote cfg env room key w).2 := by
  rcases @deleteNote_spec cfg env hp room key w with hs | he
  · exact h.steady (.stays hs)
  · have hroom := he.self
    refine ⟨?_, ?_, ?_, ?_⟩
    · rw [he.db]
      exact h.sealed
    · intro row hr hn
      rw [he.db] at hr
      rw [hroom]
      exact h.below row hr hn
    · intro row hr hn n hget
      rw [he.db] at hr
      rw [hroom] at hget
      rw [Assoc.get_del] at hget
      split at hget
      · cases hget
      · exact h.older row hr hn n hget
    · rw [he.db]
      exact h.unique

end Notes

/-! ## Restarts -/

section Start

variable {cfg : Config} {env : Env} {clock : Nat} {db : Db} {room : String}

theorem loadNotes_of_unknown (h : room ∉ knownRooms db) : loadNotes room db = [] := by
  have hnone : db.notes.filter (fun r => r.room = room) = [] := by
    refine List.filter_eq_nil_iff.mpr fun r hr hroom => h ?_
    have hmem := List.mem_map_of_mem (f := NoteRow.room) hr
    rw [show r.room = room by simpa using hroom] at hmem
    rw [knownRooms, List.mem_dedup, mem_orderBy]
    simp only [List.mem_append]
    tauto
  rw [loadNotes, hnone]
  rfl

/-- A start leaves the archive alone and counts on from the stored notes. -/
theorem build_counter (hsealed : isSealed room db = false) :
    (build cfg env clock db).db.noteRevisions = db.noteRevisions ∧
      ((build cfg env clock db).roomOr cfg room).nextRev =
        maxOf ((loadNotes room db).map Note.rev) + 1 := by
  have hset : ∀ {w : World} {n : String} {r : Room} {k : Nat}, (w.roomOr cfg room).nextRev = k →
      (n = room → r.nextRev = k) → ((w.setRoom n r).roomOr cfg room).nextRev = k := by
    intro w n r k hw hr
    rw [World.roomOr_setRoom, Function.update_apply]
    split
    · next hn => exact hr hn.symm
    · exact hw
  refine build_rule (P := fun w => w.db.noteRevisions = db.noteRevisions ∧
    (w.roomOr cfg room).nextRev = maxOf ((loadNotes room db).map Note.rev) + 1) ?_ ?_ ?_ ?_ ?_
  · intro db₀ hc
    have hnotes : loadNotes room db₀ = loadNotes room db := by
      unfold loadNotes
      rw [hc.notes]
    refine ⟨hc.noteRevisions, ?_⟩
    unfold World.roomOr
    rw [room?_restored]
    split
    · rw [← hnotes]
      rfl
    · next hl =>
      have hunknown : room ∉ knownRooms db₀ := fun hk => hl (List.mem_filter.mpr ⟨hk, by
        have hns : room ∉ sealedRooms db₀ := fun hm => by
          rw [mem_sealedRooms, hc.isSealed, hsealed] at hm
          cases hm
        simpa using hns⟩)
      rw [← hnotes, loadNotes_of_unknown hunknown]
      rfl
  · rintro w n ⟨ha, hw⟩
    rcases migrateOperator_spec env clock w n with ⟨hr, hc⟩ | ⟨r, st, db₁, db₂, hr, -, hc, hdb, he⟩
    · rw [World.roomOr_of_rooms hr]
      exact ⟨hc.noteRevisions.trans ha, hw⟩
    · obtain ⟨-, rfl⟩ := saveRoom_ok hdb
      rw [he]
      refine ⟨hc.noteRevisions.trans ha, hset hw ?_⟩
      rintro rfl
      rwa [World.roomOr_of_some hr] at hw
  · rintro w w' ⟨ha, hw⟩ hr hc
    rw [World.roomOr_of_rooms hr]
    exact ⟨hc.noteRevisions.trans ha, hw⟩
  · rintro w ⟨ha, hw⟩
    refine ⟨ha, hset hw ?_⟩
    rintro rfl
    split <;> exact hw
  · rintro w b - ⟨ha, hw⟩
    refine ⟨ha, hset hw ?_⟩
    rintro rfl
    split
    · exact hw
    · split <;> exact hw

end Start

/-- A step after which the counter is past every number given: the room is not ended, and when
the server restarts, no number was given yet or the note with the latest one is stored. -/
def Numbered (cfg : Config) (room : String) (s : Server) : HubInput → Prop
  | .call _ (.deleteRoom name) => name ≠ room
  | .restart _ _ => (s.world.roomOr cfg room).nextRev = 1 ∨
      ∃ row ∈ s.world.db.notes, row.room = room ∧ row.note.rev + 1 = (s.world.roomOr cfg room).nextRev
  | _ => True

theorem restart_nextRev {cfg : Config} {env : Env} {clock : Nat} {room : String} {s : Server}
    (hsync : Synced cfg room (s.world.roomOr cfg room) s.world.db)
    (hsealed : isSealed room s.world.db = false) (hnum : Numbered cfg room s (.restart env clock)) :
    ((build cfg env clock s.world.db).roomOr cfg room).nextRev = (s.world.roomOr cfg room).nextRev := by
  rw [(build_counter hsealed).2]
  have hbelow : ∀ n ∈ loadNotes room s.world.db, n.rev < (s.world.roomOr cfg room).nextRev := by
    intro n hn
    obtain ⟨row, hrow, rfl⟩ := List.mem_map.mp hn
    exact hsync.revs row.note.key row.note ((hsync.notes.same _ _).mpr ⟨row, hrow, rfl, rfl⟩)
  have hmax : ∀ l : List Note, (∀ n ∈ l, n.rev < (s.world.roomOr cfg room).nextRev) →
      maxOf (l.map Note.rev) < (s.world.roomOr cfg room).nextRev ∨ l = [] := by
    intro l hl
    induction l with
    | nil => exact .inr rfl
    | cons n l ih =>
        have hn := hl n List.mem_cons_self
        left
        show max n.rev (maxOf (l.map Note.rev)) < _
        rcases ih fun m hm => hl m (List.mem_cons_of_mem n hm) with h | rfl
        · exact max_lt hn h
        · exact max_lt hn (lt_of_le_of_lt (Nat.zero_le _) hn)
  rcases hnum with hone | ⟨row, hrow, hroom, hrev⟩
  · rcases hmax _ hbelow with h | h
    · omega
    · rw [h, hone]
      rfl
  · have hmem : row.note ∈ loadNotes room s.world.db :=
      List.mem_map_of_mem (List.mem_filter.mpr ⟨hrow, by simpa using hroom⟩)
    have hle := le_maxOf (List.mem_map_of_mem (f := Note.rev) hmem)
    rcases hmax _ hbelow with h | h
    · omega
    · rw [h] at hmem
      cases hmem

theorem Revised.restart {cfg : Config} {env : Env} {clock : Nat} {room : String} {s : Server}
    (h : Revised cfg room s.world) (hagreed : Agreed cfg s.world)
    (hnum : Numbered cfg room s (.restart env clock)) :
    Revised cfg room (Loca.restart cfg env clock s.world) := by
  have hsync := hagreed room h.sealed
  obtain ⟨hrows, -⟩ := @build_counter cfg env clock s.world.db room h.sealed
  obtain ⟨hcontent, hseals⟩ := build_content cfg env clock s.world.db
  have hnotes : (build cfg env clock s.world.db).db.notes = s.world.db.notes := congrArg Prod.fst hcontent
  have hafter := build_agreed env clock (fun n hn => ⟨_, hagreed n hn⟩) room
    ((hseals room).trans h.sealed)
  have hget := hsync.notes.get_eq (hnotes ▸ hafter.notes)
  have hrev := restart_nextRev hsync h.sealed hnum
  refine ⟨(hseals room).trans h.sealed, ?_, ?_, ?_⟩
  · intro row hr hroom
    show row.rev < ((build cfg env clock s.world.db).roomOr cfg room).nextRev
    rw [hrev]
    exact h.below row (hrows ▸ hr) hroom
  · intro row hr hroom n hn
    exact h.older row (hrows ▸ hr) hroom n ((hget row.key).symm.trans hn)
  · exact hrows.symm ▸ h.unique

/-! ## Runs -/

/-- The number a step gave to a note of the room. -/
def HubAnswer.revisionIn (room : String) : HubAnswer → Option Nat
  | .note name n => if name = room then some n.rev else none
  | _ => none

/-- Every number given in a room, the latest first. -/
def given (room : String) (tr : List (HubInput × HubAnswer)) : List Nat :=
  tr.filterMap fun e => e.2.revisionIn room

structure RevisionLaw (cfg : Config) (room : String) (tr : List (HubInput × HubAnswer)) (w : World) :
    Prop where
  increasing : (given room tr).Pairwise fun later earlier => earlier < later
  archivedOnce : ((w.db.noteRevisions.filter fun row => row.room = room).map
    fun row => (row.key, row.rev)).Nodup
  /-- A write that the store does not fail by itself is not refused by the archive. -/
  accepted : ∀ env : Env, env.fails .write = false →
    (∀ req, (createNote cfg env room req w).1 ≠ .error .storage) ∧
    ∀ key req isOperator, (updateNote cfg env room key req isOperator w).1 ≠ .error .storage

section Runs

variable {cfg : Config} (hp : cfg.persistent = true) {room : String}
include hp

theorem createNote_given {env : Env} {req : CreateNote} {w : World} {n : Note}
    (h : (createNote cfg env room req w).1 = .ok n) :
    n.rev = (w.roomOr cfg room).nextRev ∧
      ((createNote cfg env room req w).2.roomOr cfg room).nextRev = n.rev + 1 := by
  unfold createNote at h ⊢
  dsimp only at h ⊢
  split at h
  · cases h
  · next hnew =>
    rw [if_neg hnew]
    split at h
    · cases h
    · next w' hs =>
      cases h
      obtain rfl := World.store_total hp hs
      refine ⟨rfl, ?_⟩
      rw [World.roomOr_send, World.roomOr_setRoom, Function.update_self]

theorem updateNote_given {env : Env} {key : String} {req : UpdateNote} {isOperator : Bool} {w : World}
    {n : Note} (h : (updateNote cfg env room key req isOperator w).1 = .ok n) :
    n.rev = (w.roomOr cfg room).nextRev ∧
      ((updateNote cfg env room key req isOperator w).2.roomOr cfg room).nextRev = n.rev + 1 := by
  unfold updateNote at h ⊢
  split at h
  · cases h
  · next r hr =>
    rw [World.roomOr_of_some hr]
    dsimp only
    split at h
    · cases h
    · next previous hn =>
      dsimp only at h ⊢
      split at h
      · cases h
      · next w' hs =>
        cases h
        obtain ⟨db, -, rfl⟩ := World.store_ok hp hs
        refine ⟨rfl, ?_⟩
        rw [World.roomOr_send, World.roomOr_setRoom, Function.update_self]
        rfl

/-- A number is given by a write of a note, and it is the counter. -/
theorem call_given {env : Env} (c : HubCall) {w : World} {rev : Nat}
    (h : (c.run cfg env w).1.revisionIn room = some rev) :
    c.Writes room ∧ rev = (w.roomOr cfg room).nextRev ∧
      ((c.run cfg env w).2.roomOr cfg room).nextRev = rev + 1 := by
  have hother : ∀ {ε α : Type} {f : α → HubAnswer} {x : Except ε α × World},
      (∀ a, (f a).revisionIn room = none) → (answered f x).1.revisionIn room ≠ some rev := by
    intro ε α f x hf
    unfold answered
    cases x.1 with
    | error e => simp [HubAnswer.revisionIn]
    | ok a => simp [hf a]
  have hnote : ∀ {ε : Type} {name : String} {x : Except ε Note × World},
      (answered (.note name) x).1.revisionIn room = some rev → name = room ∧ ∃ n, x.1 = .ok n ∧
        n.rev = rev := by
    intro ε name x hx
    unfold answered at hx
    split at hx
    · next n hn =>
      simp only [HubAnswer.revisionIn, Option.ite_none_right_eq_some, Option.some.injEq] at hx
      exact ⟨hx.1, n, hn, hx.2⟩
    · cases hx
  cases c with
  | createNote name req =>
      obtain ⟨rfl, n, hn, rfl⟩ := hnote h
      exact ⟨rfl, createNote_given hp hn⟩
  | updateNote name key req isOperator =>
      obtain ⟨rfl, n, hn, rfl⟩ := hnote h
      exact ⟨rfl, updateNote_given hp hn⟩
  | announceJoinRequest name kind => cases h
  | expireLive clock => cases h
  | tickCare => cases h
  | subscribe name => cases h
  | join name identity label kind session => cases h
  | leave name identity => cases h
  | outside db => cases h
  | _ => exact absurd h (hother fun _ => rfl)

theorem call_revised {env : Env} (c : HubCall) {w : World} (hend : ∀ name, c = .deleteRoom name → name ≠ room)
    (hagreed : Agreed cfg w) (h : Revised cfg room w) : Revised cfg room (c.run cfg env w).2 := by
  by_cases hc : c.Writes room
  · cases c with
    | createNote name req =>
        obtain rfl : name = room := hc
        exact createNote_revised hp req h
    | updateNote name key req isOperator =>
        obtain rfl : name = room := hc
        exact updateNote_revised hp key req isOperator (hagreed name h.sealed) h
    | deleteNote name key =>
        obtain rfl : name = room := hc
        exact deleteNote_revised hp key h
    | deleteRoom name => exact absurd hc (hend name rfl)
    | _ => exact hc.elim
  · exact h.steady (call_steady hp c w hc)

/-- No call takes the counter back. -/
theorem call_nextRev {env : Env} (c : HubCall) {w : World}
    (hend : ∀ name, c = .deleteRoom name → name ≠ room) :
    (w.roomOr cfg room).nextRev ≤ ((c.run cfg env w).2.roomOr cfg room).nextRev := by
  by_cases hc : c.Writes room
  · cases c with
    | createNote name req =>
        obtain rfl : name = room := hc
        rcases @createNote_spec cfg env hp name req w with hs | ⟨note, -, hrev, he⟩
        · exact le_of_eq (congrArg (fun f => (f name).nextRev) hs.rooms).symm
        · refine le_trans ?_ (le_of_eq (congrArg Room.nextRev he.self).symm)
          exact le_trans (le_of_eq hrev.symm) (Nat.le_succ _)
    | updateNote name key req isOperator =>
        obtain rfl : name = room := hc
        rcases @updateNote_spec cfg env hp name key req isOperator w with hs | ⟨n, n', db, -, -, -, he⟩
        · exact le_of_eq (congrArg (fun f => (f name).nextRev) hs.rooms).symm
        · exact le_trans (Nat.le_succ _) (le_of_eq (congrArg Room.nextRev he.self).symm)
    | deleteNote name key =>
        obtain rfl : name = room := hc
        rcases @deleteNote_spec cfg env hp name key w with hs | he
        · exact le_of_eq (congrArg (fun f => (f name).nextRev) hs.rooms).symm
        · exact le_of_eq (congrArg Room.nextRev he.self).symm
    | deleteRoom name => exact absurd hc (hend name rfl)
    | _ => exact hc.elim
  · exact le_of_eq (call_steady hp c w hc).nextRev.symm

theorem Revised.accepted {w : World} (hsync : Synced cfg room (w.roomOr cfg room) w.db)
    (h : Revised cfg room w) {env : Env} (hw : env.fails .write = false) :
    (∀ req, (createNote cfg env room req w).1 ≠ .error .storage) ∧
    ∀ key req isOperator, (updateNote cfg env room key req isOperator w).1 ≠ .error .storage := by
  have hfail : ∀ tx db e, w.store cfg env .write tx = .error e → tx w.db ≠ .ok db := by
    intro tx db e he htx
    simp only [World.store, commit, hp, hw, if_true, Bool.false_eq_true, if_false, htx] at he
    cases he
  constructor
  · intro req
    unfold createNote
    dsimp only
    split
    · exact fun hn => by cases hn
    · split
      · next e he =>
        exact (hfail _ _ e he rfl).elim
      · exact fun hn => by cases hn
  · intro key req isOperator
    unfold updateNote
    split
    · exact fun hn => by cases hn
    · next r hr =>
      rw [World.roomOr_of_some hr] at hsync
      split
      · exact fun hn => by cases hn
      · next previous hn =>
        have hkey : previous.key = key := hsync.note_key hn
        have hnew := @Revised.unarchived _ _ _ key _ h (by rw [World.roomOr_of_some hr]; exact hn) hkey
        have hok : ∀ updated, ∃ db, replaceNote room previous updated w.db = .ok db := by
          intro updated
          simp only [replaceNote, bind_ok, found_ok, pure_ok]
          exact ⟨_, _, insertNew_eq_some.mpr ⟨hnew, rfl⟩, rfl⟩
        obtain ⟨db, hdb⟩ := hok (req.apply isOperator env.now r.nextRev previous)
        dsimp only
        split
        · next e he => exact absurd hdb (hfail _ db e he)
        · exact fun hn => by cases hn

omit hp in
/-- Only calls give numbers. -/
theorem serverStep_revisionIn (s : Server) {i : HubInput} (hi : ∀ env c, i ≠ .call env c) :
    (s.step cfg i).1.revisionIn room = none := by
  cases i with
  | call env c => exact absurd rfl (hi env c)
  | restart env clock => rfl
  | post env q =>
      simp only [Server.step]
      split <;> rfl
  | advance env k =>
      simp only [Server.step]
      split
      · rfl
      · next p _ =>
        cases p with
        | lookedUp q =>
            simp only [PostPhase.advance]
            split <;> rfl
        | cited q attachments =>
            simp only [PostPhase.advance, answered]
            split <;> rfl

/-- What a run keeps: the archive fits, and the numbers given are below the counter. -/
theorem run_revised {tr : List (HubInput × HubAnswer)} {s : Server}
    (hrun : Sys.Run (hubMachine cfg) (Numbered cfg room) tr s) :
    Revised cfg room s.world ∧ (∀ rev ∈ given room tr, rev < (s.world.roomOr cfg room).nextRev) ∧
      (given room tr).Pairwise fun later earlier => earlier < later := by
  refine Sys.Run.induction (P := fun tr s => Revised cfg room s.world ∧
    (∀ rev ∈ given room tr, rev < (s.world.roomOr cfg room).nextRev) ∧
      (given room tr).Pairwise fun later earlier => earlier < later) ?_ ?_ hrun
  · rintro s ⟨env, clock, rfl⟩
    have hsealed : isSealed room ({} : Db) = false := rfl
    have hrows : (build cfg env clock {}).db.noteRevisions = [] := (build_counter hsealed).1
    have hnone : ∀ row, row ∉ (build cfg env clock {}).db.noteRevisions := by simp [hrows]
    refine ⟨⟨((build_content cfg env clock {}).2 room).trans hsealed, ?_, ?_, ?_⟩, ?_, ?_⟩
    · exact fun row hr => absurd hr (hnone row)
    · exact fun row hr => absurd hr (hnone row)
    · show ((List.filter _ (build cfg env clock {}).db.noteRevisions).map _).Nodup
      rw [hrows]
      exact List.nodup_nil
    · exact fun rev hrev => by cases hrev
    · exact List.Pairwise.nil
  · rintro tr s i hr ⟨hrev, hbelow, hpair⟩ hok
    obtain ⟨-, hagreed⟩ := run_agreed hp hr
    -- a step that gives no number must only keep the archive and the counter
    have hquiet : ∀ (a : HubAnswer) (s' : Server), a.revisionIn room = none → Revised cfg room s'.world →
        (s.world.roomOr cfg room).nextRev ≤ (s'.world.roomOr cfg room).nextRev →
        Revised cfg room s'.world ∧
          (∀ rev ∈ given room ((i, a) :: tr), rev < (s'.world.roomOr cfg room).nextRev) ∧
          (given room ((i, a) :: tr)).Pairwise fun later earlier => earlier < later := by
      intro a s' ha hs' hle
      have hgiven : given room ((i, a) :: tr) = given room tr := List.filterMap_cons_none ha
      rw [hgiven]
      exact ⟨hs', fun rev hrev => (hbelow rev hrev).trans_le hle, hpair⟩
    have hstep : (hubMachine cfg).step s i = s.step cfg i := rfl
    rw [hstep]
    by_cases hi : ∃ env c, i = .call env c
    · obtain ⟨env, c, rfl⟩ := hi
      have hend : ∀ name, c = .deleteRoom name → name ≠ room := by
        rintro name rfl
        exact hok
      have hnext := @call_revised _ hp _ env c _ hend hagreed hrev
      cases ha : (c.run cfg env s.world).1.revisionIn room with
      | none => exact hquiet (c.run cfg env s.world).1 _ ha hnext (call_nextRev hp c hend)
      | some rev =>
          obtain ⟨-, hnew, hafter⟩ := call_given hp c ha
          have hgiven : given room ((.call env c, (c.run cfg env s.world).1) :: tr) =
              rev :: given room tr := List.filterMap_cons_some ha
          refine ⟨hnext, fun x hx => ?_, ?_⟩
          · have hx' : x ∈ rev :: given room tr := hgiven ▸ hx
            show x < ((c.run cfg env s.world).2.roomOr cfg room).nextRev
            rw [hafter]
            rcases List.mem_cons.mp hx' with rfl | hx'
            · exact Nat.lt_succ_self x
            · have := hbelow x hx'
              omega
          · refine hgiven ▸ List.pairwise_cons.mpr ⟨fun x hx => ?_, hpair⟩
            rw [hnew]
            exact hbelow x hx
    · have ha := @serverStep_revisionIn cfg room s _ fun env c he => hi ⟨env, c, he⟩
      rcases serverStep_world cfg s i with hs | ⟨env, c, hc, -⟩ | ⟨env, k, q, att, posts, rfl, -, hs⟩ |
        ⟨env, clock, rfl, hs⟩
      · exact hquiet _ _ ha (by rw [hs]; exact hrev) (by rw [hs])
      · exact absurd ⟨env, c, hc⟩ hi
      · have hsteady := @postLocked_steady cfg env hp room q att s.world
        rw [hs] at ha ⊢
        exact hquiet _ ⟨_, posts⟩ ha (hrev.steady hsteady) (le_of_eq hsteady.nextRev.symm)
      · have hsync := hagreed room hrev.sealed
        have hnext := restart_nextRev hsync hrev.sealed hok
        have hlaw := hrev.restart hagreed hok
        rw [hs] at ha ⊢
        exact hquiet _ ⟨_, []⟩ ha hlaw (le_of_eq hnext.symm)

/-- In every run whose restarts find the latest number stored: the numbers given grow, each
version is archived once, and no write is refused because of the archive. -/
theorem revisions_never_collide {tr : List (HubInput × HubAnswer)} {s : Server}
    (hrun : Sys.Run (hubMachine cfg) (Numbered cfg room) tr s) : RevisionLaw cfg room tr s.world := by
  obtain ⟨hrev, -, hpair⟩ := run_revised hp hrun
  obtain ⟨-, hagreed⟩ := run_agreed hp hrun
  exact ⟨hpair, hrev.unique, fun env hw => hrev.accepted hp (hagreed room hrev.sealed) hw⟩

end Runs

/-- Two notes; the one that is deleted does not carry the latest number. -/
def numberedInputs : List HubInput :=
  let env := sampleEnv 1000 fun _ => false
  [.call env (.createNote "den" ⟨"plan", "Plan", "walls", "ann", []⟩),
    .call env (.createNote "den" ⟨"list", "List", "paint", "ann", []⟩),
    .call env (.updateNote "den" "plan" ⟨none, some "roof", "bob", none⟩ false),
    .call env (.deleteNote "den" "list"),
    .restart env 1000,
    .call env (.updateNote "den" "plan" ⟨none, some "door", "ann", none⟩ false)]

theorem revisions_never_collide_sample :
    given "den" ((hubMachine sampleConfig).exec numberedInputs [] sampleServer).1 = [4, 3, 2, 1] ∧
      RevisionLaw sampleConfig "den" ((hubMachine sampleConfig).exec numberedInputs [] sampleServer).1
        ((hubMachine sampleConfig).exec numberedInputs [] sampleServer).2.world := by
  refine ⟨by decide +kernel, revisions_never_collide rfl (.exec numberedInputs ?_ (.nil ⟨_, _, rfl⟩))⟩
  exact ⟨trivial, trivial, trivial, trivial, .inr (by decide +kernel), trivial, trivial⟩

/-- The note with the latest number is deleted before a restart and created again after it. -/
def recreateInputs : List HubInput :=
  let env := sampleEnv 1000 fun _ => false
  [.call env (.createNote "den" ⟨"plan", "Plan", "walls", "ann", []⟩),
    .call env (.updateNote "den" "plan" ⟨none, some "roof", "bob", none⟩ false),
    .call env (.deleteNote "den" "plan"),
    .restart env 1000,
    .call env (.createNote "den" ⟨"plan", "Plan", "doors", "ann", []⟩)]

/-- The number 1 is given twice, and the note cannot be updated any more: its version 1 is
already archived. -/
theorem revision_given_again :
    given "den" ((hubMachine sampleConfig).exec recreateInputs [] sampleServer).1 = [1, 2, 1] ∧
      (updateNote sampleConfig (sampleEnv 1000 fun _ => false) "den" "plan"
        ⟨none, some "windows", "ann", none⟩ false
        ((hubMachine sampleConfig).exec recreateInputs [] sampleServer).2.world).1 = .error .storage ∧
      ¬RevisionLaw sampleConfig "den" ((hubMachine sampleConfig).exec recreateInputs [] sampleServer).1
        ((hubMachine sampleConfig).exec recreateInputs [] sampleServer).2.world := by
  have hgiven : given "den" ((hubMachine sampleConfig).exec recreateInputs [] sampleServer).1 =
      [1, 2, 1] := by decide +kernel
  refine ⟨hgiven, by decide +kernel, fun hlaw => ?_⟩
  have hpair := hlaw.increasing
  rw [hgiven] at hpair
  exact absurd hpair (by decide)

end Loca
