/-
# `Loca.Hub.Desk` — what most calls leave alone

Four things the server keeps beside its rooms (the message counter, the tombstones, the davets and
the memberships), and what a few calls only change in its rooms and tables: the messages, and who
is muted, banned or invited.  `HubCall.atDesk` lists those calls; `call_desk` and `call_sameDesk`
say that every other call leaves all of it alone.
-/
import Loca.Hub.Reboot

namespace Loca

open Check

/-- The counter, the tombstones, the davets and the memberships. -/
def World.desk (w : World) : Nat × List String × Assoc String Invite × Assoc String Membership :=
  (w.hub.nextId, w.hub.deleted, w.hub.invites, w.hub.members)

namespace World

@[simp] theorem desk_setDb (db : Db) (w : World) : (w.setDb db).desk = w.desk := rfl
@[simp] theorem desk_setRoom (room : String) (r : Room) (w : World) : (w.setRoom room r).desk = w.desk := rfl
@[simp] theorem desk_send (room : String) (fs : List ServerFrame) (w : World) : (w.send room fs).desk = w.desk := rfl
@[simp] theorem desk_setGeneration (g : Nat) (w : World) : (w.setGeneration g).desk = w.desk := rfl
@[simp] theorem desk_noteDelivery (s : CareSignal) (w : World) : (w.noteDelivery s).desk = w.desk := rfl

/-- A write leaves the desk alone. -/
theorem desk_store {cfg : Config} {env : Env} {call : StoreCall} {tx : Db → Except StoreError Db} {w w' : World}
    (h : w.store cfg env call tx = .ok w') : w'.desk = w.desk := by
  unfold store at h
  cases hc : commit cfg.persistent (env.fails call) tx w.db with
  | error e => rw [hc] at h; cases h
  | ok db => rw [hc] at h; cases h; rfl

theorem desk_storeCare {cfg : Config} {env : Env} {blank changed : Bool} {tx : CareTables → Bool × CareTables}
    {w w' : World} (h : w.storeCare cfg env blank tx = .ok (changed, w')) : w'.desk = w.desk := by
  unfold storeCare at h
  split at h
  · split at h
    · cases h
    · cases h
      rfl
  · cases h
    rfl

end World

/-- Closing connections is only said. -/
theorem World.desk_closeConnections (room name : String) (w : World) :
    (w.closeConnections room name).desk = w.desk := by
  unfold World.closeConnections
  split <;> rfl

theorem World.desk_closeAll {α : Type} (room name : α → String) (l : List α) (w : World) :
    (l.foldl (fun w i => w.closeConnections (room i) (name i)) w).desk = w.desk :=
  Sys.foldl_rel (R := fun a b : World => b.desk = a.desk) (fun _ => rfl) (fun _ _ _ h h' => h'.trans h)
    (fun w i => w.desk_closeConnections (room i) (name i)) l w

/-- The calls that may move it. -/
def HubCall.atDesk : HubCall → Bool
  | .setLead .. | .announceJoinRequest .. | .deleteRoom .. | .admitMember .. | .inviteMemberToRoom ..
  | .revokeDavet .. | .revokeMember .. | .moderate .. => true
  | _ => false

section Sweep

variable {cfg : Config} {env : Env}

theorem signalWithMark_desk {room key : String} {r : Room} {mark : CareMark} {s : CareSignal} {w w' : World}
    {signals : List CareSignal} (h : signalWithMark cfg env room key r mark s w = some (w', signals)) :
    w'.desk = w.desk := by
  unfold signalWithMark at h
  split at h
  · cases h
  · next w₁ hs =>
    cases h
    exact (World.desk_store hs :)

theorem tryCycle_desk {room : String} {owner : Option String} {r : Room} {w w' : World} {cycle : List String}
    {signals : List CareSignal} (h : tryCycle cfg env room owner r w cycle = some (w', signals)) :
    w'.desk = w.desk := by
  unfold tryCycle at h
  dsimp only at h
  split at h
  · split at h
    · cases h
    · exact signalWithMark_desk h
  · cases h

theorem tryWait_desk {room name : String} {owner : Option String} {r : Room} {w w' : World}
    {signals : List CareSignal} (h : tryWait cfg env room owner r w name = some (w', signals)) :
    w'.desk = w.desk := by
  unfold tryWait at h
  dsimp only at h
  split at h
  · cases h
  · split at h
    · split at h
      · cases h
      · split at h
        · cases h
        · next w₁ hs =>
          cases h
          exact (World.desk_store hs :)
    · cases h

theorem tryEveryone_desk {room : String} {r : Room} {mark next : CareMark} {escalated : Bool} {rem : Reminder}
    {w w' : World} {signals : List CareSignal}
    (h : tryEveryone cfg env room r mark next escalated rem w = some (w', signals)) : w'.desk = w.desk := by
  simp only [tryEveryone, Option.bind_eq_bind, Option.bind_eq_some_iff] at h
  obtain ⟨recipients, -, -, -, h⟩ := h
  split at h
  · cases h
  · next w₁ hs =>
    cases h
    exact (World.desk_store hs :)

theorem tryReminder_desk {room : String} {owner : Option String} {r : Room} {w w' : World} {rem : Reminder}
    {signals : List CareSignal} (h : tryReminder cfg env room owner r w rem = some (w', signals)) :
    w'.desk = w.desk := by
  unfold tryReminder at h
  dsimp only at h
  split at h
  · split at h
    · exact tryEveryone_desk h
    · split at h
      · cases h
      · split at h
        · split at h
          · cases h
          · split at h
            · cases h
            · next w₁ hs =>
              cases h
              exact (World.desk_store hs :)
        · exact signalWithMark_desk h
  · cases h

theorem chooseReminder_desk {room : String} {r : Room} {w w' : World} {signals : List CareSignal}
    (h : chooseReminder cfg env room r w = some (w', signals)) : w'.desk = w.desk := by
  unfold chooseReminder at h
  dsimp only at h
  split at h
  · next hc =>
    obtain ⟨cycle, -, hc⟩ := List.exists_of_findSome?_eq_some hc
    rw [h] at hc
    exact tryCycle_desk hc
  · split at h
    · next hc =>
      obtain ⟨name, -, hc⟩ := List.exists_of_findSome?_eq_some hc
      rw [h] at hc
      exact tryWait_desk hc
    · obtain ⟨rem, -, hc⟩ := List.exists_of_findSome?_eq_some h
      exact tryReminder_desk hc

theorem tickCare_desk (w : World) : (tickCare cfg env w).desk = w.desk := by
  have hsweep := Sys.foldl_rel (R := fun a b : World × List (String × CareSignal) => b.1.desk = a.1.desk)
    (fun _ => rfl) (fun _ _ _ h h' => h'.trans h) (f := sweepRoom cfg env) (fun acc room => ?_)
    (Assoc.inOrder env.order w.hub.rooms.keys) (w, [])
  · refine Eq.trans ?_ hsweep
    refine Sys.foldl_rel (R := fun a b : World => b.desk = a.desk) (fun _ => rfl) (fun _ _ _ h h' => h'.trans h)
      (fun w p => ?_) _ _
    unfold publishCareSignal
    dsimp only
    split
    · rfl
    · split
      · split <;> split <;> rfl
      · split <;> split <;> rfl
  · unfold sweepRoom
    split
    · rfl
    · split
      · rfl
      · split
        · rfl
        · next hc => exact chooseReminder_desk hc

end Sweep

/-- Every other call leaves the desk as it is. -/
theorem call_desk (cfg : Config) (env : Env) (c : HubCall) (hc : c.atDesk = false) (w : World) :
    (c.run cfg env w).2.desk = w.desk := by
  cases c with
  | setLead room lead actor => cases hc
  | announceJoinRequest name kind => cases hc
  | deleteRoom room => cases hc
  | admitMember name kind admittedBy => cases hc
  | inviteMemberToRoom member room issuedBy => cases hc
  | revokeDavet token => cases hc
  | revokeMember token => cases hc
  | moderate room action name => cases hc
  | outside db => rfl
  | tickCare => exact tickCare_desk w
  | createTask room req =>
      unfold HubCall.run answered createTask
      dsimp only
      split
      · rfl
      · next hs => exact (World.desk_store hs :)
  | updateTask room id req isOperator =>
      unfold HubCall.run answered updateTask
      dsimp only
      split
      · rfl
      · split
        · rfl
        · split
          · rfl
          · split
            · rfl
            · next hs =>
              split
              · exact (World.desk_store hs :)
              · exact (World.desk_store hs :)
  | createGoal room req =>
      unfold HubCall.run answered createGoal
      dsimp only
      split
      · rfl
      · split
        · rfl
        · next hs => exact (World.desk_store hs :)
  | updateGoal room id req =>
      unfold HubCall.run answered updateGoal
      dsimp only
      split
      · rfl
      · split
        · rfl
        · split
          · rfl
          · next progressed _ =>
            have hmoved : ∀ g : Goal, (if progressed then w.setGeneration g.progressAt else w).desk = w.desk := by
              intro g
              split <;> rfl
            split
            · exact hmoved _
            · next hs => exact ((World.desk_store hs :).trans (hmoved _) :)
  | setWait room req =>
      unfold HubCall.run answered setWait
      dsimp only
      split
      · rfl
      · split
        · rfl
        · split
          · rfl
          · next hs => exact (World.desk_store hs :)
  | clearWait room waiter =>
      unfold HubCall.run answered clearWait
      dsimp only
      split
      · rfl
      · split
        · rfl
        · split
          · rfl
          · next hs => exact (World.desk_store hs :)
  | setMode room mode clock =>
      unfold HubCall.run answered setMode
      dsimp only
      split
      · rfl
      · split
        · rfl
        · next hs => exact (World.desk_store hs :)
  | setSettings room req clock =>
      unfold HubCall.run answered setSettings
      dsimp only
      split
      · rfl
      · split
        · rfl
        · next hs => exact (World.desk_store hs :)
  | expireLive clock =>
      refine Sys.foldl_rel (R := fun a b : World => b.desk = a.desk) (fun _ => rfl) (fun _ _ _ h h' => h'.trans h)
        (fun w n => ?_) _ w
      unfold expireLiveRoom
      split
      · rfl
      · split
        · dsimp only
          split
          · rfl
          · next hs => exact (World.desk_store hs :)
        · rfl
  | createNote room req =>
      unfold HubCall.run answered createNote
      dsimp only
      split
      · rfl
      · split
        · rfl
        · next hs => exact (World.desk_store hs :)
  | updateNote room key req isOperator =>
      unfold HubCall.run answered updateNote
      dsimp only
      split
      · rfl
      · split
        · rfl
        · split
          · rfl
          · next hs => exact (World.desk_store hs :)
  | deleteNote room key =>
      unfold HubCall.run answered deleteNote
      dsimp only
      split
      · rfl
      · split
        · rfl
        · split
          · rfl
          · next hs => exact (World.desk_store hs :)
  | appendJournal room entryBy byType text =>
      unfold HubCall.run answered appendJournal
      dsimp only
      split
      · rfl
      · next hs => exact (World.desk_store hs :)
  | createAttention room req =>
      unfold HubCall.run answered createAttention
      dsimp only
      split
      · rfl
      · split
        · rfl
        · split
          · rfl
          · next hs => exact (World.desk_store hs :)
  | claimAttention room id actor =>
      unfold HubCall.run answered claimAttention
      dsimp only
      split
      · rfl
      · split
        · rfl
        · split
          · rfl
          · split
            · rfl
            · next hs => exact (World.desk_storeCare hs :)
            · next hs => exact (World.desk_storeCare hs :)
  | resolveAttention room id actor principal isOperator =>
      unfold HubCall.run answered resolveAttention
      dsimp only
      split
      · rfl
      · split
        · rfl
        · split
          · rfl
          · split
            · rfl
            · split
              · rfl
              · next hs => exact (World.desk_storeCare hs :)
              · next hs => exact (World.desk_storeCare hs :)
  | ackCare signalId owner principal =>
      unfold HubCall.run answered ackCare
      dsimp only
      split
      · rfl
      · split
        · rfl
        · split
          · rfl
          · next hs =>
            split
            · split
              · exact (World.desk_storeCare hs :)
              · exact (World.desk_storeCare hs :)
            · exact (World.desk_storeCare hs :)
  | createLoca room actor clock =>
      unfold HubCall.run answered createLoca
      dsimp only
      split
      · rfl
      · split
        · rfl
        · split
          · rfl
          · split
            · rfl
            · rfl
  | subscribe room =>
      unfold HubCall.run subscribe
      dsimp only
      split <;> rfl
  | join room identity name kind session =>
      unfold HubCall.run join
      dsimp only
      split
      · rfl
      · split <;> rfl
  | leave room identity =>
      unfold HubCall.run leave
      dsimp only
      split <;> rfl

/-! ## Their rooms and tables -/

/-- The part of a room that the same calls leave alone: the messages, and who is muted or banned. -/
def Room.desk (r : Room) : List Message × List String × List String := (r.history, r.muted, r.banned)

/-- The tables that go with it, the davets and the memberships. -/
def Db.desk (db : Db) : List MessageRow × List BanRow × List InviteRow × List MemberRow :=
  (db.messages, db.bans, db.invites, db.members)

/-- These tables and the seals are the same. -/
structure SameTables (db db' : Db) : Prop where
  desk : db'.desk = db.desk
  seals : ∀ name, isSealed name db' = isSealed name db

theorem SameTables.trans {db db' db'' : Db} (h : SameTables db db') (h' : SameTables db' db'') : SameTables db db'' :=
  ⟨h'.desk.trans h.desk, fun name => (h'.seals name).trans (h.seals name)⟩

structure SameDesk (cfg : Config) (w w' : World) : Prop where
  rooms : ∀ name, (w'.roomOr cfg name).desk = (w.roomOr cfg name).desk
  db : SameTables w.db w'.db

namespace SameDesk

variable {cfg : Config} {w w' w'' : World} {room : String} {r : Room} {db : Db}

theorem refl (cfg : Config) (w : World) : SameDesk cfg w w := ⟨fun _ => rfl, rfl, fun _ => rfl⟩

theorem trans (h : SameDesk cfg w w') (h' : SameDesk cfg w' w'') : SameDesk cfg w w'' :=
  ⟨fun name => (h'.rooms name).trans (h.rooms name), h.db.trans h'.db⟩

theorem stays (h : Stays cfg w w') : SameDesk cfg w w' := by
  refine ⟨fun name => by rw [h.rooms], ?_⟩
  rw [h.db]
  exact ⟨rfl, fun _ => rfl⟩

theorem edits (h : Edits cfg room r db w w') (hr : r.desk = (w.roomOr cfg room).desk)
    (hdb : SameTables w.db db) : SameDesk cfg w w' := by
  refine ⟨fun name => ?_, h.db ▸ hdb⟩
  rw [h.rooms, Function.update_apply]
  split
  · next hn => rw [hr, hn]
  · rfl

end SameDesk

theorem Filed.desk {room : String} {r r' : Room} {db db' : Db} {signals : List CareSignal}
    (h : Filed room r db signals r' db') : r'.desk = r.desk ∧ SameTables db db' := by
  cases h <;> exact ⟨rfl, rfl, fun _ => rfl⟩

theorem saveRoom_desk {room : String} {mode : ChatMode} {settings : RoomSettings} {clock : Nat} {db db' : Db}
    (h : saveRoom room mode settings clock db = .ok db') : SameTables db db' := by
  obtain ⟨-, rfl⟩ := saveRoom_ok h
  exact ⟨rfl, fun name => isSealed_roomRow name room mode settings db⟩

section Calls

variable {cfg : Config} {env : Env} (hp : cfg.persistent = true)

theorem foundRoom_desk {room : String} {actor : RequestAuthority} {clock : Nat} {db db' : Db}
    (h : foundRoom cfg env room actor clock db = .ok db') : SameTables db db' := by
  unfold foundRoom at h
  split at h
  · simp only [bind_ok, found_ok, require_ok, exists_const] at h
    obtain ⟨founder, -, -, h⟩ := h
    rw [mapError_ok] at h
    simp only [createRoomWithOperator, bind_ok, require_ok, exists_const] at h
    obtain ⟨-, -, role, -, -, db₁, h₁, h⟩ := h
    rw [mapError_ok] at h₁
    obtain ⟨-, rfl⟩ := writeRoomState_ok.mp h₁
    simp only [insertAssignment, bind_ok, require_ok, pure_ok, exists_const] at h
    obtain ⟨-, rfl⟩ := h
    exact ⟨rfl, fun name => isSealed_roomRow name room _ _ db⟩
  · rw [mapError_ok] at h
    rcases commit_ok.mp h with ⟨-, -, h⟩ | ⟨-, rfl⟩
    · exact saveRoom_desk h
    · exact ⟨rfl, fun _ => rfl⟩

include hp

theorem tickCare_sameDesk (w : World) : SameDesk cfg w (tickCare cfg env w) := by
  have hsweep := Sys.foldl_rel (R := fun a b : World × List (String × CareSignal) => SameDesk cfg a.1 b.1)
    (fun a => SameDesk.refl cfg a.1) (fun _ _ _ h h' => h.trans h') (f := sweepRoom cfg env)
    (fun acc room => ?_) (Assoc.inOrder env.order w.hub.rooms.keys) (w, [])
  · refine hsweep.trans ?_
    refine Sys.foldl_rel (R := SameDesk cfg) (SameDesk.refl cfg) (fun _ _ _ h h' => h.trans h') (fun w p => ?_) _ _
    rcases @publishCareSignal_spec cfg env w p with ⟨hs, -⟩ | he
    · exact .stays hs
    · exact .edits he rfl ⟨rfl, fun _ => rfl⟩
  · rcases sweepRoom_spec hp acc room with hs | ⟨r', db, signals, -, -, hf, -, he⟩
    · rw [hs]
      exact .refl cfg _
    · exact .edits he.edits hf.desk.1 hf.desk.2

theorem createLoca_sameDesk (room : String) (actor : RequestAuthority) (clock : Nat) (w : World) :
    SameDesk cfg w (createLoca cfg env room actor clock w).2 := by
  rcases @createLoca_spec cfg env hp room actor clock w with hs | ⟨-, -, -, -, hr, -⟩
  · exact .stays hs
  · refine ⟨fun name => by rw [hr], ?_⟩
    unfold createLoca
    split
    · exact ⟨rfl, fun _ => rfl⟩
    · split
      · exact ⟨rfl, fun _ => rfl⟩
      · split
        · exact ⟨rfl, fun _ => rfl⟩
        · split
          · exact ⟨rfl, fun _ => rfl⟩
          · next hdb => exact foundRoom_desk hdb

/-- Every other call leaves them as they are. -/
theorem call_sameDesk (c : HubCall) (hc : c.atDesk = false) (w : World) :
    SameDesk cfg w (c.run cfg env w).2 := by
  cases c with
  | setLead room lead actor => cases hc
  | announceJoinRequest name kind => cases hc
  | deleteRoom room => cases hc
  | admitMember name kind admittedBy => cases hc
  | inviteMemberToRoom member room issuedBy => cases hc
  | revokeDavet token => cases hc
  | revokeMember token => cases hc
  | moderate room action name => cases hc
  | outside db => exact ⟨fun _ => rfl, rfl, fun _ => rfl⟩
  | tickCare => exact tickCare_sameDesk hp w
  | createLoca room actor clock => exact createLoca_sameDesk hp room actor clock w
  | subscribe room => exact .stays (subscribe_spec room w)
  | join room identity name kind session =>
      unfold HubCall.run join
      dsimp only
      split
      · exact .refl cfg w
      · split
        · exact .stays (.enter cfg room w)
        · refine .edits ⟨World.roomOr_setRoom cfg room _ w, rfl⟩ ?_ ⟨rfl, fun _ => rfl⟩
          unfold Room.seat
          split
          · rfl
          · split <;> rfl
  | leave room identity =>
      unfold HubCall.run leave
      dsimp only
      split
      · exact .refl cfg w
      · next r hr =>
        refine .edits ⟨World.roomOr_setRoom cfg room _ w, rfl⟩ ?_ ⟨rfl, fun _ => rfl⟩
        rw [World.roomOr_of_some hr]
        unfold Room.unseat
        split <;> rfl
  | createTask room req =>
      rcases @createTask_spec cfg env hp room req w with hs | ⟨t, -, he⟩
      · exact .stays hs
      · exact .edits he rfl ⟨rfl, fun _ => rfl⟩
  | updateTask room id req isOperator =>
      rcases @updateTask_spec cfg env hp room id req isOperator w with hs | ⟨t, t', p, goal, -, -, -, he⟩
      · exact .stays hs
      · rw [upsertTaskWithGoalProgress_eq] at he
        refine .edits he ?_ ⟨rfl, fun _ => rfl⟩
        obtain ⟨marks, attentions, hput⟩ := putTask_eq room t' p (w.roomOr cfg room)
        cases goal with
        | none => rw [hput]; rfl
        | some g =>
            obtain ⟨marks', attentions', hputg⟩ := putGoal_eq room g true ((w.roomOr cfg room).putTask room t' p)
            dsimp only
            rw [hputg, hput]
            rfl
  | createGoal room req =>
      rcases @createGoal_spec cfg env hp room req w with hs | ⟨g, -, he⟩
      · exact .stays hs
      · exact .edits he rfl ⟨rfl, fun _ => rfl⟩
  | updateGoal room id req =>
      rcases @updateGoal_spec cfg env hp room id req w with hs | ⟨g, g', p, -, -, he⟩
      · exact .stays hs
      · rw [upsertGoalWithCareReset_eq] at he
        refine .edits he ?_ ⟨rfl, fun _ => rfl⟩
        obtain ⟨marks, attentions, hput⟩ := putGoal_eq room g' p (w.roomOr cfg room)
        rw [hput]
        rfl
  | setWait room req =>
      rcases @setWait_spec cfg env hp room req w with hs | ⟨wait, -, -, he⟩
      · exact .stays hs
      · refine .edits he ?_ ⟨rfl, fun _ => rfl⟩
        obtain ⟨marks, attentions, hput⟩ := putWait_eq room wait (w.roomOr cfg room)
        rw [hput]
        rfl
  | clearWait room waiter =>
      rcases @clearWait_spec cfg env hp room waiter w with hs | he
      · exact .stays hs
      · refine .edits he ?_ ⟨rfl, fun _ => rfl⟩
        obtain ⟨marks, attentions, hdrop⟩ := dropWait_eq room waiter env.now (w.roomOr cfg room)
        rw [hdrop]
        rfl
  | setMode room mode clock =>
      rcases @setMode_spec cfg env hp room mode clock w with hs | ⟨db, -, hdb, he⟩
      · exact .stays hs
      · exact .edits he rfl (saveRoom_desk hdb)
  | setSettings room req clock =>
      rcases @setSettings_spec cfg env hp room req clock w with hs | ⟨db, -, hdb, he⟩
      · exact .stays hs
      · exact .edits he rfl (saveRoom_desk hdb)
  | expireLive clock =>
      refine Sys.foldl_rel (R := SameDesk cfg) (SameDesk.refl cfg) (fun _ _ _ h h' => h.trans h') (fun w n => ?_) _ w
      rcases @expireLiveRoom_spec cfg env hp clock n w with hs | ⟨s, db, -, -, hdb, he⟩
      · exact .stays hs
      · exact .edits he rfl (saveRoom_desk hdb)
  | createNote room req =>
      rcases @createNote_spec cfg env hp room req w with hs | ⟨note, -, -, he⟩
      · exact .stays hs
      · exact .edits he rfl ⟨rfl, fun _ => rfl⟩
  | updateNote room key req isOperator =>
      rcases @updateNote_spec cfg env hp room key req isOperator w with hs | ⟨n, n', db, -, -, hdb, he⟩
      · exact .stays hs
      · simp only [replaceNote, bind_ok, found_ok, pure_ok] at hdb
        obtain ⟨revisions, -, rfl⟩ := hdb
        exact .edits he rfl ⟨rfl, fun _ => rfl⟩
  | deleteNote room key =>
      rcases @deleteNote_spec cfg env hp room key w with hs | he
      · exact .stays hs
      · exact .edits he rfl ⟨rfl, fun _ => rfl⟩
  | appendJournal room entryBy byType text =>
      rcases @appendJournal_spec cfg env hp room entryBy byType text w with hs | ⟨e, db, -, -, hdb, he⟩
      · exact .stays hs
      · simp only [appendJournalRow, bind_ok, found_ok, pure_ok] at hdb
        obtain ⟨journal, -, rfl⟩ := hdb
        exact .edits he rfl ⟨rfl, fun _ => rfl⟩
  | createAttention room req =>
      rcases @createAttention_spec cfg env hp room req w with hs | ⟨s, o, ps, db, a, -, -, rfl, -, he⟩
      · exact .stays hs
      · exact .edits he rfl ⟨rfl, fun _ => rfl⟩
  | claimAttention room id actor =>
      rcases @claimAttention_spec cfg env hp room id actor w with hs | ⟨a, -, -, -, he⟩
      · exact .stays hs
      · exact .edits he rfl ⟨rfl, fun _ => rfl⟩
  | resolveAttention room id actor principal isOperator =>
      rcases @resolveAttention_spec cfg env hp room id actor principal isOperator w with hs | ⟨a, -, -, -, he⟩
      · exact .stays hs
      · exact .edits he rfl ⟨rfl, fun _ => rfl⟩
  | ackCare signalId owner principal =>
      rcases @ackCare_spec cfg env hp signalId owner principal w with hs | ⟨db, rfl, hr, hdb⟩ | ⟨name, id, a, -, he⟩
      · exact .stays hs
      · refine ⟨fun name => congrArg Room.desk (congrFun hr name), ?_⟩
        refine Eq.subst (motive := fun db => SameTables w.db db) hdb.symm ?_
        exact ⟨rfl, fun _ => rfl⟩
      · exact .edits he rfl ⟨rfl, fun _ => rfl⟩

end Calls

end Loca
