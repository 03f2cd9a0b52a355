/-
# `Loca.Hub.Home` — the home loca after its deletion

The home loca may be archived and deleted like any other.  It gets no tombstone that counts
(`is_deleted` leaves it out), so the next join enters it again, and `delete_room` says that it
"simply respawns empty".  The seal on its row is another matter: it was written like every
seal, nothing ever takes one away (`Shut`), and every write of a message or of the row asks
for it.  A home loca that was deleted once is therefore a room one can sit in and nothing more,
in this run of the server and in every later one (`HomeShut`).
-/
import Loca.Hub.Moderation

namespace Loca

open Check Table

/-! ## A sealed row -/

/-- A room that is sealed stays so, and keeps the messages it has. -/
structure Shut (room : String) (db db' : Db) : Prop where
  sealed : isSealed room db = true → isSealed room db' = true
  said : isSealed room db = true → db'.said room = db.said room

namespace Shut

variable {cfg : Config} {room : String} {db db' db'' : Db} {w w' : World}

theorem refl (room : String) (db : Db) : Shut room db db := ⟨id, fun _ => rfl⟩

theorem trans (h : Shut room db db') (h' : Shut room db' db'') : Shut room db db'' :=
  ⟨fun hs => h'.sealed (h.sealed hs), fun hs => (h'.said (h.sealed hs)).trans (h.said hs)⟩

/-- The messages are the same. -/
theorem of_messages (hs : isSealed room db = true → isSealed room db' = true) (hm : db'.messages = db.messages) :
    Shut room db db' :=
  ⟨hs, fun _ => by unfold Db.said; rw [hm]⟩

theorem hushed (h : Hushed cfg w w') : Shut room w.db w'.db := by
  refine .of_messages (fun hs => ?_) h.messages
  by_contra hn
  exact absurd (hs.symm.trans (h.unsealed room (Bool.eq_false_iff.mpr hn)).1) (by decide)

/-- A message is stored, for a room that is not sealed. -/
theorem spoken {m : Message} {operation : Option Operation} (hns : isSealed m.room db = false)
    (hm : db'.messages = db.messages ++ [MessageRow.ofMessage m operation])
    (hs : ∀ name, isSealed name db' = isSealed name db) : Shut room db db' := by
  refine ⟨fun h => (hs room).trans h, fun h => ?_⟩
  have hne : m.room ≠ room := by
    rintro rfl
    exact absurd (h.symm.trans hns) (by decide)
  unfold Db.said
  rw [hm]
  exact filter_append_of_not (decide_eq_false hne)

theorem insertMessageWithRoom {m : Message} {mode : ChatMode} {settings : RoomSettings}
    (h : insertMessageWithRoom m mode settings none db = .ok db') : Shut room db db' := by
  obtain ⟨hns, hm, hs⟩ := insertMessageWithRoom_ok h
  exact .spoken hns hm hs

theorem rows (h : SameRooms db db') : Shut room db db' := by
  refine .of_messages (fun hs => ?_) h.messages
  unfold isSealed at hs ⊢
  rwa [h.rooms]

end Shut

section Calls

variable {cfg : Config} {env : Env} (hp : cfg.persistent = true) {room : String} {w : World}
include hp

theorem call_shut (c : HubCall) : Shut room w.db (c.run cfg env w).2.db := by
  cases hc : c.atDesk with
  | false =>
      have hdesk := (@call_sameDesk cfg env hp c hc w).db
      exact .of_messages (fun hs => (hdesk.seals room).trans hs) (congrArg (fun d => d.1) hdesk.desk)
  | true =>
      cases c with
      | setLead name lead actor =>
          show Shut room w.db (setLead cfg env name lead actor w).2.db
          rcases @setLead_spec cfg env hp name lead actor w with hs | ⟨m, st, db, -, -, -, -, hdb, he⟩
          · exact hs.db ▸ Shut.refl room w.db
          · exact he.db ▸ Shut.insertMessageWithRoom hdb
      | announceJoinRequest name kind =>
          show Shut room w.db (announceJoinRequest cfg env name kind w).db
          obtain ⟨m, db, -, -, hdb, he⟩ := @announceJoinRequest_spec cfg env hp name kind w
          rw [he.db]
          rcases hdb with rfl | hdb
          · exact .refl room w.db
          · exact .insertMessageWithRoom hdb
      | deleteRoom name => exact Shut.hushed (deleteRoom_hushed hp name w)
      | admitMember name kind by' => exact Shut.hushed (admitMember_hushed hp name kind by' w)
      | inviteMemberToRoom member name by' => exact Shut.hushed (inviteMemberToRoom_hushed hp member name by' w)
      | revokeDavet token => exact Shut.hushed (revokeDavet_hushed hp token w)
      | revokeMember token => exact Shut.hushed (revokeMember_hushed hp token w)
      | moderate name action who => exact Shut.hushed (moderate_hushed hp name action who w)
      | _ => cases hc

theorem postLocked_shut (q : PostRequest) (attachments : List Attachment) :
    Shut room w.db (postLocked cfg env q attachments w).2.db := by
  rcases postLocked_cases cfg env q attachments w with ⟨m, -, hl⟩ | ⟨e, w', hl, href⟩ | ⟨r, d, db, hacc, hl⟩
  · rw [hl]
    exact .refl room w.db
  · rw [hl]
    exact href.db ▸ Shut.refl room w.db
  · rw [hl]
    obtain ⟨author, hd⟩ := hacc.draft
    have hroom : d.msg.room = q.room := by rw [hd]; rfl
    rcases commit_ok.mp hacc.stored with ⟨-, -, hs⟩ | ⟨hn, -⟩
    · rw [(@count_accept cfg env q r db d w).db]
      obtain ⟨hns, -, -, refs, pending, hdb⟩ := persist_ok hroom hs
      exact .spoken (hroom ▸ hns) (by rw [hdb]) (persist_seals hroom hs)
    · exact absurd (hp.symm.trans hn) (by decide)

omit hp in
theorem restart_shut (clock : Nat) : Shut room w.db (restart cfg env clock w).db := by
  refine build_rule (P := fun v => Shut room w.db v.db) (fun db h => .rows h) ?_ ?_ ?_ ?_
  · intro v name h
    refine h.trans ?_
    rcases migrateOperator_spec env clock v name with ⟨-, hc⟩ | ⟨r, st, db₁, db, -, -, hc, hsave, he⟩
    · exact .rows hc
    · rw [he]
      have hrow := saveRoom_desk hsave
      exact (Shut.rows hc).trans (.of_messages (fun hs => (hrow.seals room).trans hs)
        (congrArg (fun d => d.1) hrow.desk))
  · exact fun v v' h _ hc => h.trans (.rows hc)
  · exact fun v h => h
  · exact fun v b _ h => h

end Calls

section Runs

variable {cfg : Config} (hp : cfg.persistent = true) {room : String}
include hp

theorem step_shut (s : Server) (i : HubInput) : Shut room s.world.db (s.step cfg i).2.world.db := by
  rcases serverStep_world cfg s i with hw | ⟨env, c, -, hw⟩ | ⟨env, k, q, attachments, posts, -, -, hw⟩ |
    ⟨env, clock, -, hw⟩
  · exact hw ▸ Shut.refl room s.world.db
  · rw [hw]
    exact call_shut hp c
  · rw [hw]
    exact postLocked_shut hp q attachments
  · rw [hw]
    exact restart_shut clock

/-- No run opens a sealed row again, whatever is called and however often the server is started. -/
theorem after_shut (is : List HubInput) (s : Server) :
    Shut room s.world.db ((hubMachine cfg).after is s).world.db := by
  induction is generalizing s with
  | nil => exact .refl room s.world.db
  | cons i is ih => exact (step_shut hp s i).trans (ih (s.step cfg i).2)

end Runs

/-! ## Sitting in a sealed room -/

/-- What is left of a home loca whose row is sealed; `db₀` is the database of the day it was deleted. -/
structure HomeShut (cfg : Config) (db₀ : Db) (w : World) : Prop where
  /-- It can be entered. -/
  open_door : w.isDeleted cfg cfg.homeRoom = false
  /-- The archive is what it was. -/
  said : w.db.said cfg.homeRoom = db₀.said cfg.homeRoom
  /-- A post is refused, if it is not the retry of one the room remembers, and nothing is stored. -/
  posts : ∀ env q attachments, q.room = cfg.homeRoom → (postLocked cfg env q attachments w).2.db = w.db ∧
    ∀ m, (postLocked cfg env q attachments w).1 = .ok m → q.remembered (w.roomOr cfg cfg.homeRoom) = some m
  leads : ∀ env lead actor, ∃ e, (setLead cfg env cfg.homeRoom lead actor w).1 = .error e ∧
    (setLead cfg env cfg.homeRoom lead actor w).2.db = w.db
  settings : ∀ env req clock, ∃ e, (setSettings cfg env cfg.homeRoom req clock w).1 = .error e ∧
    (setSettings cfg env cfg.homeRoom req clock w).2.db = w.db
  announcements : ∀ env name kind, (announceJoinRequest cfg env name kind w).db = w.db

theorem not_home_deleted (cfg : Config) (w : World) : w.isDeleted cfg cfg.homeRoom = false := by
  simp [World.isDeleted]

section Home

variable {cfg : Config} (hp : cfg.persistent = true) {w : World}
include hp

theorem setLead_sealed (env : Env) (lead : Option String) (actor : String)
    (hs : isSealed cfg.homeRoom w.db = true) :
    ∃ e, (setLead cfg env cfg.homeRoom lead actor w).1 = .error e ∧
      (setLead cfg env cfg.homeRoom lead actor w).2.db = w.db := by
  unfold setLead
  rw [if_neg (Bool.eq_false_iff.mp (not_home_deleted cfg w))]
  dsimp only
  split
  · exact ⟨_, rfl, rfl⟩
  · split
    · exact ⟨_, rfl, rfl⟩
    · next w' hst =>
      obtain ⟨db, hdb, -⟩ := World.store_ok hp hst
      exact absurd (hs.symm.trans (insertMessageWithRoom_ok hdb).1) (by decide)

theorem setSettings_sealed (env : Env) (req : SetSettings) (clock : Nat)
    (hs : isSealed cfg.homeRoom w.db = true) :
    ∃ e, (setSettings cfg env cfg.homeRoom req clock w).1 = .error e ∧
      (setSettings cfg env cfg.homeRoom req clock w).2.db = w.db := by
  unfold setSettings
  rw [if_neg (Bool.eq_false_iff.mp (not_home_deleted cfg w))]
  dsimp only
  split
  · exact ⟨_, rfl, rfl⟩
  · next w' hst =>
    obtain ⟨db, hdb, -⟩ := World.store_ok hp hst
    exact absurd (hs.symm.trans (saveRoom_ok hdb).1) (by decide)

theorem announceJoinRequest_sealed (env : Env) (name kind : String) (hs : isSealed cfg.homeRoom w.db = true) :
    (announceJoinRequest cfg env name kind w).db = w.db := by
  obtain ⟨m, db, hm, -, hdb, he⟩ := @announceJoinRequest_spec cfg env hp name kind w
  rw [he.db]
  rcases hdb with rfl | hdb
  · rfl
  · exact absurd (hs.symm.trans (hm ▸ (insertMessageWithRoom_ok hdb).1)) (by decide)

theorem postLocked_sealed (env : Env) (q : PostRequest) (attachments : List Attachment)
    (hq : q.room = cfg.homeRoom) (hs : isSealed cfg.homeRoom w.db = true) :
    (postLocked cfg env q attachments w).2.db = w.db ∧
      ∀ m, (postLocked cfg env q attachments w).1 = .ok m → q.remembered (w.roomOr cfg cfg.homeRoom) = some m := by
  rcases postLocked_cases cfg env q attachments w with ⟨m, hm, hl⟩ | ⟨e, w', hl, href⟩ | ⟨r, d, db, hacc, hl⟩
  · rw [hl]
    refine ⟨rfl, fun m' hm' => ?_⟩
    cases hm'
    exact hq ▸ hm
  · rw [hl]
    exact ⟨href.db, fun m' hm' => by cases hm'⟩
  · obtain ⟨author, hd⟩ := hacc.draft
    have hroom : d.msg.room = q.room := by rw [hd]; rfl
    rcases commit_ok.mp hacc.stored with ⟨-, -, hst⟩ | ⟨hn, -⟩
    · exact absurd (hs.symm.trans (hq ▸ (persist_ok hroom hst).1)) (by decide)
    · exact absurd (hp.symm.trans hn) (by decide)

theorem homeShut {db₀ : Db} (hs : isSealed cfg.homeRoom db₀ = true) (h : Shut cfg.homeRoom db₀ w.db) :
    HomeShut cfg db₀ w where
  open_door := not_home_deleted cfg w
  said := h.said hs
  posts env q attachments hq := postLocked_sealed hp env q attachments hq (h.sealed hs)
  leads env lead actor := setLead_sealed hp env lead actor (h.sealed hs)
  settings env req clock := setSettings_sealed hp env req clock (h.sealed hs)
  announcements env name kind := announceJoinRequest_sealed hp env name kind (h.sealed hs)

end Home

/-- A deletion that succeeds seals the row, takes the room out of memory and leaves the messages. -/
theorem deleteRoom_true {cfg : Config} (hp : cfg.persistent = true) {env : Env} {room : String} {w : World}
    (h : (deleteRoom cfg env room w).1 = .ok true) :
    (deleteRoom cfg env room w).2.room? room = none ∧ isSealed room (deleteRoom cfg env room w).2.db = true ∧
      (deleteRoom cfg env room w).2.db.said room = w.db.said room := by
  unfold deleteRoom at h ⊢
  split
  · next hr =>
    rw [hr] at h
    cases h
  · next r hr =>
    rw [hr] at h
    dsimp only at h ⊢
    split
    · next harch =>
      rw [if_pos harch] at h
      cases h
    · next harch =>
      rw [if_neg harch] at h
      split
      · next e hs =>
        rw [hs] at h
        cases h
      · next w' hs =>
        obtain rfl := World.store_total hp hs
        refine ⟨?_, isSealed_sealRoom room room env.now w.db (.inl rfl), rfl⟩
        show Assoc.get room (w.hub.rooms.del room) = none
        rw [Assoc.get_del, if_pos rfl]

/-- After its deletion the home loca is entered again, empty, by the next join; and whatever
happens then, restarts included, it takes no post, lead, settings or announcement. -/
theorem home_respawns_shut {cfg : Config} (hp : cfg.persistent = true) {tr : List (HubInput × HubAnswer)} {s : Server}
    (_ : Sys.Run (hubMachine cfg) anyHubInput tr s) {env : Env}
    (hdel : (deleteRoom cfg env cfg.homeRoom s.world).1 = .ok true) :
    let s' := (s.step cfg (.call env (.deleteRoom cfg.homeRoom))).2
    (s'.world.roomOr cfg cfg.homeRoom = Room.fresh .free cfg.defaultSettings 1 ∧
      ∀ identity name kind session, (join cfg cfg.homeRoom identity name kind session s'.world).1 = true) ∧
    ∀ is, HomeShut cfg s.world.db ((hubMachine cfg).after is s').world := by
  intro s'
  obtain ⟨hgone, hsealed, hsaid⟩ := deleteRoom_true hp hdel
  have hfresh : s'.world.roomOr cfg cfg.homeRoom = Room.fresh .free cfg.defaultSettings 1 := by
    unfold World.roomOr
    exact congrArg (fun o : Option Room => o.getD (Room.fresh .free cfg.defaultSettings 1)) hgone
  refine ⟨⟨hfresh, fun identity name kind session => ?_⟩, fun is => ?_⟩
  · unfold join
    rw [if_neg (Bool.eq_false_iff.mp (not_home_deleted cfg s'.world)), hfresh]
    rfl
  · have hshut := homeShut hp hsealed (after_shut hp is s')
    exact { hshut with said := hshut.said.trans hsaid }

/-! ## A home loca that is closed -/

def quietEnv : Env := sampleEnv 2000 fun _ => false

/-- The home loca is archived. -/
def archivedHome : Server :=
  ((hubMachine sampleConfig).exec [.call quietEnv (.setSettings "iye" archiveRequest 1000)] [] sampleServer).2

/-- It is deleted, and `ann` joins. -/
def respawnedHome : Server :=
  (hubMachine sampleConfig).after [.call quietEnv (.deleteRoom "iye"), .call quietEnv (.join "iye" "ann" "ann" .user 1)]
    archivedHome

theorem home_respawns_shut_sample :
    (deleteRoom sampleConfig quietEnv "iye" archivedHome.world).1 = .ok true ∧
    HomeShut sampleConfig archivedHome.world.db respawnedHome.world := by
  have hdel : (deleteRoom sampleConfig quietEnv "iye" archivedHome.world).1 = .ok true := by decide +kernel
  exact ⟨hdel, (home_respawns_shut rfl (sampleServer_run _) hdel).2 [.call quietEnv (.join "iye" "ann" "ann" .user 1)]⟩

/-- A post to the home loca by `ann`. -/
def homePost : PostRequest := { samplePost with room := "iye" }

/-- No fault of the store is involved: `ann` sits in the home loca, and is refused in all of it,
before a restart and after. -/
theorem closed_home_takes_nothing :
    (deleteRoom sampleConfig quietEnv "iye" archivedHome.world).1 = .ok true ∧
    (respawnedHome.world.room? "iye").map (fun r => r.memberList.length) = some 1 ∧
    ∀ w ∈ [respawnedHome.world, restart sampleConfig quietEnv 2000 respawnedHome.world],
      (postLocked sampleConfig quietEnv homePost [] w).1 = .error .storage ∧
      (setLead sampleConfig quietEnv "iye" (some "ann") "ann" w).1 = .error .storage ∧
      (setSettings sampleConfig quietEnv "iye" archiveRequest 2000 w).1 = .error .roomSealed ∧
      (announceJoinRequest sampleConfig quietEnv "eve" "agent" w).db.messages = [] := by
  decide +kernel

end Loca
