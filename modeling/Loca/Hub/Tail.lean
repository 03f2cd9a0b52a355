/-
# `Loca.Hub.Tail` — the hot tail and the archive

A room keeps its last messages in memory, the archive all of them.  Messages come in on three
ways: a post, the naming of a lead, and the announcement of a join request; a restart reads the tail
back.  `HotTail` says that what is in memory is the tail of what is stored, and that the pages of
the archive are all of it.

A post cuts the tail to its length and the two announcements do not.  So the law holds along every
run in which an announcement finds less than a full tail (`Roomy`), and fails right after one that
does not.
-/
import Mathlib.Data.List.DropRight
import Loca.Hub.Agreement
import Loca.Hub.Desk
import Loca.Listener.Backfill

namespace Loca

open Check Table

/-! ## The end of a list -/

section Rtake

variable {α β : Type}

theorem rtake_eq_self {l : List α} {k : Nat} (h : l.length ≤ k) : l.rtake k = l := by
  rw [List.rtake, Nat.sub_eq_zero_of_le h, List.drop_zero]

theorem length_rtake (l : List α) (k : Nat) : (l.rtake k).length = min k l.length := by
  rw [List.rtake, List.length_drop]
  omega

theorem map_rtake (f : α → β) (l : List α) (k : Nat) : (l.rtake k).map f = (l.map f).rtake k := by
  rw [List.rtake, List.rtake, List.map_drop, List.length_map]

/-- What a cut has dropped does not come back. -/
theorem rtake_concat_rtake (l : List α) (x : α) (k : Nat) : (l.rtake k ++ [x]).rtake k = (l ++ [x]).rtake k := by
  cases k with
  | zero => rw [List.rtake_zero, List.rtake_zero]
  | succ k =>
      have hcut : (l.rtake (k + 1)).rtake k = l.rtake k := by
        rw [List.rtake_eq_reverse_take_reverse, List.rtake_eq_reverse_take_reverse, List.reverse_reverse,
          List.take_take, Nat.min_eq_left (Nat.le_succ k), ← List.rtake_eq_reverse_take_reverse]
      rw [List.rtake_concat_succ, List.rtake_concat_succ, hcut]

end Rtake

/-! ## The archive of a room -/

/-- The rows of a room, in order. -/
def archive (room : String) (db : Db) : List MessageRow :=
  orderBy MessageRow.id (db.messages.filter fun r => r.room = room)

/-- The pages of `messages_after`, each read from the last id of the one before, until one is
empty; at most `fuel` of them. -/
def followPages (cfg : Config) (room : String) (limit : Nat) (w : World) : Nat → Nat → List Message
  | 0, _ => []
  | fuel + 1, since =>
      let page := w.messagesAfter cfg room since limit
      match page.getLast? with
      | none => []
      | some last => page ++ followPages cfg room limit w fuel last.id

/-- A room's memory holds the tail of its archive, and the archive can be paged through. -/
structure HotTail (cfg : Config) (name : String) (r : Room) (w : World) : Prop where
  bounded : r.history.length ≤ historyLimit
  /-- In order, and up to the author a message answers. -/
  tail : r.history.map Message.core = ((archive name w.db).rtake historyLimit).map MessageRow.toMessage
  increasing : (archive name w.db).Pairwise fun a b => a.id < b.id
  paged : ∀ since limit fuel, 0 < limit → (archive name w.db).length < fuel →
    followPages cfg name limit w fuel since =
      ((archive name w.db).filter fun row => since < row.id).map MessageRow.toMessage

/-- Every room that is there and not sealed. -/
def HotTails (cfg : Config) (w : World) : Prop :=
  ∀ name r, w.room? name = some r → isSealed name w.db = false → HotTail cfg name r w

/-- The rows are stored in order, and the counter is past them. -/
structure Sequenced (w : World) : Prop where
  ordered : w.db.messages.Pairwise fun a b => a.id < b.id
  fresh : ∀ row ∈ w.db.messages, row.id < w.hub.nextId

/-- The stored rows of a room. -/
def Db.said (room : String) (db : Db) : List MessageRow := db.messages.filter fun r => r.room = room

/-- What is stored in order is read in order. -/
theorem archive_eq {db : Db} (h : db.messages.Pairwise fun a b => a.id < b.id) (room : String) :
    archive room db = db.said room := by
  have hroom : (db.said room).Pairwise fun a b => a.id ≤ b.id := (h.filter _).imp fun hab => hab.le
  exact hroom.insertionSort_eq

theorem nodup_ids {db : Db} (h : db.messages.Pairwise fun a b => a.id < b.id) :
    (db.messages.map MessageRow.id).Nodup :=
  List.pairwise_map.mpr (h.imp fun hab => hab.ne)

theorem rowsAfter_eq {db : Db} (h : db.messages.Pairwise fun a b => a.id < b.id) (room : String) (c : Nat) :
    rowsAfter room db c = (archive room db).filter fun row => c < row.id := by
  rw [archive, filter_orderBy ((nodup_ids h).sublist (List.filter_sublist.map _)), List.filter_filter, rowsAfter]
  congr 1
  refine List.filter_congr fun row _ => ?_
  simp [Bool.and_comm]

/-- Page by page comes everything past the cursor, once. -/
theorem followPages_eq {cfg : Config} (hp : cfg.persistent = true) {w : World}
    (h : w.db.messages.Pairwise fun a b => a.id < b.id) (room : String) {limit : Nat} (hlimit : 0 < limit)
    (fuel : Nat) : ∀ since, (rowsAfter room w.db since).length < fuel →
      followPages cfg room limit w fuel since = (rowsAfter room w.db since).map MessageRow.toMessage := by
  induction fuel with
  | zero => exact fun since hf => absurd hf (Nat.not_lt_zero _)
  | succ fuel ih =>
      intro since hf
      have hpage : w.messagesAfter cfg room since limit =
          ((rowsAfter room w.db since).take limit).map MessageRow.toMessage := by
        rw [World.messagesAfter, if_pos hp]
        rfl
      unfold followPages
      rw [hpage]
      dsimp only
      rw [List.getLast?_map]
      cases hl : ((rowsAfter room w.db since).take limit).getLast? with
      | none =>
          have hnil : rowsAfter room w.db since = [] := by
            rw [List.getLast?_eq_none_iff, List.take_eq_nil_iff] at hl
            rcases hl with hl | hl
            · omega
            · exact hl
          rw [hnil]
          rfl
      | some last =>
          obtain ⟨init, hinit⟩ := List.getLast?_eq_some_iff.mp hl
          have hmem : last ∈ (rowsAfter room w.db since).take limit := by
            rw [hinit]
            exact List.mem_append_right _ (List.mem_singleton.mpr rfl)
          have hpast : since < last.id := by
            have hrow := List.mem_of_mem_take hmem
            rw [rowsAfter_eq h] at hrow
            simpa using (List.mem_filter.mp hrow).2
          have hstrict : ((rowsAfter room w.db since).take limit).Pairwise fun a b => a.id < b.id :=
            (rowsAfter_strict (nodup_ids h) since).sublist (List.take_sublist _ _)
          have hmax : ∀ row ∈ (rowsAfter room w.db since).take limit, row.id ≤ last.id := by
            intro row hrow
            rw [hinit] at hstrict hrow
            rcases List.mem_append.mp hrow with hrow | hrow
            · exact ((List.pairwise_append.mp hstrict).2.2 row hrow last (List.mem_singleton.mpr rfl)).le
            · rw [List.mem_singleton.mp hrow]
          have hrest := rowsAfter_page (nodup_ids h) hpast (List.mem_map_of_mem hmem) hmax
          have hne : rowsAfter room w.db since ≠ [] := by
            intro hnil
            rw [hnil, List.take_nil] at hmem
            cases hmem
          have hlen := List.length_pos_iff.mpr hne
          show _ ++ followPages cfg room limit w fuel last.id = _
          rw [ih last.id (by rw [hrest, List.length_drop]; omega), hrest, ← List.map_append, List.take_append_drop]

/-! ## What a step does to the messages -/

/-- What is in memory for a room is the tail of what is stored for it. -/
def TailOf (cfg : Config) (w : World) (name : String) : Prop :=
  (w.roomOr cfg name).history.map Message.core = ((w.db.said name).rtake historyLimit).map MessageRow.toMessage

/-- The messages are numbered, and the rooms that are not sealed hold their tails. -/
structure Tailed (cfg : Config) (w : World) : Prop where
  numbered : Sequenced w
  tail : ∀ name, isSealed name w.db = false → TailOf cfg w name

theorem Tailed.length_le {cfg : Config} {w : World} (h : Tailed cfg w) {name : String}
    (hs : isSealed name w.db = false) : (w.roomOr cfg name).history.length ≤ historyLimit := by
  have hlen := congrArg List.length (h.tail name hs)
  rw [List.length_map, List.length_map, length_rtake] at hlen
  rw [hlen]
  exact Nat.min_le_left _ _

theorem Tailed.hotTails {cfg : Config} (hp : cfg.persistent = true) {w : World} (h : Tailed cfg w) :
    HotTails cfg w := by
  intro name r hr hs
  have harch := archive_eq h.numbered.ordered name
  have hroom : w.roomOr cfg name = r := World.roomOr_of_some hr
  refine ⟨hroom ▸ h.length_le hs, ?_, ?_, fun since limit fuel hlimit hfuel => ?_⟩
  · rw [harch, ← hroom]
    exact h.tail name hs
  · rw [harch]
    exact h.numbered.ordered.filter _
  · rw [← rowsAfter_eq h.numbered.ordered]
    refine followPages_eq hp h.numbered.ordered name hlimit fuel since ?_
    rw [rowsAfter_eq h.numbered.ordered]
    exact (List.length_filter_le _ _).trans_lt hfuel

/-- No message is stored or remembered. -/
structure Hushed (cfg : Config) (w w' : World) : Prop where
  nextId : w.hub.nextId ≤ w'.hub.nextId
  messages : w'.db.messages = w.db.messages
  unsealed : ∀ name, isSealed name w'.db = false → isSealed name w.db = false ∧
    (w'.roomOr cfg name).history = (w.roomOr cfg name).history

/-- One message is stored, and remembered in its room. -/
structure Says (cfg : Config) (m : Message) (history : List Message) (w w' : World) : Prop where
  id : m.id = w.hub.nextId
  nextId : w'.hub.nextId = w.hub.nextId + 1
  stored : ∃ operation, w'.db.messages = w.db.messages ++ [MessageRow.ofMessage m operation]
  seals : ∀ name, isSealed name w'.db = isSealed name w.db
  rooms : ∀ name, (w'.roomOr cfg name).history = if name = m.room then history else (w.roomOr cfg name).history

namespace Tailed

variable {cfg : Config} {w w' : World} {m : Message} {history : List Message}

theorem hushed (h : Tailed cfg w) (hh : Hushed cfg w w') : Tailed cfg w' := by
  refine ⟨⟨hh.messages ▸ h.numbered.ordered, fun row hrow => ?_⟩, fun name hs => ?_⟩
  · rw [hh.messages] at hrow
    exact (h.numbered.fresh row hrow).trans_le hh.nextId
  · obtain ⟨hs₀, hhist⟩ := hh.unsealed name hs
    unfold TailOf Db.said
    rw [hhist, hh.messages]
    exact h.tail name hs₀

end Tailed

theorem Sequenced.appended {cfg : Config} {w w' : World} {m : Message} {history : List Message} (h : Sequenced w)
    (hs : Says cfg m history w w') : Sequenced w' := by
  obtain ⟨operation, hstored⟩ := hs.stored
  refine ⟨?_, fun row hrow => ?_⟩
  · rw [hstored]
    refine List.pairwise_append.mpr ⟨h.ordered, List.pairwise_singleton _ _, fun a ha b hb => ?_⟩
    rw [List.mem_singleton.mp hb]
    exact (h.fresh a ha).trans_eq hs.id.symm
  · rw [hs.nextId]
    rw [hstored] at hrow
    rcases List.mem_append.mp hrow with hrow | hrow
    · exact Nat.lt_succ_of_lt (h.fresh row hrow)
    · rw [List.mem_singleton.mp hrow]
      exact Nat.lt_succ_of_le hs.id.le

namespace Tailed

variable {cfg : Config} {w w' : World} {m : Message} {history : List Message}

/-- The tail with the new message at its end, cut to its length or not in need of it. -/
theorem appended (h : Tailed cfg w) (hs : Says cfg m history w w')
    (hcut : isSealed m.room w'.db = false → history = ((w.roomOr cfg m.room).history ++ [m]).rtake historyLimit) :
    Tailed cfg w' := by
  obtain ⟨operation, hstored⟩ := hs.stored
  refine ⟨h.numbered.appended hs, fun name hname => ?_⟩
  have htail := h.tail name ((hs.seals name).symm.trans hname)
  have hsaid : w'.db.said name =
      if name = m.room then w.db.said name ++ [MessageRow.ofMessage m operation] else w.db.said name := by
    unfold Db.said
    rw [hstored, List.filter_append]
    split
    · next hn =>
      rw [List.filter_singleton]
      simp [MessageRow.ofMessage, hn]
    · next hn =>
      rw [List.filter_singleton]
      simp [MessageRow.ofMessage, Ne.symm hn]
  unfold TailOf at htail ⊢
  rw [hs.rooms, hsaid]
  split
  · next hn =>
    subst hn
    rw [hcut hname, map_rtake, List.map_append, htail, map_rtake, List.map_singleton, rtake_concat_rtake, map_rtake,
      List.map_append, List.map_singleton, MessageRow.toMessage_ofMessage]
    rfl
  · exact htail

end Tailed

namespace Hushed

variable {cfg : Config} {w w' : World} {room : String} {r : Room} {db : Db}

theorem refl (cfg : Config) (w : World) : Hushed cfg w w := ⟨le_refl _, rfl, fun _ hs => ⟨hs, rfl⟩⟩

theorem desk (hn : w'.hub.nextId = w.hub.nextId) (hd : SameDesk cfg w w') : Hushed cfg w w' := by
  refine ⟨hn.ge, congrArg Prod.fst hd.db.desk, fun name hs => ⟨?_, congrArg Prod.fst (hd.rooms name)⟩⟩
  rw [← hd.db.seals]
  exact hs

theorem stays (hn : w.hub.nextId ≤ w'.hub.nextId) (hs : Stays cfg w w') : Hushed cfg w w' :=
  ⟨hn, by rw [hs.db], fun name hname => ⟨hs.db ▸ hname, by rw [hs.rooms]⟩⟩

/-- Seats, mutes, bans and davets are no messages. -/
theorem reseats (hn : w'.hub.nextId = w.hub.nextId) (hr : Reseats cfg room w w') : Hushed cfg w w' := by
  obtain ⟨members, muted, banned, db, hc, he⟩ := hr
  refine ⟨hn.ge, by rw [he.db, hc.messages], fun name hs => ⟨?_, ?_⟩⟩
  · rw [he.db, hc.isSealed] at hs
    exact hs
  · rw [he.rooms, Function.update_apply]
    split
    · next hname => rw [hname]; rfl
    · rfl

end Hushed

/-! ## The calls -/

section Calls

variable {cfg : Config} {env : Env} (hp : cfg.persistent = true)

/-- A message without files goes into an unsealed room under a number that is free. -/
theorem insertMessageWithRoom_total {m : Message} {mode : ChatMode} {settings : RoomSettings} {db : Db}
    (hs : isSealed m.room db = false) (hid : ∀ row ∈ db.messages, row.id ≠ m.id) (ha : m.attachments = []) :
    ∃ db', insertMessageWithRoom m mode settings none db = .ok db' := by
  have hrow : ∃ db₁, writeRoomState m.room mode settings db = .ok db₁ ∧ db₁.messages = db.messages :=
    ⟨_, writeRoomState_ok.mpr ⟨hs, rfl⟩, rfl⟩
  obtain ⟨db₁, h₁, hm⟩ := hrow
  have hinsert : ∃ db₂, insertMessageRow m none db₁ = .ok db₂ := by
    unfold insertMessageRow
    refine ⟨_, bind_ok.mpr ⟨(), require_ok.mpr (hm ▸ hid), bind_ok.mpr ⟨(), require_ok.mpr ?_, rfl⟩⟩⟩
    exact fun _ _ hsome => absurd hsome (by decide)
  obtain ⟨db₂, h₂⟩ := hinsert
  have hrefs : ∀ db₃, writeAttachmentRefs m db₃ = .ok db₃ := by
    intro db₃
    unfold writeAttachmentRefs
    rw [ha]
    rfl
  exact ⟨_, bind_ok.mpr ⟨db₁, h₁, bind_ok.mpr ⟨db₂, h₂, hrefs _⟩⟩⟩

theorem insertMessageWithRoom_ok {m : Message} {mode : ChatMode} {settings : RoomSettings} {db db' : Db}
    (h : insertMessageWithRoom m mode settings none db = .ok db') :
    isSealed m.room db = false ∧ db'.messages = db.messages ++ [MessageRow.ofMessage m none] ∧
      ∀ name, isSealed name db' = isSealed name db := by
  simp only [insertMessageWithRoom, bind_ok] at h
  obtain ⟨db₁, h₁, h₂⟩ := h
  obtain ⟨hs, rfl⟩ := writeRoomState_ok.mp h₁
  obtain ⟨-, -, refs, pending, rfl⟩ := writeMessage_ok h₂
  exact ⟨hs, rfl, fun name => isSealed_roomRow name m.room mode settings db⟩

/-- An announcement that is stored. -/
theorem Says.announce {m : Message} {mode : ChatMode} {settings : RoomSettings} {r : Room} {db : Db} {w w' : World}
    (hid : m.id = w.hub.nextId) (hn : w'.hub.nextId = w.hub.nextId + 1)
    (hdb : insertMessageWithRoom m mode settings none w.db = .ok db)
    (he : Edits cfg m.room (r.announce m) db w w') (hr : r.history = (w.roomOr cfg m.room).history) :
    Says cfg m ((w.roomOr cfg m.room).history ++ [m]) w w' := by
  obtain ⟨-, hmessages, hseals⟩ := insertMessageWithRoom_ok hdb
  refine ⟨hid, hn, ⟨none, by rw [he.db, hmessages]⟩, fun name => by rw [he.db, hseals], fun name => ?_⟩
  · rw [he.rooms, Function.update_apply]
    split
    · rw [Room.announce, hr]
    · rfl

include hp

omit hp in
theorem store_of_ok {call : StoreCall} {tx : Db → Except StoreError Db} {w : World} {db : Db}
    (hf : env.fails call = false) (hdb : tx w.db = .ok db) (hpers : cfg.persistent = true) :
    w.store cfg env call tx = .ok (w.setDb db) := by
  unfold World.store commit
  rw [hpers, hf, if_pos rfl, if_neg (by decide), hdb]
  rfl

/-- What stands in the way of naming a lead. -/
def LeadBarred (cfg : Config) (room : String) (lead : Option String) (w : World) : Prop :=
  w.isDeleted cfg room = true ∨ isSealed room w.db = true ∨
    (lead = none ∧ (w.roomOr cfg room).goals.values.any (fun g => g.status = .active) = true)

/-- A lead is named with one announcement, or nothing is said. -/
theorem setLead_speech (room : String) (lead : Option String) (actor : String) (w : World) :
    (Hushed cfg w (setLead cfg env room lead actor w).2 ∧
      (Sequenced w → env.fails .write = false → LeadBarred cfg room lead w)) ∨
    (¬ LeadBarred cfg room lead w ∧ ∃ m, m.room = room ∧
      Says cfg m ((w.roomOr cfg room).history ++ [m]) w (setLead cfg env room lead actor w).2) := by
  unfold setLead
  split
  · next hdel => exact .inl ⟨.refl cfg w, fun _ _ => .inl hdel⟩
  · next hdel =>
    dsimp only
    split
    · next hgoal => exact .inl ⟨.refl cfg w, fun _ _ => .inr (.inr hgoal)⟩
    · next hgoal =>
      split
      · next e hs =>
        refine .inl ⟨.stays (Nat.le_succ _) ⟨rfl, rfl⟩, fun hnum hf => .inr (.inl ?_)⟩
        by_contra hns
        obtain ⟨db, hdb⟩ := insertMessageWithRoom_total (m := announcement room w.hub.nextId env.now
            (some (lead.getD "all")) (actor ++ " set @lead " ++ lead.getD "none" ++ "."))
          (Bool.eq_false_iff.mpr hns) (fun row hrow => (hnum.fresh row hrow).ne) rfl
        cases hs.symm.trans (store_of_ok (w := w.takeId) hf hdb hp)
      · next w' hs =>
        obtain ⟨db, hdb, rfl⟩ := World.store_ok hp hs
        refine .inr ⟨?_, _, rfl, Says.announce (w := w) rfl rfl hdb (.of_set rfl) rfl⟩
        rintro (h | h | h)
        · exact hdel h
        · exact absurd ((insertMessageWithRoom_ok hdb).1.symm.trans h) (by decide)
        · exact hgoal h

/-- A join request is announced, stored or not. -/
theorem announceJoinRequest_speech (name kind : String) {w : World} (hnum : Sequenced w)
    (hf : env.fails .write = false) :
    (isSealed cfg.homeRoom w.db = true ∧ Hushed cfg w (announceJoinRequest cfg env name kind w)) ∨
    ∃ m, m.room = cfg.homeRoom ∧ Says cfg m ((w.roomOr cfg cfg.homeRoom).history ++ [m]) w
      (announceJoinRequest cfg env name kind w) := by
  unfold announceJoinRequest
  dsimp only
  cases hsealed : isSealed cfg.homeRoom w.db with
  | true =>
      refine .inl ⟨rfl, ?_⟩
      split
      · -- what is not stored is remembered in a room that is sealed
        refine ⟨Nat.le_succ _, rfl, fun n hn => ⟨hn, ?_⟩⟩
        have hne : n ≠ cfg.homeRoom := by
          rintro rfl
          exact absurd (hsealed.symm.trans hn) (by decide)
        rw [World.roomOr_send, World.roomOr_setRoom, Function.update_apply, if_neg hne, World.roomOr_takeId]
      · next w' hs =>
        obtain ⟨db, hdb, rfl⟩ := World.store_ok hp hs
        exact absurd ((insertMessageWithRoom_ok hdb).1.symm.trans hsealed) (by decide)
  | false =>
      right
      obtain ⟨db, hdb⟩ := @insertMessageWithRoom_total
        (announcement cfg.homeRoom w.hub.nextId env.now
          (some ((w.roomOr cfg cfg.homeRoom).settings.lead.getD "all"))
          (name ++ " (" ++ kind ++ ") wants to join — approve or deny it in Join requests."))
        (w.roomOr cfg cfg.homeRoom).mode (w.roomOr cfg cfg.homeRoom).settings w.db
        hsealed (fun row hrow => (hnum.fresh row hrow).ne) rfl
      have hs := store_of_ok (w := w.takeId) hf hdb hp
      rw [hs]
      exact ⟨_, rfl, Says.announce (w := w) rfl rfl hdb (.of_set rfl) rfl⟩

theorem deleteRoom_hushed (room : String) (w : World) : Hushed cfg w (deleteRoom cfg env room w).2 := by
  unfold deleteRoom
  split
  · exact .refl cfg w
  · split
    · exact .refl cfg w
    · split
      · exact .refl cfg w
      · next w' hs =>
        obtain rfl := World.store_total hp hs
        refine ⟨le_refl _, rfl, fun name hname => ?_⟩
        change isSealed name (sealRoom room env.now w.db) = false at hname
        have hkeep : ∀ other, isSealed other w.db = true → isSealed other (sealRoom room env.now w.db) = true :=
          fun other h => isSealed_sealRoom other room env.now w.db (.inr h)
        have hne : name ≠ room := by
          rintro rfl
          exact absurd (hname.symm.trans (isSealed_sealRoom name name env.now w.db (.inl rfl))) (by decide)
        refine ⟨?_, ?_⟩
        · by_contra hs
          exact absurd (hname.symm.trans (hkeep name (Bool.eq_true_of_not_eq_false hs))) (by decide)
        · unfold World.roomOr World.room?
          rw [Assoc.get_del, if_neg hne]
          rfl

theorem admitMember_hushed (name kind admittedBy : String) (w : World) :
    Hushed cfg w (admitMember cfg env name kind admittedBy w).2 := by
  refine .reseats ?_ (admitMember_spec hp "" name kind admittedBy w)
  unfold admitMember
  split
  · rfl
  · dsimp only
    split
    · rfl
    · next hs => exact (congrArg Prod.fst (World.desk_store hs) :)

theorem inviteMemberToRoom_hushed (member room issuedBy : String) (w : World) :
    Hushed cfg w (inviteMemberToRoom cfg env member room issuedBy w).2 := by
  refine .reseats ?_ (inviteMemberToRoom_spec hp member room issuedBy w)
  unfold inviteMemberToRoom
  split
  · rfl
  · split
    · rfl
    · split
      · rfl
      · dsimp only
        split
        · rfl
        · split
          · rfl
          · split
            · rfl
            · split
              · rfl
              · next hs => exact (congrArg Prod.fst (World.desk_store hs) :)

theorem revokeDavet_hushed (token : String) (w : World) : Hushed cfg w (revokeDavet cfg env token w).2 := by
  refine .reseats ?_ (revokeDavet_spec hp "" token w)
  unfold revokeDavet
  split
  · rfl
  · split
    · rfl
    · next hs => exact (congrArg Prod.fst (World.desk_closeConnections _ _ _) :).trans (congrArg Prod.fst (World.desk_store hs) :)

theorem revokeMember_hushed (token : String) (w : World) : Hushed cfg w (revokeMember cfg env token w).2 := by
  refine .reseats ?_ (revokeMember_spec hp "" token w)
  unfold revokeMember
  split
  · rfl
  · split
    · rfl
    · next hs => exact (congrArg Prod.fst (World.desk_closeAll _ _ _ _) :).trans (congrArg Prod.fst (World.desk_store hs) :)

theorem moderate_hushed (room : String) (action : ModAction) (name : String) (w : World) :
    Hushed cfg w (moderate cfg env room action name w).2 := by
  refine .reseats ?_ (moderate_spec hp room action name w)
  have hfirst : ∀ {w'}, moderateStore cfg env room action name w = .ok w' → w'.hub.nextId = w.hub.nextId := by
    intro w' h
    unfold moderateStore at h
    cases action with
    | kick => cases h; rfl
    | release => cases h; rfl
    | mute => exact congrArg Prod.fst (World.desk_store h)
    | unmute => exact congrArg Prod.fst (World.desk_store h)
    | ban => exact congrArg Prod.fst (World.desk_store h)
    | unban => exact congrArg Prod.fst (World.desk_store h)
  have hsecond : ∀ {w₁ w₂ : World}, w₁.revokeInvitesFor cfg env room name = .ok w₂ →
      w₂.hub.nextId = w₁.hub.nextId := by
    intro w₁ w₂ h
    unfold World.revokeInvitesFor at h
    dsimp only at h
    split at h
    · cases h; rfl
    · simp only [bind_ok, pure_ok] at h
      obtain ⟨w₃, h₃, rfl⟩ := h
      exact (congrArg Prod.fst (World.desk_closeAll (fun _ => room) (fun _ => name) _ _) :).trans
        (congrArg Prod.fst (World.desk_store h₃) :)
  unfold moderate
  split
  · rfl
  · split
    · rfl
    · next w₁ h₁ =>
      dsimp only
      split
      · exact (hfirst h₁ :)
      · next w₂ h₂ =>
        split at h₂
        · exact (hsecond h₂).trans (hfirst h₁)
        · cases h₂
          exact (hfirst h₁ :)

end Calls

/-! ## Posts -/

section Posts

variable {cfg : Config} {env : Env} (hp : cfg.persistent = true)
include hp

omit hp in
theorem accept_nextId (q : PostRequest) (r : Room) (db : Db) (d : PostDraft) (w : World) :
    (d.accept cfg env q r db w).hub.nextId = w.hub.nextId + 1 :=
  Sys.foldl_rel (R := fun a b : World => b.hub.nextId = a.hub.nextId) (fun _ => rfl) (fun _ _ _ h h' => h'.trans h)
    (f := fun w s => World.noteDelivery s w) (fun _ _ => rfl) d.deliveries
    (d.count ((w.setRoom q.room (d.mirror env q db r)).setDb db))

omit hp in
/-- A post's transaction seals no room and unseals none. -/
theorem persist_seals {now : Nat} {q : PostRequest} {r : Room} {d : PostDraft} {db db' : Db}
    (hroom : d.msg.room = q.room) (h : d.persist cfg now q r db = .ok db') (name : String) :
    isSealed name db' = isSealed name db := by
  obtain ⟨-, -, -, refs, pending, rfl⟩ := persist_ok hroom h
  show (d.roomRows q r db.rooms).any _ = _
  unfold PostDraft.roomRows
  cases d.moved with
  | none => rfl
  | some mode => exact isSealed_roomRow name q.room mode r.settings db

omit hp in
/-- The message at the end of the tail, cut to its length. -/
theorem mirror_history (q : PostRequest) (db : Db) (d : PostDraft) (r : Room) :
    (d.mirror env q db r).history = (r.history ++ [d.msg]).rtake historyLimit := by
  obtain ⟨marks, atts, hm⟩ := @mirror_eq env q db d r
  obtain ⟨times, ht⟩ := stampRate_eq q env.now r
  obtain ⟨ops, ord, ho⟩ := rememberOperation_eq q.operation d.msg (q.stampRate env.now r)
  rw [hm]
  unfold PostDraft.heard Room.appendHistory List.rtake
  rw [ho, ht]
  dsimp only [Room.setMode?]

/-- A post under the lock says nothing, or says its message and cuts the tail. -/
theorem postLocked_speech (q : PostRequest) (attachments : List Attachment) (w : World) :
    Hushed cfg w (postLocked cfg env q attachments w).2 ∨
    ∃ m, m.room = q.room ∧ Says cfg m (((w.roomOr cfg q.room).history ++ [m]).rtake historyLimit) w
      (postLocked cfg env q attachments w).2 := by
  rcases postLocked_cases cfg env q attachments w with ⟨m, -, hl⟩ | ⟨e, w', hl, href⟩ | ⟨r, d, db, hacc, hl⟩
  · rw [hl]
    exact .inl (.stays (le_refl _) (.enter cfg q.room w))
  · rw [hl]
    refine .inl ⟨href.nextId, by rw [href.db], fun name hs => ⟨href.db ▸ hs, ?_⟩⟩
    obtain ⟨r, hr, hroom⟩ := href.room
    obtain ⟨times, hexp⟩ := expireStamps_eq q env.now (w.roomOr cfg q.room)
    by_cases hn : name = q.room
    · subst hn
      rw [World.roomOr_of_some hroom]
      rcases hr with rfl | rfl
      · rfl
      · rw [hexp]
    · unfold World.roomOr
      rw [href.others name hn]
  · right
    rw [hl]
    obtain ⟨author, hd⟩ := hacc.draft
    have hroom : d.msg.room = q.room := by rw [hd]; rfl
    have hstored : d.persist cfg env.now q r w.db = .ok db := by
      rcases commit_ok.mp hacc.stored with ⟨-, -, h⟩ | ⟨hn, -⟩
      · exact h
      · exact absurd (hp.symm.trans hn) (by decide)
    obtain ⟨-, -, -, refs, pending, hdb⟩ := persist_ok hroom hstored
    have he := @count_accept cfg env q r db d w
    refine ⟨d.msg, hroom, by rw [hd]; rfl, accept_nextId q r db d w, ⟨q.operation, by rw [he.db, hdb]⟩, fun name => ?_,
      fun name => ?_⟩
    · rw [he.db, persist_seals hroom hstored]
    · rw [he.rooms, Function.update_apply, hroom]
      split
      · obtain ⟨times, hexp⟩ := expireStamps_eq q env.now (w.roomOr cfg q.room)
        rw [mirror_history, hacc.room, hexp]
      · rfl

end Posts

/-! ## Starting -/

/-- What is read back is the tail. -/
theorem loadHistory_tail {db : Db} (h : db.messages.Pairwise fun a b => a.id < b.id) (name : String) :
    (loadHistory name db).map Message.core = ((db.said name).rtake historyLimit).map MessageRow.toMessage := by
  rw [← archive_eq h]
  show (((archive name db).rtake historyLimit).map MessageRow.toMessage).map Message.core = _
  rw [List.map_map]
  rfl

theorem loadRoom_history (name : String) (db : Db) : (loadRoom name db).history = loadHistory name db := by
  unfold loadRoom
  dsimp only

/-- After a start the counter is past every row. -/
theorem build_nextId (cfg : Config) (env : Env) (clock : Nat) (db : Db) :
    (build cfg env clock db).hub.nextId = maxMessageId db + 1 := by
  have hfold : ∀ {α : Type} (f : World → α → World), (∀ w a, (f w a).hub.nextId = w.hub.nextId) →
      ∀ (l : List α) (w : World), (l.foldl f w).hub.nextId = w.hub.nextId :=
    fun f hf l w => Sys.foldl_rel (R := fun a b : World => b.hub.nextId = a.hub.nextId) (fun _ => rfl)
      (fun _ _ _ h h' => h'.trans h) hf l w
  have hoperator : ∀ w room, (migrateOperator env clock w room).hub.nextId = w.hub.nextId := by
    intro w room
    unfold migrateOperator
    split
    · rfl
    · split
      · rfl
      · split
        · rfl
        · dsimp only
          split <;> rfl
  have hinvite : ∀ w inv, (migrateInvite cfg env w inv).hub.nextId = w.hub.nextId := by
    intro w inv
    unfold migrateInvite
    cases w.hub.members.values.find? fun m => m.name = inv.name <;> rfl
  have hreserved : ∀ w, (cleanReserved cfg env w).hub.nextId = w.hub.nextId := by
    intro w
    unfold cleanReserved
    split
    · rfl
    · refine hfold _ (fun w i => ?_) _ w
      rfl
  unfold build loadBans migrateInvites
  refine (hfold (loadBan cfg) (fun _ _ => rfl) _ _).trans ?_
  refine (hreserved _).trans ((hfold _ hinvite _ _).trans ((hfold _ hoperator _ _).trans ?_))
  show maxMessageId _ + 1 = _
  unfold maxMessageId
  rw [(ensureMasterPrincipal_content cfg.digests cfg.adminToken cfg.masterName env.now db).messages]

/-- A start reads the tails back and counts on from the last number. -/
theorem build_tailed (cfg : Config) (env : Env) (clock : Nat) {db : Db}
    (h : db.messages.Pairwise fun a b => a.id < b.id) : Tailed cfg (build cfg env clock db) := by
  have hstart : (build cfg env clock db).db.messages = db.messages ∧
      ∀ name, isSealed name (build cfg env clock db).db = false → TailOf cfg (build cfg env clock db) name := by
    refine build_rule (P := fun w => w.db.messages = db.messages ∧
      ∀ name, isSealed name w.db = false → TailOf cfg w name) ?_ ?_ ?_ ?_ ?_
    · intro db₀ hc
      refine ⟨hc.messages, fun name hs => ?_⟩
      change isSealed name db₀ = false at hs
      unfold TailOf World.roomOr
      rw [room?_restored]
      show _ = ((db₀.said name).rtake historyLimit).map _
      split
      · rw [Option.getD_some, loadRoom_history]
        exact loadHistory_tail (hc.messages ▸ h) name
      · next hl =>
        have hnone : db₀.said name = [] := by
          refine List.filter_eq_nil_iff.mpr fun row hrow hn => hl ?_
          have hroom : row.room = name := by simpa using hn
          refine List.mem_filter.mpr ⟨?_, ?_⟩
          · rw [knownRooms, List.mem_dedup, mem_orderBy]
            have hmem := List.mem_map_of_mem (f := MessageRow.room) hrow
            rw [hroom] at hmem
            simp only [List.mem_append]
            tauto
          · have hns : name ∉ sealedRooms db₀ := fun hm => by
              rw [mem_sealedRooms, hs] at hm
              cases hm
            simpa using hns
        rw [hnone]
        rfl
    · rintro w room ⟨hm, ht⟩
      rcases migrateOperator_spec env clock w room with ⟨hr, hc⟩ | ⟨r, st, db₁, db₂, hr, -, hc, hs, he⟩
      · refine ⟨hc.messages.trans hm, fun name hn => ?_⟩
        unfold TailOf Db.said
        rw [World.roomOr_of_rooms hr, hc.messages]
        exact ht name (hc.isSealed name ▸ hn)
      · obtain ⟨-, rfl⟩ := saveRoom_ok hs
        rw [he]
        refine ⟨hc.messages.trans hm, fun name hn => ?_⟩
        have hn₀ : isSealed name w.db = false :=
          (hc.isSealed name).symm.trans ((isSealed_roomRow name room r.mode st db₁).symm.trans hn)
        unfold TailOf
        rw [World.roomOr_setRoom, Function.update_apply]
        have htail := ht name hn₀
        unfold TailOf Db.said at htail
        rw [← hc.messages] at htail
        split
        · next hname =>
          rw [hname, World.roomOr_of_some hr] at htail
          rw [hname]
          exact htail
        · exact htail
    · rintro w w' ⟨hm, ht⟩ hr hc
      refine ⟨hc.messages.trans hm, fun name hn => ?_⟩
      unfold TailOf Db.said
      rw [World.roomOr_of_rooms hr, hc.messages]
      exact ht name (hc.isSealed name ▸ hn)
    · rintro w ⟨hm, ht⟩
      refine ⟨hm, fun name hn => ?_⟩
      unfold TailOf ensureHome
      rw [World.roomOr_setRoom, Function.update_apply]
      split
      · next hname =>
        rw [hname]
        refine Eq.trans ?_ (ht cfg.homeRoom (hname ▸ hn))
        split <;> rfl
      · exact ht name hn
    · rintro w b - ⟨hm, ht⟩
      refine ⟨hm, fun name hn => ?_⟩
      unfold TailOf loadBan
      rw [World.roomOr_setRoom, Function.update_apply]
      split
      · next hname =>
        rw [hname]
        refine Eq.trans ?_ (ht b.room (hname ▸ hn))
        split
        · rfl
        · split <;> rfl
      · exact ht name hn
  refine ⟨⟨hstart.1 ▸ h, fun row hrow => ?_⟩, hstart.2⟩
  rw [hstart.1] at hrow
  rw [build_nextId]
  exact Nat.lt_succ_of_le (le_maxOf (List.mem_map_of_mem hrow))

/-! ## Runs -/

/-- An announcement, where it is made, finds less than a full tail. -/
def Roomy (cfg : Config) (s : Server) : HubInput → Prop
  | .call _ (.setLead room lead _) =>
      LeadBarred cfg room lead s.world ∨ (s.world.roomOr cfg room).history.length < historyLimit
  | .call _ (.announceJoinRequest ..) =>
      isSealed cfg.homeRoom s.world.db = true ∨ (s.world.roomOr cfg cfg.homeRoom).history.length < historyLimit
  | _ => True

section Runs

variable {cfg : Config} (hp : cfg.persistent = true)
include hp

omit hp in
/-- A tail that is not full is not in need of the cut. -/
theorem cut_of_lt {l : List Message} (m : Message) (h : l.length < historyLimit) :
    l ++ [m] = (l ++ [m]).rtake historyLimit := by
  refine (rtake_eq_self ?_).symm
  rw [List.length_append, List.length_singleton]
  exact h

theorem call_tailed {env : Env} {s : Server} (c : HubCall) (hf : ∀ call, env.fails call = false)
    (hroomy : Roomy cfg s (.call env c)) (h : Tailed cfg s.world) : Tailed cfg (c.run cfg env s.world).2 := by
  cases hc : c.atDesk with
  | false => exact h.hushed (.desk (congrArg Prod.fst (call_desk cfg env c hc s.world)) (call_sameDesk hp c hc s.world))
  | true =>
      cases c with
      | setLead room lead actor =>
          rcases @setLead_speech cfg env hp room lead actor s.world with ⟨hh, -⟩ | ⟨hb, m, rfl, hspeech⟩
          · exact h.hushed hh
          · refine h.appended hspeech fun _ => cut_of_lt m ?_
            rcases hroomy with hbar | hlt
            · exact absurd hbar hb
            · exact hlt
      | announceJoinRequest name kind =>
          rcases announceJoinRequest_speech hp name kind h.numbered (hf .write) with ⟨-, hh⟩ | ⟨m, hm, hspeech⟩
          · exact h.hushed hh
          · rw [← hm] at hspeech
            refine h.appended hspeech fun hs => cut_of_lt m ?_
            rcases hroomy with hbar | hlt
            · rw [hm] at hs
              exact absurd ((hs.symm.trans (hspeech.seals _)).trans hbar) (by decide)
            · rw [hm]
              exact hlt
      | deleteRoom room => exact h.hushed (deleteRoom_hushed hp room s.world)
      | admitMember name kind admittedBy => exact h.hushed (admitMember_hushed hp name kind admittedBy s.world)
      | inviteMemberToRoom member room issuedBy =>
          exact h.hushed (inviteMemberToRoom_hushed hp member room issuedBy s.world)
      | revokeDavet token => exact h.hushed (revokeDavet_hushed hp token s.world)
      | revokeMember token => exact h.hushed (revokeMember_hushed hp token s.world)
      | moderate room action name => exact h.hushed (moderate_hushed hp room action name s.world)
      | _ => cases hc

theorem step_tailed {s : Server} (i : HubInput) (hf : ∀ call, i.env.fails call = false) (hroomy : Roomy cfg s i)
    (h : Tailed cfg s.world) : Tailed cfg (s.step cfg i).2.world := by
  rcases serverStep_world cfg s i with hs | ⟨env, c, rfl, hs⟩ | ⟨env, k, q, attachments, posts, -, -, hs⟩ |
    ⟨env, clock, -, hs⟩
  · rw [hs]; exact h
  · rw [hs]; exact call_tailed hp c hf hroomy h
  · rw [hs]
    rcases @postLocked_speech cfg env hp q attachments s.world with hh | ⟨m, hm, hspeech⟩
    · exact h.hushed hh
    · exact h.appended hspeech fun _ => by rw [hm]
  · rw [hs]
    exact (build_tailed cfg env clock h.numbered.ordered).hushed ⟨le_refl _, rfl, fun _ hn => ⟨hn, rfl⟩⟩

theorem run_tailed {tr : List (HubInput × HubAnswer)} {s : Server}
    (r : Sys.Run (hubMachine cfg) (fun s i => (∀ call, i.env.fails call = false) ∧ Roomy cfg s i) tr s) :
    Tailed cfg s.world := by
  refine Sys.Run.invariant (I := fun s => Tailed cfg s.world) ?_ ?_ r
  · rintro s ⟨env, clock, rfl⟩
    exact build_tailed cfg env clock List.Pairwise.nil
  · rintro s i h ⟨hf, hroomy⟩
    exact step_tailed hp i hf hroomy h

omit hp in
/-- One more than a full tail is no tail. -/
theorem Says.overfull {m : Message} {w w' : World} {name : String} (hm : m.room = name)
    (hs : Says cfg m ((w.roomOr cfg name).history ++ [m]) w w') (hsealed : isSealed name w.db = false)
    (hfull : historyLimit ≤ (w.roomOr cfg name).history.length) : ¬ HotTails cfg w' := by
  intro h
  have hhist := hs.rooms name
  rw [if_pos hm.symm] at hhist
  cases hr : w'.room? name with
  | none =>
      have hnil : (w'.roomOr cfg name).history = [] := by rw [World.roomOr, hr]; rfl
      exact absurd (hnil.symm.trans hhist) (by simp)
  | some r =>
      have hbound := (h name r hr ((hs.seals name).trans hsealed)).bounded
      rw [← show w'.roomOr cfg name = r from World.roomOr_of_some hr, hhist, List.length_append,
        List.length_singleton] at hbound
      omega

/-- Along every run in which no call to the store fails and every announcement finds less than a
full tail, what is in memory is the tail of the archive, and the archive can be paged through; the
first announcement that finds a full one ends that. -/
theorem hot_tail_is_the_tail {tr : List (HubInput × HubAnswer)} {s : Server}
    (r : Sys.Run (hubMachine cfg) (fun s i => (∀ call, i.env.fails call = false) ∧ Roomy cfg s i) tr s) :
    HotTails cfg s.world ∧ ∀ i, (∀ call, i.env.fails call = false) → ¬ Roomy cfg s i →
      ¬ HotTails cfg (s.step cfg i).2.world := by
  have h := run_tailed hp r
  refine ⟨h.hotTails hp, fun i hf hcrowded => ?_⟩
  cases i with
  | call env c =>
      cases c with
      | setLead room lead actor =>
          obtain ⟨hb, hlen⟩ := not_or.mp hcrowded
          rcases @setLead_speech cfg env hp room lead actor s.world with ⟨-, hbar⟩ | ⟨-, m, hm, hspeech⟩
          · exact absurd (hbar h.numbered (hf .write)) hb
          · exact hspeech.overfull hm (Bool.eq_false_iff.mpr fun hs => hb (.inr (.inl hs))) (Nat.le_of_not_lt hlen)
      | announceJoinRequest name kind =>
          obtain ⟨hs, hlen⟩ := not_or.mp hcrowded
          rcases announceJoinRequest_speech hp name kind h.numbered (hf .write) with ⟨hb, -⟩ | ⟨m, hm, hspeech⟩
          · exact absurd hb hs
          · exact hspeech.overfull hm (Bool.eq_false_iff.mpr hs) (Nat.le_of_not_lt hlen)
      | _ => exact absurd trivial hcrowded
  | _ => exact absurd trivial hcrowded

end Runs

/-- A lead is named, something is said, and the server restarts. -/
def tailInputs : List HubInput :=
  let env := sampleEnv 1000 fun _ => false
  [.call env (.setLead "den" (some "ann") "bob"), .post env samplePost, .advance env 0, .advance env 0,
    .restart env 1000]

def tailServer : Server := ((hubMachine sampleConfig).exec tailInputs [] sampleServer).2

theorem hot_tail_is_the_tail_sample :
    ((tailServer.world.room? "den").map fun r => r.history.map Message.id) = some [1, 2] ∧
      HotTails sampleConfig tailServer.world ∧ ∀ i, (∀ call, i.env.fails call = false) →
        ¬ Roomy sampleConfig tailServer i → ¬ HotTails sampleConfig (tailServer.step sampleConfig i).2.world := by
  refine ⟨by decide +kernel, ?_⟩
  refine hot_tail_is_the_tail rfl (Sys.Run.exec tailInputs ?_ (.nil ⟨_, _, rfl⟩))
  exact ⟨⟨fun _ => rfl, .inr (by decide +kernel)⟩, ⟨fun _ => rfl, trivial⟩, ⟨fun _ => rfl, trivial⟩,
    ⟨fun _ => rfl, trivial⟩, ⟨fun _ => rfl, trivial⟩, trivial⟩

/-- One join request after the other. -/
def knock : HubInput := .call (sampleEnv 1000 fun _ => false) (.announceJoinRequest "eve" "agent")

def knockedServer : Nat → Server
  | 0 => sampleServer
  | n + 1 => ((knockedServer n).step sampleConfig knock).2

/-- Each of them is one more message in the home loca. -/
theorem knockedServer_history (n : Nat) :
    Sequenced (knockedServer n).world ∧ isSealed sampleConfig.homeRoom (knockedServer n).world.db = false ∧
      ((knockedServer n).world.roomOr sampleConfig sampleConfig.homeRoom).history.length = n := by
  induction n with
  | zero => exact ⟨(build_tailed sampleConfig _ _ List.Pairwise.nil).numbered, by decide +kernel, by decide +kernel⟩
  | succ n ih =>
      obtain ⟨hnum, hs, hlen⟩ := ih
      rcases @announceJoinRequest_speech sampleConfig (sampleEnv 1000 fun _ => false) rfl "eve" "agent" _ hnum rfl
        with ⟨hb, -⟩ | ⟨m, hm, hspeech⟩
      · exact absurd (hs.symm.trans hb) (by decide)
      · refine ⟨hnum.appended hspeech, (hspeech.seals _).trans hs, ?_⟩
        have hhist := hspeech.rooms sampleConfig.homeRoom
        rw [if_pos hm.symm] at hhist
        refine (congrArg List.length hhist).trans ?_
        rw [List.length_append, List.length_singleton, hlen]

/-- After 201 of them the home loca remembers 201 messages. -/
theorem knocks_overfill_home :
    ∃ (tr : List (HubInput × HubAnswer)) (s : Server),
      Sys.Run (hubMachine sampleConfig) (fun _ i => ∀ call, i.env.fails call = false) tr s ∧
        ¬ HotTails sampleConfig s.world := by
  have hrun : ∀ n, ∃ tr, Sys.Run (hubMachine sampleConfig) (fun _ i => ∀ call, i.env.fails call = false) tr
      (knockedServer n) := by
    intro n
    induction n with
    | zero => exact ⟨[], .nil ⟨_, _, rfl⟩⟩
    | succ n ih =>
        obtain ⟨tr, hrun⟩ := ih
        exact ⟨_, hrun.snoc knock fun _ => rfl⟩
  obtain ⟨tr, hrun⟩ := hrun (historyLimit + 1)
  obtain ⟨-, hs, hlen⟩ := knockedServer_history (historyLimit + 1)
  refine ⟨tr, _, hrun, fun h => ?_⟩
  cases hr : (knockedServer (historyLimit + 1)).world.room? sampleConfig.homeRoom with
  | none =>
      rw [World.roomOr, hr] at hlen
      exact absurd hlen.symm (Nat.succ_ne_zero _)
  | some r =>
      rw [World.roomOr_of_some hr] at hlen
      have hbound := (h _ r hr hs).bounded
      omega

end Loca
