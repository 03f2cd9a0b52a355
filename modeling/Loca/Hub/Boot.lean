/-
# `Loca.Hub.Boot` — what a start does

`build` restores the rooms and then takes a few steps over them.  `build_rule` is the way
to prove a fact about the server after a start: it holds of the restored rooms, and each
kind of step keeps it.  Most steps touch tables and maps that no room mirrors; the one that
writes a room's row is the migration of legacy operator names, and `migrateOperator_spec`
says what it does.
-/
import Loca.Hub.Build
import Loca.Hub.Effect

namespace Loca

open Check

/-- The databases agree on what rooms mirror, and on bans. -/
structure SameRooms (db db' : Db) : Prop extends SameContent db db' where
  bans : db'.bans = db.bans

theorem SameRooms.refl (db : Db) : SameRooms db db := ⟨.refl db, rfl⟩

theorem SameRooms.trans {db₁ db₂ db₃ : Db} (h : SameRooms db₁ db₂) (h' : SameRooms db₂ db₃) :
    SameRooms db₁ db₃ :=
  ⟨h.toSameContent.trans h'.toSameContent, h'.bans.trans h.bans⟩

/-- Other tables may differ. -/
theorem SameRooms.of_eq {db db' : Db} (hm : db'.messages = db.messages) (hn : db'.notes = db.notes)
    (hv : db'.noteRevisions = db.noteRevisions) (ht : db'.tasks = db.tasks)
    (hg : db'.goals = db.goals) (hw : db'.waits = db.waits) (hj : db'.journal = db.journal)
    (hr : db'.rooms = db.rooms) (hc : db'.care = db.care) (hb : db'.bans = db.bans) :
    SameRooms db db' :=
  ⟨⟨hm, hn, hv, ht, hg, hw, hj, hr, hc⟩, hb⟩

theorem appointLocaOperator_content {room principal appointer : String} {now : Nat} {db db' : Db}
    (h : appointLocaOperator room principal appointer now db = .ok db') : SameRooms db db' := by
  have hinsert : ∀ {role : BuildingRole} {db₁ db₂ : Db},
      insertAssignment room principal appointer role now db₁ = .ok db₂ → SameRooms db₁ db₂ := by
    intro role db₁ db₂ hi
    simp only [insertAssignment, bind_ok, require_ok, pure_ok, exists_const] at hi
    obtain ⟨-, rfl⟩ := hi
    exact .of_eq rfl rfl rfl rfl rfl rfl rfl rfl rfl rfl
  simp only [appointLocaOperator, bind_ok] at h
  obtain ⟨-, -, role, -, h⟩ := h
  split at h
  · exact hinsert h
  · split at h
    · cases h; exact .refl _
    · simp only [bind_ok, require_ok, exists_const] at h
      have hsame := hinsert h.2
      exact .of_eq hsame.messages hsame.notes hsame.noteRevisions hsame.tasks hsame.goals hsame.waits
        hsame.journal hsame.rooms hsame.care hsame.bans

theorem bindOperator_content (env : Env) (room : String) (settings : RoomSettings) (db : Db) :
    SameRooms db (bindOperator env room settings db).2 := by
  unfold bindOperator
  split
  · exact .refl _
  · split
    · split
      · split
        · next hdb => exact appointLocaOperator_content hdb
        · exact .refl _
      · exact .refl _
    · exact .refl _

/-- A room's legacy operators are dropped from its settings, in memory and on disk, or
nothing happens to it. -/
theorem migrateOperator_spec (env : Env) (clock : Nat) (w : World) (room : String) :
    ((migrateOperator env clock w room).hub.rooms = w.hub.rooms ∧
      SameRooms w.db (migrateOperator env clock w room).db) ∨
    ∃ r settings db₁ db, w.room? room = some r ∧ settings = { r.settings with operators := [] } ∧
      SameRooms w.db db₁ ∧ saveRoom room r.mode settings clock db₁ = .ok db ∧
      migrateOperator env clock w room =
        (w.setDb db).setRoom room { r with settings := settings } := by
  unfold migrateOperator
  split
  · exact .inl ⟨rfl, .refl _⟩
  · next r hr =>
    split
    · exact .inl ⟨rfl, .refl _⟩
    · have hc := bindOperator_content env room r.settings w.db
      split
      · next db hb =>
        rw [hb] at hc
        exact .inl ⟨rfl, hc⟩
      · next db hb =>
        rw [hb] at hc
        dsimp only
        split
        · exact .inl ⟨rfl, hc⟩
        · next db' hdb =>
          rcases commit_ok.mp hdb with ⟨-, -, hs⟩ | ⟨hn, -⟩
          · exact .inr ⟨r, _, db, db', hr, rfl, hc, hs, rfl⟩
          · cases hn

theorem ensureMasterPrincipal_content (h : Digests) (root name : String) (now : Nat) (db : Db) :
    SameRooms db (ensureMasterPrincipal h root name now db) := by
  unfold ensureMasterPrincipal
  split
  · exact .refl _
  · exact .of_eq rfl rfl rfl rfl rfl rfl rfl rfl rfl rfl

theorem migrateInvite_spec (cfg : Config) (env : Env) (w : World) (inv : Invite) :
    (migrateInvite cfg env w inv).hub.rooms = w.hub.rooms ∧
      SameRooms w.db (migrateInvite cfg env w inv).db := by
  have hinsert : ∀ (i : Invite) (db db' : Db), insertInvite i db = .ok db' → SameRooms db db' := by
    intro i db db' hi
    simp only [insertInvite, bind_ok, pure_ok] at hi
    obtain ⟨-, -, rfl⟩ := hi
    exact .of_eq rfl rfl rfl rfl rfl rfl rfl rfl rfl rfl
  unfold migrateInvite
  split
  next w₁ member hm =>
  have hw₁ : w₁.hub.rooms = w.hub.rooms ∧ SameRooms w.db w₁.db := by
    split at hm
    · cases hm
      exact ⟨rfl, .refl _⟩
    · cases hm
      exact ⟨rfl, .of_eq rfl rfl rfl rfl rfl rfl rfl rfl rfl rfl⟩
  refine ⟨hw₁.1, ?_⟩
  dsimp only
  split
  · next db' hi => exact hw₁.2.trans (hinsert _ _ db' hi)
  · exact hw₁.2

/-- The rooms that `load` leaves: every known, unsealed one, as its rows say. -/
theorem room?_restored (db : Db) (name : String) :
    (restored db).room? name = if name ∈ loadedRooms db then some (loadRoom name db) else none := by
  suffices h : ∀ (l : List String) (m : Assoc String Room),
      (l.foldl (fun (m : Assoc String Room) n => m.put n (loadRoom n db)) m).get name =
        if name ∈ l then some (loadRoom name db) else m.get name from h (loadedRooms db) ∅
  intro l
  induction l with
  | nil => intro m; simp
  | cons n l ih =>
      intro m
      rw [List.foldl_cons, ih, Assoc.get_put]
      by_cases hl : name ∈ l
      · simp [hl]
      · by_cases hn : name = n
        · simp [hn]
        · simp [hl, hn]

/-- A fact about the server after a start. -/
theorem build_rule {cfg : Config} {env : Env} {clock : Nat} {db : Db} {P : World → Prop}
    (restored : ∀ db₀, SameRooms db db₀ → P (restored db₀))
    (operator : ∀ w room, P w → P (migrateOperator env clock w room))
    (quiet : ∀ w w', P w → w'.hub.rooms = w.hub.rooms → SameRooms w.db w'.db → P w')
    (home : ∀ w, P w → P (ensureHome cfg w))
    (ban : ∀ w, ∀ b ∈ w.db.bans, P w → P (loadBan cfg w b)) : P (build cfg env clock db) := by
  have hfold : ∀ {α : Type} {f : World → α → World}, (∀ w a, P w → P (f w a)) →
      ∀ (l : List α) (w : World), P w → P (l.foldl f w) := by
    intro α f hf l
    induction l with
    | nil => exact fun w hw => hw
    | cons a l ih => exact fun w hw => ih _ (hf w a hw)
  have hinvites : ∀ w, P w → P (migrateInvites cfg env w) :=
    fun w hw => hfold (fun w i hw => quiet w _ hw (migrateInvite_spec cfg env w i).1
      (migrateInvite_spec cfg env w i).2) _ w hw
  have hreserved : ∀ w, P w → P (cleanReserved cfg env w) := by
    intro w hw
    unfold cleanReserved
    split
    · exact hw
    · refine hfold (fun w i hw => ?_) _ w hw
      exact quiet w _ hw rfl (.of_eq rfl rfl rfl rfl rfl rfl rfl rfl rfl rfl)
  have hrooms : ∀ w, P w → P ((Assoc.inOrder env.order w.hub.rooms.keys).foldl
      (migrateOperator env clock) w) := fun w hw => hfold operator _ w hw
  -- the loop runs over the bans of the database, which it does not change
  have hbans : ∀ (l : List BanRow) (w : World), (∀ b ∈ l, b ∈ w.db.bans) → P w →
      P (l.foldl (loadBan cfg) w) := by
    intro l
    induction l with
    | nil => exact fun w _ hw => hw
    | cons b l ih =>
        intro w hl hw
        exact ih _ (fun b' hb' => hl b' (List.mem_cons_of_mem _ hb'))
          (ban w b (hl b List.mem_cons_self) hw)
  have h₀ := restored _ (ensureMasterPrincipal_content cfg.digests cfg.adminToken cfg.masterName
    env.now db)
  exact quiet _ _ (hbans _ _ (fun _ hb => hb) (home _ (hreserved _ (hinvites _ (hrooms _ h₀))))) rfl
    (.refl _)

end Loca
