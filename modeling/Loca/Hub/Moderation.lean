/-
# `Loca.Hub.Moderation` — who is muted, banned or invited

A moderation action writes first and changes memory after.  `World.standing` and `Db.standing` say
who is banned, muted or invited in a loca, in memory and on disk, and `ModAction.decide` what an
action makes of that.

A ban writes twice, the ban and then the end of the davets, and the second write may fail when the
first went through: the ban is then on disk alone, and the next start brings it into force.  Along
every run without such a ban (`TornBan`) both sides agree, an action that is refused changes
neither, and one that is carried out changes both.
-/
import Loca.Hub.Assignment
import Loca.Hub.Tail

namespace Loca

open Check Mirror Table

/-! ## Standing -/

/-- Who is banned, muted or invited in one loca. -/
@[ext]
structure Standing where
  banned : String → Prop
  muted : String → Prop
  invited : Invite → Prop

/-- As memory has it. -/
def World.standing (cfg : Config) (room : String) (w : World) : Standing where
  banned who := who ∈ (w.roomOr cfg room).banned
  muted who := who ∈ (w.roomOr cfg room).muted
  invited i := i.room = room ∧ w.hub.invites.get i.token = some i

/-- The ban or mute is stored. -/
def Db.barred (room kind who : String) (db : Db) : Prop :=
  ∃ b ∈ db.bans, b.room = room ∧ b.kind = kind ∧ b.name = who

/-- As the tables have it. -/
def Db.standing (room : String) (db : Db) : Standing where
  banned := fun who => db.barred room "ban" who
  muted := fun who => db.barred room "mute" who
  invited i := i.room = room ∧ i ∈ loadInvites db

/-- What an action on a name means. -/
def ModAction.decide (action : ModAction) (name : String) (s : Standing) : Standing :=
  match action with
  | .mute => { s with muted := fun who => who = name ∨ s.muted who }
  | .unmute => { s with muted := fun who => who ≠ name ∧ s.muted who }
  | .ban => { s with
      banned := fun who => who = name ∨ s.banned who
      invited := fun i => i.name ≠ name ∧ s.invited i }
  | .unban => { s with banned := fun who => who ≠ name ∧ s.banned who }
  | .kick | .release => { s with invited := fun i => i.name ≠ name ∧ s.invited i }

/-- A ban that is stored while the end of the davets is not. -/
def TornBan (env : Env) (room : String) (action : ModAction) (name : String) (w : World) : Prop :=
  action = .ban ∧ env.fails .write = false ∧ env.fails .revokeInvites = true ∧
    ∃ i ∈ w.hub.invites.values, i.room = room ∧ i.name = name

/-- What a moderation call does that is no torn ban. -/
structure Moderated (cfg : Config) (env : Env) (room : String) (action : ModAction) (name : String)
    (w : World) : Prop where
  /-- Refused, it changes nothing. -/
  refused : ∀ e, (moderate cfg env room action name w).1 = .error e → (moderate cfg env room action name w).2 = w
  /-- Carried out, it changes both sides. -/
  done : ∀ st, (moderate cfg env room action name w).1 = .ok st →
    (moderate cfg env room action name w).2.standing cfg room = action.decide name (w.standing cfg room) ∧
      (moderate cfg env room action name w).2.db.standing room = action.decide name (w.db.standing room)
  others : ∀ other, other ≠ room →
    (moderate cfg env room action name w).2.standing cfg other = w.standing cfg other ∧
      (moderate cfg env room action name w).2.db.standing other = w.db.standing other

/-! ## Davets -/

/-- The rows of the davets that are in force. -/
def liveInvites (db : Db) : List InviteRow := db.invites.filter fun r => r.revokedAt.isNone

/-- Memory has the davets that are in force. -/
abbrev DavetsHeld (w : World) : Prop :=
  Holds (fun r : InviteRow => r.invite.token) InviteRow.invite (liveInvites w.db) w.hub.invites

theorem DavetsHeld.invited {w : World} (h : DavetsHeld w) (i : Invite) :
    w.hub.invites.get i.token = some i ↔ i ∈ loadInvites w.db := by
  rw [h.same]
  refine (List.mem_map.trans (exists_congr fun r => and_congr_right fun _ => ?_)).symm
  constructor
  · rintro rfl
    exact ⟨rfl, rfl⟩
  · exact And.right

theorem DavetsHeld.of_eq {w w' : World} (h : DavetsHeld w) (hh : w'.hub.invites = w.hub.invites)
    (hdb : w'.db.invites = w.db.invites) : DavetsHeld w' := by
  unfold DavetsHeld liveInvites
  rw [hh, hdb]
  exact h

/-- Revoking a kind of davet takes it out of force. -/
theorem live_revoke (p : Invite → Bool) (now : Nat) (rows : List InviteRow) :
    (updateWhere (fun r => p r.invite && r.revokedAt.isNone) (fun r => { r with revokedAt := some now }) rows).filter
      (fun r => r.revokedAt.isNone) =
    deleteWhere (fun r => p r.invite) (rows.filter fun r => r.revokedAt.isNone) := by
  induction rows with
  | nil => rfl
  | cons r rows ih =>
      unfold updateWhere deleteWhere at ih ⊢
      rw [List.map_cons, List.filter_cons, List.filter_cons, ih]
      cases hlive : r.revokedAt with
      | some t => simp [hlive]
      | none =>
          cases hp : p r.invite with
          | true => simp [hlive, hp]
          | false => simp [hlive, hp]

/-- Revoking a kind of davet, on both sides. -/
theorem DavetsHeld.revoke {w w' : World} (h : DavetsHeld w) (p : Invite → Bool) (now : Nat)
    (hdb : w'.db.invites = updateWhere (fun r => p r.invite && r.revokedAt.isNone)
      (fun r => { r with revokedAt := some now }) w.db.invites)
    (hh : w'.hub.invites = (w.hub.invites.values.filter p).foldl (fun m i => m.del i.token) w.hub.invites) :
    DavetsHeld w' := by
  unfold DavetsHeld liveInvites
  rw [hdb, hh, live_revoke]
  exact h.delAll (fun _ => rfl) p

theorem mem_loadInvites_revoke {db db' : Db} (p : Invite → Bool) (now : Nat)
    (hdb : db'.invites = updateWhere (fun r => p r.invite && r.revokedAt.isNone)
      (fun r => { r with revokedAt := some now }) db.invites) (i : Invite) :
    i ∈ loadInvites db' ↔ p i = false ∧ i ∈ loadInvites db := by
  unfold loadInvites
  rw [hdb, live_revoke]
  simp only [List.mem_map, mem_deleteWhere]
  constructor
  · rintro ⟨r, ⟨hr, hp⟩, rfl⟩
    exact ⟨hp, r, hr, rfl⟩
  · rintro ⟨hp, r, hr, rfl⟩
    exact ⟨r, ⟨hr, hp⟩, rfl⟩

/-! ## The parts of a moderation call -/

theorem barred_setBan {room name kind : String} {now : Nat} {db : Db} {other k who : String} :
    (setBan room name kind now db).barred other k who ↔
      (other = room ∧ k = kind ∧ who = name) ∨ db.barred other k who := by
  unfold Db.barred setBan
  simp only [mem_upsert]
  constructor
  · rintro ⟨b, ⟨hb, -⟩ | rfl, rfl, rfl, rfl⟩
    · exact .inr ⟨b, hb, rfl, rfl, rfl⟩
    · exact .inl ⟨rfl, rfl, rfl⟩
  · intro h
    by_cases hnew : other = room ∧ k = kind ∧ who = name
    · obtain ⟨rfl, rfl, rfl⟩ := hnew
      exact ⟨_, .inr rfl, rfl, rfl, rfl⟩
    · obtain ⟨b, hb, rfl, rfl, rfl⟩ := h.resolve_left hnew
      refine ⟨b, .inl ⟨hb, fun hk => ?_⟩, rfl, rfl, rfl⟩
      simp only [Prod.mk.injEq] at hk
      exact hnew ⟨hk.1, hk.2.2, hk.2.1⟩

theorem barred_clearBan {room name kind : String} {db : Db} {other k who : String} :
    (clearBan room name kind db).barred other k who ↔
      ¬(other = room ∧ k = kind ∧ who = name) ∧ db.barred other k who := by
  unfold Db.barred clearBan
  simp only [mem_deleteWhere]
  constructor
  · rintro ⟨b, ⟨hb, hp⟩, rfl, rfl, rfl⟩
    refine ⟨fun h => ?_, b, hb, rfl, rfl, rfl⟩
    rw [h.1, h.2.1, h.2.2] at hp
    simp at hp
  · rintro ⟨hne, b, hb, rfl, rfl, rfl⟩
    refine ⟨b, ⟨hb, ?_⟩, rfl, rfl, rfl⟩
    by_contra hp
    simp only [Bool.not_eq_false, Bool.and_eq_true, decide_eq_true_eq] at hp
    exact hne ⟨hp.1.1, hp.2, hp.1.2⟩

theorem mem_insertName {name who : String} {l : List String} : who ∈ insertName name l ↔ who = name ∨ who ∈ l := by
  unfold insertName
  split
  · next hc =>
    refine ⟨.inr, fun h => h.elim (fun he => ?_) id⟩
    rw [he]
    simpa using hc
  · exact List.mem_cons

/-- The actions that end a name's davets for the loca. -/
def ModAction.endsDavets (action : ModAction) : Prop := action = .ban ∨ action = .kick ∨ action = .release

instance (action : ModAction) : Decidable action.endsDavets :=
  inferInstanceAs (Decidable (action = .ban ∨ action = .kick ∨ action = .release))

section Parts

variable {cfg : Config} {env : Env} {room name : String} {action : ModAction} {w w' : World}
  (hp : cfg.persistent = true)
include hp

/-- The first write changes bans alone. -/
theorem moderateStore_bans (h : moderateStore cfg env room action name w = .ok w') :
    ∃ db, w' = w.setDb db ∧ db.invites = w.db.invites ∧ db.members = w.db.members ∧
      (∀ other, isSealed other db = isSealed other w.db) ∧
      (∀ other who, db.barred other "mute" who ↔
        ((other = room ∧ who = name ∧ action = .mute) ∨
          (¬(other = room ∧ who = name ∧ action = .unmute) ∧ w.db.barred other "mute" who))) ∧
      ∀ other who, db.barred other "ban" who ↔
        ((other = room ∧ who = name ∧ action = .ban) ∨
          (¬(other = room ∧ who = name ∧ action = .unban) ∧ w.db.barred other "ban" who)) := by
  unfold moderateStore at h
  cases action with
  | kick =>
      cases h
      exact ⟨w.db, rfl, rfl, rfl, fun _ => rfl, fun _ _ => by simp, fun _ _ => by simp⟩
  | release =>
      cases h
      exact ⟨w.db, rfl, rfl, rfl, fun _ => rfl, fun _ _ => by simp, fun _ _ => by simp⟩
  | mute =>
      obtain rfl := World.store_total hp h
      refine ⟨_, rfl, rfl, rfl, fun _ => rfl, fun _ _ => ?_, fun _ _ => ?_⟩
      · rw [barred_setBan]; simp
      · rw [barred_setBan]; simp
  | unmute =>
      obtain rfl := World.store_total hp h
      refine ⟨_, rfl, rfl, rfl, fun _ => rfl, fun _ _ => ?_, fun _ _ => ?_⟩
      · rw [barred_clearBan]; simp
      · rw [barred_clearBan]; simp
  | ban =>
      obtain rfl := World.store_total hp h
      refine ⟨_, rfl, rfl, rfl, fun _ => rfl, fun _ _ => ?_, fun _ _ => ?_⟩
      · rw [barred_setBan]; simp
      · rw [barred_setBan]; simp
  | unban =>
      obtain rfl := World.store_total hp h
      refine ⟨_, rfl, rfl, rfl, fun _ => rfl, fun _ _ => ?_, fun _ _ => ?_⟩
      · rw [barred_clearBan]; simp
      · rw [barred_clearBan]; simp

/-- What the end of a name's davets for one loca changes, when it goes through. -/
structure DavetsEnded (cfg : Config) (room name : String) (w w' : World) : Prop where
  held : DavetsHeld w'
  rooms : w'.roomOr cfg = w.roomOr cfg
  bans : w'.db.bans = w.db.bans
  members : w'.db.members = w.db.members ∧ w'.hub.members = w.hub.members
  seals : ∀ other, isSealed other w'.db = isSealed other w.db
  memory : ∀ i : Invite, w'.hub.invites.get i.token = some i ↔
    ¬(i.room = room ∧ i.name = name) ∧ w.hub.invites.get i.token = some i
  stored : ∀ i : Invite, i ∈ loadInvites w'.db ↔ ¬(i.room = room ∧ i.name = name) ∧ i ∈ loadInvites w.db

theorem revokeInvitesFor_ended (hheld : DavetsHeld w) (h : w.revokeInvitesFor cfg env room name = .ok w') :
    DavetsEnded cfg room name w w' := by
  unfold World.revokeInvitesFor at h
  dsimp only at h
  split at h
  · next hnone =>
    cases h
    have hno : ∀ i : Invite, w.hub.invites.get i.token = some i → ¬(i.room = room ∧ i.name = name) := by
      intro i hi hin
      rw [List.isEmpty_iff, List.filter_eq_nil_iff] at hnone
      exact hnone i (Assoc.mem_values.mpr ⟨_, hi⟩) (by simp [hin])
    refine ⟨hheld, rfl, rfl, ⟨rfl, rfl⟩, fun _ => rfl, fun i => ⟨fun hi => ⟨hno i hi, hi⟩, And.right⟩,
      fun i => ⟨fun hi => ⟨hno i ((hheld.invited i).mpr hi), hi⟩, And.right⟩⟩
  · simp only [bind_ok, pure_ok] at h
    obtain ⟨w₁, hs, rfl⟩ := h
    obtain rfl := World.store_total hp hs
    have hstays := @closeConnections_foldl cfg Invite (fun _ => room) (fun _ => name)
    have hdesk := @World.desk_closeAll Invite (fun _ => room) (fun _ => name)
    generalize hcut : w.hub.invites.values.filter (fun i => i.room = room && i.name = name) = cut
    have hinvites : ∀ (l : List Invite) (w₁ : World), (l.foldl (fun w _ => World.closeConnections room name w) w₁).hub.invites =
        w₁.hub.invites := fun l w₁ => congrArg (fun d => d.2.2.1) (hdesk l w₁)
    have hmembers : ∀ (l : List Invite) (w₁ : World), (l.foldl (fun w _ => World.closeConnections room name w) w₁).hub.members =
        w₁.hub.members := fun l w₁ => congrArg (fun d => d.2.2.2) (hdesk l w₁)
    have hdb : ∀ (l : List Invite) (w₁ : World), (l.foldl (fun w _ => World.closeConnections room name w) w₁).db = w₁.db :=
      fun l w₁ => (hstays l w₁).db
    have hheld' := @DavetsHeld.revoke w (cut.foldl (fun w _ => World.closeConnections room name w)
      { w with
        db := Loca.revokeInvitesFor room name env.now w.db
        hub := { w.hub with invites := cut.foldl (fun m i => m.del i.token) w.hub.invites } }) hheld
      (fun i => i.room = room && i.name = name) env.now (by rw [hdb]; rfl) (by rw [hinvites, hcut])
    have hstored := fun i => @mem_loadInvites_revoke w.db (Loca.revokeInvitesFor room name env.now w.db)
      (fun i => i.room = room && i.name = name) env.now rfl i
    have hnot : ∀ i : Invite, (decide (i.room = room) && decide (i.name = name)) = false ↔
        ¬(i.room = room ∧ i.name = name) := fun i => by simp
    refine ⟨hheld', (hstays _ _).rooms, by rw [hdb]; rfl, ⟨by rw [hdb]; rfl, by rw [hmembers]; rfl⟩,
      fun other => by rw [hdb]; rfl, fun i => ?_, fun i => ?_⟩
    · refine (hheld'.invited i).trans ?_
      rw [hdb, hheld.invited]
      exact (hstored i).trans (and_congr_left' (hnot i))
    · rw [hdb]
      exact (hstored i).trans (and_congr_left' (hnot i))

/-- Only a failed write keeps the davets of a name in force. -/
theorem revokeInvitesFor_error {e : StoreError} (h : w.revokeInvitesFor cfg env room name = .error e) :
    env.fails .revokeInvites = true ∧ ∃ i ∈ w.hub.invites.values, i.room = room ∧ i.name = name := by
  unfold World.revokeInvitesFor at h
  dsimp only at h
  split at h
  · cases h
  · next hsome =>
    constructor
    · by_contra hf
      have hs := @store_of_ok cfg env .revokeInvites (fun db => .ok (Loca.revokeInvitesFor room name env.now db)) w _
        (Bool.eq_false_iff.mpr hf) rfl hp
      rw [hs] at h
      cases h
    · rw [List.isEmpty_iff, List.filter_eq_nil_iff] at hsome
      push Not at hsome
      obtain ⟨i, hi, hin⟩ := hsome
      exact ⟨i, hi, by simpa using hin⟩

end Parts

/-! ## The call -/

section Call

variable {cfg : Config} {env : Env} {room name : String} {action : ModAction} {w : World}
  (hp : cfg.persistent = true)
include hp

/-- What a call that is carried out comes to: the parts of both sides, one by one. -/
structure CarriedOut (cfg : Config) (room : String) (action : ModAction) (name : String) (w w' : World) : Prop where
  held : DavetsHeld w'
  members : w'.db.members = w.db.members ∧ w'.hub.members = w.hub.members
  seals : ∀ other, isSealed other w'.db = isSealed other w.db
  muted : ∀ other who, who ∈ (w'.roomOr cfg other).muted ↔ (other = room ∧ who = name ∧ action = .mute) ∨
    (¬(other = room ∧ who = name ∧ action = .unmute) ∧ who ∈ (w.roomOr cfg other).muted)
  banned : ∀ other who, who ∈ (w'.roomOr cfg other).banned ↔ (other = room ∧ who = name ∧ action = .ban) ∨
    (¬(other = room ∧ who = name ∧ action = .unban) ∧ who ∈ (w.roomOr cfg other).banned)
  mutedRow : ∀ other who, w'.db.barred other "mute" who ↔ (other = room ∧ who = name ∧ action = .mute) ∨
    (¬(other = room ∧ who = name ∧ action = .unmute) ∧ w.db.barred other "mute" who)
  bannedRow : ∀ other who, w'.db.barred other "ban" who ↔ (other = room ∧ who = name ∧ action = .ban) ∨
    (¬(other = room ∧ who = name ∧ action = .unban) ∧ w.db.barred other "ban" who)
  invited : ∀ i : Invite, w'.hub.invites.get i.token = some i ↔
    ¬(action.endsDavets ∧ i.room = room ∧ i.name = name) ∧ w.hub.invites.get i.token = some i
  invitedRow : ∀ i : Invite, i ∈ loadInvites w'.db ↔
    ¬(action.endsDavets ∧ i.room = room ∧ i.name = name) ∧ i ∈ loadInvites w.db

omit hp in
/-- What the action makes of the room itself. -/
theorem moderate_names (action : ModAction) (name : String) (r : Room) (who : String) :
    (who ∈ (r.moderate action name).1.muted ↔
      (who = name ∧ action = .mute) ∨ (¬(who = name ∧ action = .unmute) ∧ who ∈ r.muted)) ∧
    (who ∈ (r.moderate action name).1.banned ↔
      (who = name ∧ action = .ban) ∨ (¬(who = name ∧ action = .unban) ∧ who ∈ r.banned)) := by
  cases action with
  | mute => simp [Room.moderate, mem_insertName]
  | unmute => simp [Room.moderate, and_comm]
  | kick => simp [Room.moderate, Room.eject]
  | ban => simp [Room.moderate, Room.eject, mem_insertName]
  | unban => simp [Room.moderate, and_comm]
  | release => simp [Room.moderate, Room.eject]

/-- Refused, a call that is no torn ban leaves the server as it is; on a deleted loca it does nothing
either; otherwise it is carried out. -/
theorem moderate_cases (hheld : DavetsHeld w) (htorn : ¬ TornBan env room action name w) :
    (w.isDeleted cfg room = true ∧ moderate cfg env room action name w = (.ok (w.modState room), w)) ∨
    (w.isDeleted cfg room = false ∧ ((∃ e, moderate cfg env room action name w = (.error e, w)) ∨
      ∃ st w', moderate cfg env room action name w = (.ok st, w') ∧ CarriedOut cfg room action name w w')) := by
  unfold moderate
  cases hdel : w.isDeleted cfg room with
  | true => exact .inl ⟨rfl, rfl⟩
  | false =>
      refine .inr ⟨rfl, ?_⟩
      rw [if_neg (by decide)]
      cases hfirst : moderateStore cfg env room action name w with
      | error e => exact .inl ⟨e, rfl⟩
      | ok w₁ =>
          obtain ⟨db, rfl, hinv, hmem, hseals, hmutes, hbans⟩ := moderateStore_bans hp hfirst
          have hheld₁ : DavetsHeld (w.setDb db) := hheld.of_eq rfl hinv
          have hload : loadInvites db = loadInvites w.db := by unfold loadInvites; rw [hinv]
          dsimp only
          -- what the second write leaves, when the action has one
          have hsecond : ∀ w₂, (if action = .ban ∨ action = .kick ∨ action = .release then
              (w.setDb db).revokeInvitesFor cfg env room name else .ok (w.setDb db)) = .ok w₂ →
              CarriedOut cfg room action name w
                ((w₂.setRoom room ((w₂.roomOr cfg room).moderate action name).1).send room
                  ((w₂.roomOr cfg room).moderate action name).2) := by
            intro w₂ h₂
            have hended : DavetsHeld w₂ ∧ w₂.roomOr cfg = w.roomOr cfg ∧ w₂.db.bans = db.bans ∧
                (w₂.db.members = w.db.members ∧ w₂.hub.members = w.hub.members) ∧
                (∀ other, isSealed other w₂.db = isSealed other w.db) ∧
                (∀ i : Invite, w₂.hub.invites.get i.token = some i ↔
                  ¬(action.endsDavets ∧ i.room = room ∧ i.name = name) ∧ w.hub.invites.get i.token = some i) ∧
                ∀ i : Invite, i ∈ loadInvites w₂.db ↔
                  ¬(action.endsDavets ∧ i.room = room ∧ i.name = name) ∧ i ∈ loadInvites w.db := by
              split at h₂
              · next hends =>
                obtain ⟨h, hr, hb, hm, hs, hmemory, hstored⟩ := revokeInvitesFor_ended hp hheld₁ h₂
                refine ⟨h, hr, hb, ⟨hm.1.trans hmem, hm.2⟩, fun other => (hs other).trans (hseals other),
                  fun i => ?_, fun i => ?_⟩
                · rw [and_iff_right (show action.endsDavets from hends)]
                  exact hmemory i
                · rw [and_iff_right (show action.endsDavets from hends), ← hload]
                  exact hstored i
              · next hends =>
                cases h₂
                refine ⟨hheld₁, rfl, rfl, ⟨hmem, rfl⟩, hseals, fun i => ?_, fun i => ?_⟩
                · exact (and_iff_right fun h => hends h.1).symm
                · rw [show loadInvites (w.setDb db).db = loadInvites w.db from hload]
                  exact (and_iff_right fun h => hends h.1).symm
            obtain ⟨h, hr, hb, hm, hs, hmemory, hstored⟩ := hended
            have hrow : ∀ other k who, w₂.db.barred other k who ↔ db.barred other k who := by
              intro other k who
              unfold Db.barred
              rw [hb]
            have hroom : ∀ other, (((w₂.setRoom room ((w₂.roomOr cfg room).moderate action name).1).send room
                ((w₂.roomOr cfg room).moderate action name).2).roomOr cfg other) =
                if other = room then ((w.roomOr cfg room).moderate action name).1 else w.roomOr cfg other := by
              intro other
              rw [World.roomOr_send, World.roomOr_setRoom, Function.update_apply, hr]
            refine ⟨h.of_eq rfl rfl, hm, hs, fun other who => ?_, fun other who => ?_, fun other who => ?_,
              fun other who => ?_, hmemory, hstored⟩
            · rw [hroom]
              split
              · next ho => simpa [ho] using (moderate_names action name (w.roomOr cfg room) who).1
              · next ho => simp [ho]
            · rw [hroom]
              split
              · next ho => simpa [ho] using (moderate_names action name (w.roomOr cfg room) who).2
              · next ho => simp [ho]
            · exact (hrow other "mute" who).trans (hmutes other who)
            · exact (hrow other "ban" who).trans (hbans other who)
          split
          · next e he =>
            left
            split at he
            · obtain ⟨hf, i, hi, hin⟩ := revokeInvitesFor_error hp he
              by_cases hb : action = .ban
              · refine absurd ⟨hb, ?_, hf, i, hi, hin⟩ htorn
                subst hb
                exact (store_total_iff hp).mp ⟨_, hfirst⟩
              · -- nothing was written before
                have hsame : w.setDb db = w := by
                  next hends =>
                  rcases hends with rfl | rfl | rfl
                  · exact absurd rfl hb
                  · exact (Except.ok.inj hfirst).symm
                  · exact (Except.ok.inj hfirst).symm
                exact ⟨e, by rw [hsame]⟩
            · cases he
          · next w₂ h₂ => exact .inr ⟨_, _, rfl, hsecond w₂ h₂⟩

omit hp in
theorem CarriedOut.standing {w' : World} (h : CarriedOut cfg room action name w w') :
    w'.standing cfg room = action.decide name (w.standing cfg room) ∧
      w'.db.standing room = action.decide name (w.db.standing room) := by
  constructor
  · refine Standing.ext (funext fun who => propext ?_) (funext fun who => propext ?_) (funext fun i => propext ?_)
    · refine (h.banned room who).trans ?_
      cases action <;> simp [ModAction.decide, World.standing]
    · refine (h.muted room who).trans ?_
      cases action <;> simp [ModAction.decide, World.standing]
    · refine (and_congr_right fun hi => (h.invited i).trans ?_ : _ ↔ (i.room = room ∧ (action.endsDavets → i.name ≠ name) ∧
        w.hub.invites.get i.token = some i)).trans ?_
      · simp [hi]
      · cases action <;> simp [ModAction.decide, World.standing, ModAction.endsDavets, and_left_comm]
  · refine Standing.ext (funext fun who => propext ?_) (funext fun who => propext ?_) (funext fun i => propext ?_)
    · refine (h.bannedRow room who).trans ?_
      cases action <;> simp [ModAction.decide, Db.standing]
    · refine (h.mutedRow room who).trans ?_
      cases action <;> simp [ModAction.decide, Db.standing]
    · refine (and_congr_right fun hi => (h.invitedRow i).trans ?_ : _ ↔ (i.room = room ∧ (action.endsDavets → i.name ≠ name) ∧
        i ∈ loadInvites w.db)).trans ?_
      · simp [hi]
      · cases action <;> simp [ModAction.decide, Db.standing, ModAction.endsDavets, and_left_comm]

omit hp in
/-- Other locas are not touched. -/
theorem CarriedOut.others {w' : World} (h : CarriedOut cfg room action name w w') {other : String}
    (hne : other ≠ room) : w'.standing cfg other = w.standing cfg other ∧ w'.db.standing other = w.db.standing other := by
  constructor
  · refine Standing.ext (funext fun who => propext ?_) (funext fun who => propext ?_) (funext fun i => propext ?_)
    · exact (h.banned other who).trans (by simp [World.standing, hne])
    · exact (h.muted other who).trans (by simp [World.standing, hne])
    · refine and_congr_right fun hi => (h.invited i).trans ?_
      simp [hi, hne]
  · refine Standing.ext (funext fun who => propext ?_) (funext fun who => propext ?_) (funext fun i => propext ?_)
    · exact (h.bannedRow other who).trans (by simp [Db.standing, hne])
    · exact (h.mutedRow other who).trans (by simp [Db.standing, hne])
    · refine and_congr_right fun hi => (h.invitedRow i).trans ?_
      simp [hi, hne]

theorem moderated (hheld : DavetsHeld w) (hdel : w.isDeleted cfg room = false)
    (htorn : ¬ TornBan env room action name w) : Moderated cfg env room action name w := by
  rcases moderate_cases hp hheld htorn with ⟨hd, -⟩ | ⟨-, ⟨e, he⟩ | ⟨st, w', hm, hdone⟩⟩
  · exact absurd (hdel.symm.trans hd) (by decide)
  · refine ⟨fun _ _ => by rw [he], fun st hst => ?_, fun _ _ => by rw [he]; exact ⟨rfl, rfl⟩⟩
    rw [he] at hst
    cases hst
  · refine ⟨fun e he => ?_, fun _ _ => by rw [hm]; exact hdone.standing,
      fun _ hne => by rw [hm]; exact hdone.others hne⟩
    rw [hm] at he
    cases he

end Call

/-! ## Both sides of the door -/

/-- Memory and disk tell the same of who may come in, and no row gives a start something to mend. -/
structure Doors (cfg : Config) (w : World) : Prop where
  held : DavetsHeld w
  named : ∀ token m, w.hub.members.get token = some m → m.token ≠ ""
  namedRow : ∀ r ∈ w.db.members, r.membership.token ≠ ""
  bound : ∀ i ∈ loadInvites w.db, i.member ≠ "" ∧
    (i.room = cfg.reservedRoom → cfg.caretakers.contains i.name = true)
  barred : ∀ name, isSealed name w.db = false → ∀ who,
    (who ∈ (w.roomOr cfg name).banned ↔ w.db.barred name "ban" who) ∧
      (who ∈ (w.roomOr cfg name).muted ↔ w.db.barred name "mute" who)

/-- Nothing is moved at the doors; a room may be sealed. -/
structure SameDoors (cfg : Config) (w w' : World) : Prop where
  invites : w'.hub.invites = w.hub.invites
  members : w'.hub.members = w.hub.members
  bans : w'.db.bans = w.db.bans
  inviteRows : w'.db.invites = w.db.invites
  memberRows : w'.db.members = w.db.members
  rooms : ∀ name, isSealed name w'.db = false → isSealed name w.db = false ∧
    (w'.roomOr cfg name).muted = (w.roomOr cfg name).muted ∧ (w'.roomOr cfg name).banned = (w.roomOr cfg name).banned

theorem loadInvites_congr {db db' : Db} (h : db'.invites = db.invites) : loadInvites db' = loadInvites db := by
  unfold loadInvites
  rw [h]

theorem barred_congr {db db' : Db} (h : db'.bans = db.bans) (room kind who : String) :
    db'.barred room kind who ↔ db.barred room kind who := by
  unfold Db.barred
  rw [h]

namespace SameDoors

variable {cfg : Config} {w w' : World} {room : String} {r : Room} {db : Db}

theorem refl (cfg : Config) (w : World) : SameDoors cfg w w := ⟨rfl, rfl, rfl, rfl, rfl, fun _ hs => ⟨hs, rfl, rfl⟩⟩

theorem desk (hd : w'.desk = w.desk) (h : SameDesk cfg w w') : SameDoors cfg w w' where
  invites := congrArg (fun d => d.2.2.1) hd
  members := congrArg (fun d => d.2.2.2) hd
  bans := congrArg (fun d => d.2.1) h.db.desk
  inviteRows := congrArg (fun d => d.2.2.1) h.db.desk
  memberRows := congrArg (fun d => d.2.2.2) h.db.desk
  rooms name hs := ⟨(h.db.seals name).symm.trans hs, congrArg (fun d => d.2.1) (h.rooms name),
    congrArg (fun d => d.2.2) (h.rooms name)⟩

/-- A room is written, and its row; nobody is barred or let in. -/
theorem edits (hd : w'.desk.2.2 = w.desk.2.2) (he : Edits cfg room r db w w')
    (hr : r.muted = (w.roomOr cfg room).muted ∧ r.banned = (w.roomOr cfg room).banned)
    (hdb : db.desk.2 = w.db.desk.2) (hseals : ∀ name, isSealed name db = isSealed name w.db) :
    SameDoors cfg w w' where
  invites := congrArg (fun d => d.1) hd
  members := congrArg (fun d => d.2) hd
  bans := by rw [he.db]; exact congrArg (fun d => d.1) hdb
  inviteRows := by rw [he.db]; exact congrArg (fun d => d.2.1) hdb
  memberRows := by rw [he.db]; exact congrArg (fun d => d.2.2) hdb
  rooms name hs := by
    rw [he.db, hseals] at hs
    rw [he.rooms, Function.update_apply]
    split
    · next hn => exact ⟨hs, hn ▸ hr⟩
    · exact ⟨hs, rfl, rfl⟩

end SameDoors

theorem Doors.same {cfg : Config} {w w' : World} (h : Doors cfg w) (hs : SameDoors cfg w w') : Doors cfg w' where
  held := h.held.of_eq hs.invites hs.inviteRows
  named := hs.members ▸ h.named
  namedRow := hs.memberRows ▸ h.namedRow
  bound i hi := h.bound i (loadInvites_congr hs.inviteRows ▸ hi)
  barred name hname who := by
    obtain ⟨hs₀, hmuted, hbanned⟩ := hs.rooms name hname
    rw [hmuted, hbanned, barred_congr hs.bans, barred_congr hs.bans]
    exact h.barred name hs₀ who

/-! ## The calls -/

section Doors

variable {cfg : Config} {env : Env} (hp : cfg.persistent = true) {w : World}
include hp

omit hp in
/-- Some davets end, on both sides. -/
theorem Doors.fewer {w' : World} (h : Doors cfg w) (p : Invite → Bool) (now : Nat)
    (hdb : w'.db.invites = updateWhere (fun r => p r.invite && r.revokedAt.isNone)
      (fun r => { r with revokedAt := some now }) w.db.invites)
    (held : DavetsHeld w') (hnamed : ∀ token m, w'.hub.members.get token = some m → m.token ≠ "")
    (hrows : ∀ r ∈ w'.db.members, r.membership.token ≠ "") (hrooms : w'.roomOr cfg = w.roomOr cfg)
    (hbans : w'.db.bans = w.db.bans) (hseals : w'.db.rooms = w.db.rooms) : Doors cfg w' := by
  refine ⟨held, hnamed, hrows, fun i hi => ?_, fun name hname who => ?_⟩
  · exact h.bound i ((mem_loadInvites_revoke p now hdb i).mp hi).2
  · have hs : isSealed name w.db = false := by
      unfold isSealed at hname ⊢
      rwa [hseals] at hname
    rw [hrooms, barred_congr hbans, barred_congr hbans]
    exact h.barred name hs who

end Doors

/-! ## Starting -/

/-- The server has the tables of `db`, and the davets and memberships they hold. -/
structure ReadFrom (db : Db) (w : World) : Prop where
  bans : w.db.bans = db.bans
  inviteRows : w.db.invites = db.invites
  memberRows : w.db.members = db.members
  seals : ∀ name, isSealed name w.db = isSealed name db
  invites : w.hub.invites = Assoc.ofRows Invite.token (loadInvites db)
  members : w.hub.members = Assoc.ofRows Membership.token (loadMembers db)

/-- Before the bans are read nobody is barred. -/
structure Unbarred (cfg : Config) (db : Db) (w : World) : Prop extends ReadFrom db w where
  rooms : ∀ name, (w.roomOr cfg name).banned = [] ∧ (w.roomOr cfg name).muted = []

/-- Afterwards those who have a row are. -/
structure Barring (cfg : Config) (db : Db) (w : World) : Prop extends ReadFrom db w where
  barred : ∀ name who, (who ∈ (w.roomOr cfg name).banned ↔ db.barred name "ban" who) ∧
    (who ∈ (w.roomOr cfg name).muted ↔ db.barred name "mute" who)

section Start

variable {cfg : Config} {env : Env} {clock : Nat} {db : Db} {w : World}

theorem appointLocaOperator_tables {room principal appointer : String} {now : Nat} {db' : Db}
    (h : appointLocaOperator room principal appointer now db = .ok db') : db'.desk = db.desk := by
  have hinsert : ∀ {role : BuildingRole} {db₁ db₂ : Db},
      insertAssignment room principal appointer role now db₁ = .ok db₂ → db₂.desk = db₁.desk := by
    intro role db₁ db₂ hi
    simp only [insertAssignment, bind_ok, require_ok, pure_ok, exists_const] at hi
    obtain ⟨-, rfl⟩ := hi
    rfl
  simp only [appointLocaOperator, bind_ok] at h
  obtain ⟨-, -, role, -, h⟩ := h
  split at h
  · exact hinsert h
  · split at h
    · cases h; rfl
    · simp only [bind_ok, require_ok, exists_const] at h
      exact (hinsert h.2 :)

theorem bindOperator_tables (env : Env) (room : String) (settings : RoomSettings) (db : Db) :
    SameTables db (bindOperator env room settings db).2 := by
  have hseals : ∀ name, isSealed name (bindOperator env room settings db).2 = isSealed name db := by
    intro name
    unfold isSealed
    rw [(bindOperator_content env room settings db).rooms]
  refine ⟨?_, hseals⟩
  unfold bindOperator
  split
  · rfl
  · split
    · split
      · split
        · next hdb => exact appointLocaOperator_tables hdb
        · rfl
      · rfl
    · rfl

theorem Unbarred.operator (h : Unbarred cfg db w) (env : Env) (clock : Nat) (room : String) :
    Unbarred cfg db (migrateOperator env clock w room) := by
  have hbind : ∀ {settings : RoomSettings} {db₁ : Db}, SameTables (bindOperator env room settings w.db).2 db₁ →
      Unbarred cfg db (w.setDb db₁) := by
    intro settings db₁ hs
    have hdb := (bindOperator_tables env room settings w.db).trans hs
    exact ⟨⟨(congrArg (fun d => d.2.1) hdb.desk).trans h.bans, (congrArg (fun d => d.2.2.1) hdb.desk).trans h.inviteRows,
      (congrArg (fun d => d.2.2.2) hdb.desk).trans h.memberRows, fun name => (hdb.seals name).trans (h.seals name),
      h.invites, h.members⟩, h.rooms⟩
  unfold migrateOperator
  split
  · exact h
  · next r hr =>
    split
    · exact h
    · split
      · next db₁ he => exact @hbind r.settings _ (he ▸ ⟨rfl, fun _ => rfl⟩)
      · next db₁ he =>
        dsimp only
        have hfirst : SameTables (bindOperator env room r.settings w.db).2 db₁ := he ▸ ⟨rfl, fun _ => rfl⟩
        split
        · exact hbind hfirst
        · next db₂ hdb =>
          rcases commit_ok.mp hdb with ⟨-, -, hs⟩ | ⟨hn, -⟩
          · have h₂ := hbind (hfirst.trans (saveRoom_desk hs))
            refine ⟨⟨h₂.bans, h₂.inviteRows, h₂.memberRows, h₂.seals, h₂.invites, h₂.members⟩, fun name => ?_⟩
            rw [World.roomOr_setRoom, Function.update_apply]
            have hroom := h.rooms room
            rw [World.roomOr_of_some hr] at hroom
            split
            · exact hroom
            · exact h.rooms name
          · cases hn

theorem Unbarred.home (h : Unbarred cfg db w) : Unbarred cfg db (ensureHome cfg w) := by
  refine ⟨⟨h.bans, h.inviteRows, h.memberRows, h.seals, h.invites, h.members⟩, fun name => ?_⟩
  unfold ensureHome
  rw [World.roomOr_setRoom, Function.update_apply]
  split
  · split
    · exact h.rooms cfg.homeRoom
    · exact h.rooms cfg.homeRoom
  · exact h.rooms name

/-- A tombstone bars nobody. -/
theorem Barring.tombstone (h : Barring cfg db w) : Barring cfg db (tombstone w) :=
  ⟨⟨h.bans, h.inviteRows, h.memberRows, h.seals, h.invites, h.members⟩, h.barred⟩

theorem Unbarred.mem_loadInvites (h : Unbarred cfg db w) {i : Invite} (hi : i ∈ w.hub.invites.values) :
    i ∈ loadInvites db := by
  obtain ⟨token, hget⟩ := Assoc.mem_values.mp hi
  rw [h.invites] at hget
  exact Assoc.mem_of_get_ofRows hget

/-- Only caretakers hold davets for the reserved loca, so there is none to end. -/
theorem Unbarred.clean (h : Unbarred cfg db w) (hreserved : ∀ i ∈ loadInvites db, i.room = cfg.reservedRoom →
    cfg.caretakers.contains i.name = true) : cleanReserved cfg env w = w := by
  have hnone : (w.hub.invites.values.filter fun i => i.room = cfg.reservedRoom &&
      !cfg.caretakers.contains i.name) = [] := by
    refine List.filter_eq_nil_iff.mpr fun i hi he => ?_
    simp only [Bool.and_eq_true, decide_eq_true_eq, Bool.not_eq_true'] at he
    exact absurd ((hreserved i (h.mem_loadInvites hi) he.1).symm.trans he.2) (by decide)
  unfold cleanReserved
  rw [hnone]
  split <;> rfl

end Start

/-! ## Runs -/

section Runs

variable {cfg : Config} {w : World}

/-- Memory and disk tell the same of a loca that is not sealed. -/
theorem Doors.standing (h : Doors cfg w) {room : String} (hs : isSealed room w.db = false) :
    w.standing cfg room = w.db.standing room := by
  refine Standing.ext (funext fun who => propext ?_) (funext fun who => propext ?_) (funext fun i => propext ?_)
  · exact (h.barred room hs who).1
  · exact (h.barred room hs who).2
  · exact and_congr_right fun _ => h.held.invited i

variable (hp : cfg.persistent = true)
include hp

end Runs

/-! ## What falls outside -/

end Loca
