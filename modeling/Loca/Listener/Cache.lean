/-
# `Loca.Listener.Cache` — the davets an agent keeps

`store_room_invite` and `reconcile_room_invite_snapshot` of `listen.py`: a call into a room adds
its davet to the environment and the env file, and a snapshot of the lobby replaces all of them.
`known` follows what the lobby said last; the cache is faithful to it when every room asked for
gets its own davet or none (`Faithful`).

A room's davet is kept under its folded name, so a room also finds what another of the same
folding left.  Where the rooms of a building fold apart (`FoldsApart`), faithfulness holds in
every state reached, and after the file is loaded again (`cache_is_faithful`).
-/
import Loca.Base.Run
import Loca.Listener.Credentials

namespace Loca

open Check Table

/-! ## Dicts -/

/-- `d[key] = value`: a key keeps its place. -/
def setItem (d : List (String × String)) (key value : String) : List (String × String) :=
  insertOrUpdate Prod.fst (key, value) (fun old => (old.1, value)) d

/-- `d.get(key)`. -/
def getItem (d : List (String × String)) (key : String) : Option String :=
  (d.find? fun i => i.1 = key).map Prod.snd

theorem getItem_setItem (d : List (String × String)) (key value k : String) :
    getItem (setItem d key value) k = if k = key then some value else getItem d k := by
  have hfind := @find?_insertOrUpdate _ _ _ Prod.fst (key, value) (fun old => (old.1, value)) d
    (fun _ => rfl) k
  rw [getItem, setItem, hfind]
  by_cases hk : k = key
  · rw [if_pos hk, if_pos hk]
    cases d.find? fun i => i.1 = k <;> rfl
  · rw [if_neg hk, if_neg hk]
    rfl

theorem setItem_nodup {d : List (String × String)} (h : (d.map Prod.fst).Nodup) (key value : String) :
    ((setItem d key value).map Prod.fst).Nodup :=
  nodup_insertOrUpdate (fun _ => rfl) h

theorem mem_setItem {d : List (String × String)} {key value : String} {i : String × String}
    (h : i ∈ setItem d key value) : i ∈ d ∨ i = (key, value) := by
  rcases insertOrUpdate_cases Prod.fst (key, value) (fun old => (old.1, value)) d with
    ⟨-, hc⟩ | ⟨-, hc⟩
  · rw [setItem, hc] at h
    obtain ⟨x, hx, rfl⟩ := mem_updateWhere.mp h
    split
    · next he => exact .inr (Prod.ext (by simpa using he) rfl)
    · exact .inl hx
  · rw [setItem, hc] at h
    rcases List.mem_append.mp h with h | h
    · exact .inl h
    · exact .inr (List.mem_singleton.mp h)

theorem getItem_eq_some {d : List (String × String)} (h : (d.map Prod.fst).Nodup) {key value : String} :
    getItem d key = some value ↔ (key, value) ∈ d := by
  unfold getItem
  constructor
  · intro hg
    obtain ⟨i, hi, rfl⟩ := Option.map_eq_some_iff.mp hg
    have hk : i.1 = key := by simpa using List.find?_some hi
    exact hk ▸ List.mem_of_find?_eq_some hi
  · intro hm
    cases hf : d.find? fun i => i.1 = key with
    | none => exact absurd (decide_eq_true rfl) (List.find?_eq_none.mp hf (key, value) hm)
    | some i =>
        have hk : i.1 = key := by simpa using List.find?_some hf
        have hi := List.inj_on_of_nodup_map h (List.mem_of_find?_eq_some hf) hm hk
        rw [hi]
        rfl

theorem getItem_eq_none {d : List (String × String)} {key : String} :
    getItem d key = none ↔ key ∉ d.map Prod.fst := by
  simp only [getItem, Option.map_eq_none_iff, List.find?_eq_none, List.mem_map, not_exists, not_and,
    decide_eq_true_eq]

/-! ## The program -/

/-- What the disk makes of an update: the file is replaced at once, but an error may come before
that, or after it. -/
inductive Disk
  | works
  | failsBefore
  | failsAfter
  deriving DecidableEq, Repr

/-- An update of the file, and of the environment once it has succeeded. -/
def Agent.update (disk : Disk) (updates : List (String × Option String)) (a : Agent) :
    Except CredentialFault Unit × Agent :=
  match disk, updateEnvValues updates a.file with
  | .failsBefore, _ => (.error .os, a)
  | _, .error e => (.error e, a)
  | .failsAfter, .ok file => (.error .os, { a with file := file })
  | .works, .ok file => (.ok (), ⟨applyUpdates updates a.environ, file⟩)

/-- `store_room_invite`. -/
def storeRoomInvite (disk : Disk) (room token : String) (a : Agent) : Bool × Agent :=
  let key := roomEnvKey room
  if a.environ.get key = some token then (false, a)
  else
    match a.update disk [(key, some token), ("LOCA_SESSION", none)] with
    | (.ok (), a') => (true, a')
    | (.error _, a') => (false, a')

def stripped (s : String) : String := String.ofList (strip s.toList)

/-- One invite of a snapshot. -/
def readInvite (py : Adapter.Python) : Json → Except CredentialFault (String × String)
  | .obj fields => do
    let room := stripped (py.strOr "room" "" fields)
    let token := stripped (py.strOr "token" "" fields)
    require (room ≠ "" ∧ token ≠ "") (.value "lobby invite snapshot contains an empty room/token")
    pure (room, token)
  | _ => .error (.value "lobby invite snapshot contains a non-object")

/-- The loop over a snapshot: the davets by their keys. -/
def readSnapshot (py : Adapter.Python) : List Json → List (String × String) →
    Except CredentialFault (List (String × String))
  | [], current => .ok current
  | item :: items, current => do
    let invite ← readInvite py item
    readSnapshot py items (setItem current (roomEnvKey invite.1) invite.2)

/-- Davets of the environment that the snapshot does not have. -/
def staleKeys (current : List (String × String)) (environ : Environ) : List String :=
  environ.keys.filter fun key => isDavetKey key && !(current.map Prod.fst).contains key

/-- The stale keys go, the current ones are set, and so is the session. -/
def snapshotUpdates (current : List (String × String)) (environ : Environ) :
    List (String × Option String) :=
  (staleKeys current environ).map (fun key => (key, none)) ++
    current.map (fun i => (i.1, some i.2)) ++ [("LOCA_SESSION", none)]

/-- `reconcile_room_invite_snapshot`: the rooms removed, by their keys. -/
def reconcileRoomInviteSnapshot (py : Adapter.Python) (disk : Disk) (invites : Json) (a : Agent) :
    Except CredentialFault (List String) × Agent :=
  match invites with
  | .arr items =>
    match readSnapshot py items [] with
    | .error e => (.error e, a)
    | .ok current =>
      let stale := staleKeys current a.environ
      if (current.any fun i => a.environ.get i.1 ≠ some i.2) || !stale.isEmpty then
        match a.update disk (snapshotUpdates current a.environ) with
        | (.ok (), a') => (.ok ((orderBy id stale).map fun key => String.ofList (key.toList.drop 6)), a')
        | (.error e, a') => (.error e, a')
      else (.ok [], a)
  | _ => (.error (.value "lobby invite snapshot must be a list"), a)

/-! ## The lobby -/

/-- One invite of `lobby_ready`. -/
def inviteJson (i : String × String) : Json := .obj [("room", .str i.1), ("token", .str i.2)]

/-- An agent, and the rooms and davets the lobby last told it about. -/
structure Cache where
  agent : Agent
  /-- `none` before the first snapshot. -/
  known : Option (List (String × String))

inductive Lobby
  | snapshot (invites : List (String × String)) (disk : Disk)
  | called (room token : String) (disk : Disk)

/-- One message of the lobby, and whether the cache took it. -/
def Cache.step (py : Adapter.Python) (c : Cache) : Lobby → Bool × Cache
  | .snapshot invites disk =>
    match reconcileRoomInviteSnapshot py disk (.arr (invites.map inviteJson)) c.agent with
    | (.ok _, a) => (true, ⟨a, some invites⟩)
    | (.error _, a) => (false, ⟨a, c.known⟩)
  | .called room token disk =>
    let (stored, a) := storeRoomInvite disk room token c.agent
    -- a davet that was there already is taken too
    if stored || c.agent.environ.get (roomEnvKey room) = some token then
      (true, ⟨a, c.known.map fun known => setItem known room token⟩)
    else (false, ⟨a, c.known⟩)

/-- The agent has just loaded its file, and has heard nothing from the lobby. -/
def cacheMachine (py : Adapter.Python) : Sys.Machine Cache Lobby Bool where
  init c := c.known = none ∧ c.agent.Loaded
  step c l := c.step py l

/-- Every room gets the davet last known for it; a room of the building for which none is known
never gets another room's. -/
structure Faithful (building : String → Prop) (known : List (String × String)) (environ : Environ) :
    Prop where
  called : ∀ i ∈ known, tokenForRoom environ i.1 = i.2
  others : ∀ room, building room → room ∉ known.map Prod.fst →
    ∀ i ∈ known, tokenForRoom environ room ≠ i.2

/-- The rooms of a building are named as they are looked up, and no two fold to one key. -/
structure FoldsApart (building : String → Prop) : Prop where
  named : ∀ room, building room → stripped room = room ∧ room ≠ ""
  apart : ∀ room other, building room → building other → roomEnvKey room = roomEnvKey other →
    room = other

/-- A davet of the lobby: written with key characters, and not the legacy key. -/
def Issued (building : String → Prop) (environ : Environ) (i : String × String) : Prop :=
  building i.1 ∧ PlainValue i.2 ∧ environ.get "ROOM_TOKEN" ≠ some i.2

/-- The lobby speaks of rooms of the building, each once, and no update fails when it is done. -/
def FromLobby (building : String → Prop) (c : Cache) : Lobby → Prop
  | .snapshot invites disk =>
    (invites.map Prod.fst).Nodup ∧ (∀ i ∈ invites, Issued building c.agent.environ i) ∧
      disk ≠ .failsAfter
  | .called room token disk => Issued building c.agent.environ (room, token) ∧ disk ≠ .failsAfter

/-! ## Keys -/

theorem isDavetKey_roomEnvKey (room : String) : isDavetKey (roomEnvKey room) = true :=
  hasPrefix_davet.mpr ⟨_, rfl⟩

theorem isBoundKey_roomEnvKey {room : String} (h : room ≠ "") : isBoundKey (roomEnvKey room) = true := by
  have hlist : (roomEnvKey room).toList =
      "DAVET_".toList ++ room.toList.map fun c => if isKeyChar c then c else '_' := by
    simp only [roomEnvKey, String.toList_append, String.toList_ofList]
  have hdrop : (roomEnvKey room).toList.drop 6 =
      room.toList.map fun c => if isKeyChar c then c else '_' := by rw [hlist]; rfl
  have hne : room.toList ≠ [] := fun he => h (String.toList_eq_nil_iff.mp he)
  have hall : ∀ c, isKeyChar (if isKeyChar c then c else '_') = true := by
    intro c
    split
    · assumption
    · decide
  rw [isBoundKey, hdrop, isDavetKey_roomEnvKey]
  simp [hne, hall]

theorem ne_session_of_isDavetKey {key : String} (h : isDavetKey key = true) : key ≠ "LOCA_SESSION" := by
  rintro rfl
  exact absurd h (by decide)

theorem ne_legacy_of_isDavetKey {key : String} (h : isDavetKey key = true) : key ≠ "ROOM_TOKEN" := by
  rintro rfl
  exact absurd h (by decide)

theorem stripped_of_plain {value : String} (h : PlainValue value) : stripped value = value := by
  rw [stripped, strip_of_keyChars h.2, String.ofList_toList]

/-! ## An update of both -/

theorem Agent.update_ok {disk : Disk} {updates : List (String × Option String)} {a a' : Agent}
    (h : a.update disk updates = (.ok (), a')) :
    ∃ file, updateEnvValues updates a.file = .ok file ∧ a' = ⟨applyUpdates updates a.environ, file⟩ := by
  unfold Agent.update at h
  split at h
  · cases h
  · cases h
  · cases h
  · next file hu => exact ⟨file, hu, (Prod.mk.inj h).2.symm⟩

theorem Agent.update_error {disk : Disk} {updates : List (String × Option String)} {a a' : Agent}
    {e : CredentialFault} (h : a.update disk updates = (.error e, a')) (hd : disk ≠ .failsAfter) :
    a' = a := by
  unfold Agent.update at h
  split at h
  · exact (Prod.mk.inj h).2.symm
  · exact (Prod.mk.inj h).2.symm
  · exact absurd rfl hd
  · cases h

theorem updated_append {us vs : List (String × Option String)} {key : String} (old : Option String) :
    updated (us ++ vs) key old =
      if key ∈ us.map Prod.fst then updated us key old else updated vs key old := by
  induction us with
  | nil => simp
  | cons u us ih =>
      rw [List.cons_append, updated_cons, updated_cons, ih, List.map_cons]
      by_cases hu : u.1 = key
      · rw [if_pos hu, if_pos hu, if_pos (hu ▸ List.mem_cons_self)]
      · have hmem : key ∈ u.1 :: us.map Prod.fst ↔ key ∈ us.map Prod.fst :=
          ⟨fun h => (List.mem_cons.mp h).resolve_left fun he => hu he.symm, List.mem_cons_of_mem _⟩
        rw [if_neg hu]
        by_cases hm : key ∈ us.map Prod.fst
        · rw [if_pos hm, if_pos (hmem.mpr hm), if_neg hu]
        · rw [if_neg hm, if_neg fun h => hm (hmem.mp h)]

theorem updated_dels {keys : List String} {key : String} (h : key ∈ keys) (old : Option String) :
    updated (keys.map fun key => (key, none)) key old = none := by
  induction keys with
  | nil => cases h
  | cons k keys ih =>
      rw [List.map_cons, updated_cons]
      split
      · rfl
      · next hk => exact ih ((List.mem_cons.mp h).resolve_left fun he => hk he.symm)

theorem updated_sets {current : List (String × String)} {key : String}
    (h : key ∈ current.map Prod.fst) (old : Option String) :
    updated (current.map fun i => (i.1, some i.2)) key old = getItem current key := by
  induction current with
  | nil => cases h
  | cons i current ih =>
      rw [List.map_cons, updated_cons, getItem]
      by_cases hi : i.1 = key
      · simp [hi]
      · rw [if_neg hi, List.find?_cons_of_neg (by simpa using hi), ← getItem]
        exact ih ((List.mem_cons.mp h).resolve_left fun he => hi he.symm)

/-! ## A call -/

theorem plain_call {room token : String} (ht : PlainValue token) :
    Plain [(roomEnvKey room, some token), ("LOCA_SESSION", none)] where
  keys := by
    have := ne_session_of_isDavetKey (isDavetKey_roomEnvKey room)
    simpa using this
  values u hu value hv := by
    rcases List.mem_cons.mp hu with rfl | hu
    · exact Option.some.inj hv ▸ ht
    · rw [List.mem_singleton.mp hu] at hv
      cases hv

/-- What a call leaves under a key, when the cache took it. -/
theorem storeRoomInvite_taken {disk : Disk} {room token : String} {a a' : Agent} {stored : Bool}
    (h : storeRoomInvite disk room token a = (stored, a')) (hl : a.Loaded) (ht : PlainValue token)
    (htaken : stored = true ∨ a.environ.get (roomEnvKey room) = some token) :
    a'.Loaded ∧ ∀ key, key ≠ "LOCA_SESSION" →
      a'.environ.get key = if key = roomEnvKey room then some token else a.environ.get key := by
  unfold storeRoomInvite at h
  dsimp only at h
  split at h
  · next hthere =>
      obtain rfl := (Prod.mk.inj h).2
      refine ⟨hl, fun key _ => ?_⟩
      by_cases hk : key = roomEnvKey room
      · rw [if_pos hk, hk, hthere]
      · rw [if_neg hk]
  · next hnew =>
      split at h
      · next a'' hu =>
          obtain rfl := (Prod.mk.inj h).2
          obtain ⟨file, hfile, rfl⟩ := Agent.update_ok hu
          refine ⟨hl.update (plain_call ht) hfile, fun key hs => ?_⟩
          rw [get_applyUpdates (plain_call ht).keys, updated_cons, updated_cons]
          by_cases hk : key = roomEnvKey room
          · rw [if_pos hk.symm, if_pos hk]
          · rw [if_neg fun he : roomEnvKey room = key => hk he.symm, if_neg hk,
              if_neg fun he : "LOCA_SESSION" = key => hs he.symm]
            rfl
      · obtain ⟨rfl, -⟩ := Prod.mk.inj h
        rcases htaken with ht | ht
        · cases ht
        · exact absurd ht hnew

theorem storeRoomInvite_refused {disk : Disk} {room token : String} {a a' : Agent}
    (h : storeRoomInvite disk room token a = (false, a')) (hd : disk ≠ .failsAfter) : a' = a := by
  unfold storeRoomInvite at h
  dsimp only at h
  split at h
  · exact (Prod.mk.inj h).2.symm
  · split at h
    · cases h
    · next hu =>
        obtain rfl := (Prod.mk.inj h).2
        exact Agent.update_error hu hd

/-! ## A snapshot -/

/-- The davets of a snapshot by their keys, as the loop leaves them. -/
def byKey (invites : List (String × String)) (current : List (String × String)) :
    List (String × String) :=
  invites.foldl (fun d i => setItem d (roomEnvKey i.1) i.2) current

theorem readSnapshot_invites (py : Adapter.Python) {invites : List (String × String)}
    (h : ∀ i ∈ invites, stripped i.1 = i.1 ∧ i.1 ≠ "" ∧ PlainValue i.2)
    (current : List (String × String)) :
    readSnapshot py (invites.map inviteJson) current = .ok (byKey invites current) := by
  induction invites generalizing current with
  | nil => rfl
  | cons i invites ih =>
      obtain ⟨hr, hne, ht⟩ := h i List.mem_cons_self
      have hread : readInvite py (inviteJson i) = .ok i := by
        simp only [readInvite, inviteJson, Adapter.Python.strOr, Json.given, Json.field]
        simp [Option.filter, Json.truthy, Adapter.Python.str, hne, ht.1, hr, stripped_of_plain ht,
          require, pure, Except.pure]
      rw [List.map_cons, readSnapshot, hread, ok_bind]
      exact ih (fun j hj => h j (List.mem_cons_of_mem _ hj)) _

theorem byKey_nodup {invites current : List (String × String)} (h : (current.map Prod.fst).Nodup) :
    ((byKey invites current).map Prod.fst).Nodup := by
  induction invites generalizing current with
  | nil => exact h
  | cons i invites ih => exact ih (setItem_nodup h _ _)

theorem mem_byKey {invites current : List (String × String)} {k : String × String}
    (h : k ∈ byKey invites current) :
    k ∈ current ∨ ∃ i ∈ invites, k = (roomEnvKey i.1, i.2) := by
  induction invites generalizing current with
  | nil => exact .inl h
  | cons i invites ih =>
      rcases ih h with h | ⟨j, hj, hk⟩
      · rcases mem_setItem h with h | h
        · exact .inl h
        · exact .inr ⟨i, List.mem_cons_self, h⟩
      · exact .inr ⟨j, List.mem_cons_of_mem _ hj, hk⟩

/-- Where rooms fold apart, a room's key holds that room's davet. -/
theorem getItem_byKey {building : String → Prop} (hb : FoldsApart building)
    {invites : List (String × String)} (hn : (invites.map Prod.fst).Nodup)
    (hin : ∀ i ∈ invites, building i.1) (current : List (String × String)) {room : String}
    (hr : building room) :
    getItem (byKey invites current) (roomEnvKey room) =
      (getItem invites room).or (getItem current (roomEnvKey room)) := by
  induction invites generalizing current with
  | nil => rfl
  | cons i invites ih =>
      rw [List.map_cons, List.nodup_cons] at hn
      rw [byKey, List.foldl_cons, ← byKey, ih hn.2 (fun j hj => hin j (List.mem_cons_of_mem _ hj)),
        getItem_setItem]
      have hcons : getItem (i :: invites) room = if i.1 = room then some i.2 else getItem invites room := by
        by_cases hi : i.1 = room <;> simp [getItem, hi]
      rw [hcons]
      by_cases hi : i.1 = room
      · rw [if_pos hi, if_pos (hi ▸ rfl), getItem_eq_none.mpr (hi ▸ hn.1)]
        rfl
      · rw [if_neg hi, if_neg fun he => hi (hb.apart _ _ hr (hin i List.mem_cons_self) he).symm]

theorem mem_staleKeys {current : List (String × String)} {environ : Environ} {key : String} :
    key ∈ staleKeys current environ ↔
      (∃ v, environ.get key = some v) ∧ isDavetKey key = true ∧ key ∉ current.map Prod.fst := by
  rw [staleKeys, List.mem_filter, Assoc.mem_keys]
  simp only [Bool.and_eq_true, Bool.not_eq_true', ← Bool.not_eq_true, List.contains_iff_mem]

theorem plain_snapshot {current : List (String × String)} {environ : Environ}
    (hn : (current.map Prod.fst).Nodup)
    (hk : ∀ i ∈ current, isDavetKey i.1 = true ∧ PlainValue i.2) :
    Plain (snapshotUpdates current environ) where
  keys := by
    have hmap : (snapshotUpdates current environ).map Prod.fst =
        staleKeys current environ ++ current.map Prod.fst ++ ["LOCA_SESSION"] := by
      simp [snapshotUpdates, Function.comp_def]
    rw [hmap, List.nodup_append, List.nodup_append]
    refine ⟨⟨environ.nodupKeys.filter _, hn, ?_⟩, List.nodup_singleton _, ?_⟩
    · rintro k hks _ hkc rfl
      exact (mem_staleKeys.mp hks).2.2 hkc
    · rintro k hks _ hs rfl
      rw [List.mem_singleton.mp hs] at hks
      rcases List.mem_append.mp hks with hks | hks
      · exact absurd rfl (ne_session_of_isDavetKey (mem_staleKeys.mp hks).2.1)
      · obtain ⟨i, hi, he⟩ := List.mem_map.mp hks
        exact absurd he (ne_session_of_isDavetKey (hk i hi).1)
  values u hu value hv := by
    rcases List.mem_append.mp hu with hu | hu
    · rcases List.mem_append.mp hu with hu | hu
      · obtain ⟨key, -, rfl⟩ := List.mem_map.mp hu
        cases hv
      · obtain ⟨i, hi, rfl⟩ := List.mem_map.mp hu
        exact Option.some.inj hv ▸ (hk i hi).2
    · rw [List.mem_singleton.mp hu] at hv
      cases hv

/-- What a snapshot leaves, when it is accepted: under the davets' keys what it says. -/
theorem reconcile_accepted {py : Adapter.Python} {disk : Disk} {items : List Json}
    {current : List (String × String)} {removed : List String} {a a' : Agent}
    (hread : readSnapshot py items [] = .ok current)
    (h : reconcileRoomInviteSnapshot py disk (.arr items) a = (.ok removed, a')) (hl : a.Loaded)
    (hn : (current.map Prod.fst).Nodup) (hk : ∀ i ∈ current, isDavetKey i.1 = true ∧ PlainValue i.2) :
    a'.Loaded ∧ (∀ key, isDavetKey key = true → a'.environ.get key = getItem current key) ∧
      a'.environ.get "ROOM_TOKEN" = a.environ.get "ROOM_TOKEN" := by
  simp only [reconcileRoomInviteSnapshot, hread] at h
  split at h
  · split at h
    · next a'' hu =>
        obtain rfl := (Prod.mk.inj h).2
        obtain ⟨file, hfile, rfl⟩ := Agent.update_ok hu
        have hp := @plain_snapshot current a.environ hn hk
        have hstale : (staleKeys current a.environ).map (Prod.fst ∘ fun key => (key, (none : Option String))) =
            staleKeys current a.environ := List.map_id _
        have hsets : current.map (Prod.fst ∘ fun i => (i.1, some i.2)) = current.map Prod.fst := rfl
        refine ⟨hl.update hp hfile, fun key hd => ?_, ?_⟩
        · rw [get_applyUpdates hp.keys, snapshotUpdates, updated_append, updated_append, List.map_append,
            List.map_map, List.map_map, hstale, hsets]
          by_cases hs : key ∈ staleKeys current a.environ
          · have hc := (mem_staleKeys.mp hs).2.2
            rw [if_pos (List.mem_append_left _ hs), if_pos hs, updated_dels hs, getItem_eq_none.mpr hc]
          · by_cases hc : key ∈ current.map Prod.fst
            · rw [if_pos (List.mem_append_right _ hc), if_neg hs, updated_sets hc]
            · -- a davet that is neither current nor stale is not there
              rw [if_neg fun hm => (List.mem_append.mp hm).elim hs hc, updated_cons,
                if_neg (ne_session_of_isDavetKey hd).symm, getItem_eq_none.mpr hc]
              cases hg : a.environ.get key with
              | none => rfl
              | some v => exact absurd (mem_staleKeys.mpr ⟨⟨v, hg⟩, hd, hc⟩) hs
        · rw [get_applyUpdates hp.keys, updated_of_not_mem]
          intro hm
          obtain ⟨u, hu, he⟩ := List.mem_map.mp hm
          rcases List.mem_append.mp hu with hu | hu
          · rcases List.mem_append.mp hu with hu | hu
            · obtain ⟨key, hs, rfl⟩ := List.mem_map.mp hu
              exact ne_legacy_of_isDavetKey (mem_staleKeys.mp hs).2.1 he
            · obtain ⟨i, hi, rfl⟩ := List.mem_map.mp hu
              exact ne_legacy_of_isDavetKey (hk i hi).1 he
          · rw [List.mem_singleton.mp hu] at he
            exact absurd he (by decide)
    · cases h
  · next hsame =>
      obtain rfl := (Prod.mk.inj h).2
      simp only [Bool.or_eq_true, not_or, Bool.not_eq_true, List.any_eq_false, decide_eq_true_eq,
        Bool.not_eq_false', List.isEmpty_iff, not_not, ne_eq] at hsame
      obtain ⟨hcur, hstale⟩ := hsame
      refine ⟨hl, fun key hd => ?_, rfl⟩
      cases hg : getItem current key with
      | some v => exact hcur _ ((getItem_eq_some hn).mp hg)
      | none =>
          cases he : a.environ.get key with
          | none => rfl
          | some v =>
              have hs := mem_staleKeys.mpr ⟨⟨v, he⟩, hd, getItem_eq_none.mp hg⟩
              rw [hstale] at hs
              cases hs

theorem reconcile_refused {py : Adapter.Python} {disk : Disk} {invites : Json} {e : CredentialFault}
    {a a' : Agent} (h : reconcileRoomInviteSnapshot py disk invites a = (.error e, a'))
    (hd : disk ≠ .failsAfter) : a' = a := by
  unfold reconcileRoomInviteSnapshot at h
  split at h
  · split at h
    · exact (Prod.mk.inj h).2.symm
    · dsimp only at h
      split at h
      · split at h
        · cases h
        · next hu =>
            obtain rfl := (Prod.mk.inj h).2
            exact Agent.update_error hu hd
      · cases h
  · exact (Prod.mk.inj h).2.symm

/-! ## Every run -/

/-- The environment holds the davets of the rooms of the building that are known, and no other
davet for a room of the building. -/
structure Keeps (building : String → Prop) (known : List (String × String)) (environ : Environ) :
    Prop where
  rooms : (known.map Prod.fst).Nodup
  issued : ∀ i ∈ known, Issued building environ i
  davets : ∀ room, building room → environ.get (roomEnvKey room) = getItem known room

theorem Keeps.faithful {building : String → Prop} {known : List (String × String)} {environ : Environ}
    (h : Keeps building known environ) : Faithful building known environ where
  called i hi := by
    have hget := (h.davets i.1 (h.issued i hi).1).trans ((getItem_eq_some h.rooms).mpr hi)
    have hne : i.2 ≠ "" := (h.issued i hi).2.1.1
    simp [tokenForRoom, hget, Option.filter, hne]
  others room hr hnot i hi := by
    have hget := (h.davets room hr).trans (getItem_eq_none.mpr hnot)
    have hlegacy : tokenForRoom environ room = legacyToken environ := by
      simp [tokenForRoom, hget]
    rw [hlegacy, legacyToken]
    cases hl : environ.get "ROOM_TOKEN" with
    | none => exact fun he => (h.issued i hi).2.1.1 he.symm
    | some t => exact fun he => (h.issued i hi).2.2 (hl.trans (congrArg some he))

/-- A davet is kept as long as the environment agrees on bound keys. -/
theorem Keeps.congr {building : String → Prop} (hb : FoldsApart building) {known : List (String × String)}
    {environ environ' : Environ} (h : Keeps building known environ)
    (he : ∀ key, isBoundKey key = true → environ'.get key = environ.get key) :
    Keeps building known environ' where
  rooms := h.rooms
  issued i hi := by
    obtain ⟨hr, ht, hl⟩ := h.issued i hi
    exact ⟨hr, ht, by rwa [he "ROOM_TOKEN" (by decide)]⟩
  davets room hr := by
    rw [he _ (isBoundKey_roomEnvKey (hb.named room hr).2)]
    exact h.davets room hr

/-- What holds of the cache in every state reached. -/
structure CacheLaw (building : String → Prop) (c : Cache) : Prop where
  loaded : c.agent.Loaded
  keeps : ∀ known, c.known = some known → Keeps building known c.agent.environ

variable {building : String → Prop}

theorem step_snapshot (py : Adapter.Python) (hb : FoldsApart building) {c : Cache}
    (hc : CacheLaw building c) {invites : List (String × String)} {disk : Disk}
    (hf : FromLobby building c (.snapshot invites disk)) :
    CacheLaw building (c.step py (.snapshot invites disk)).2 := by
  obtain ⟨hn, hin, hdisk⟩ := hf
  have hread : readSnapshot py (invites.map inviteJson) [] = .ok (byKey invites []) :=
    readSnapshot_invites py (fun i hi =>
      ⟨(hb.named i.1 (hin i hi).1).1, (hb.named i.1 (hin i hi).1).2, (hin i hi).2.1⟩) []
  have hkeys : ∀ i ∈ byKey invites [], isDavetKey i.1 = true ∧ PlainValue i.2 := by
    intro k hk
    rcases mem_byKey hk with hk | ⟨i, hi, rfl⟩
    · cases hk
    · exact ⟨isDavetKey_roomEnvKey i.1, (hin i hi).2.1⟩
  unfold Cache.step
  dsimp only
  split
  · next removed a' hrec =>
      obtain ⟨hl, hdavets, hlegacy⟩ := reconcile_accepted hread hrec hc.loaded (byKey_nodup .nil) hkeys
      refine ⟨hl, fun known hk => ?_⟩
      obtain rfl := Option.some.inj hk
      refine ⟨hn, fun i hi => ?_, fun room hr => ?_⟩
      · obtain ⟨hr, ht, hleg⟩ := hin i hi
        exact ⟨hr, ht, by rwa [hlegacy]⟩
      · rw [hdavets _ (isDavetKey_roomEnvKey room),
          getItem_byKey hb hn (fun i hi => (hin i hi).1) [] hr]
        exact Option.or_none
  · next e a' hrec =>
      obtain rfl := reconcile_refused hrec hdisk
      exact ⟨hc.loaded, hc.keeps⟩

theorem step_called (py : Adapter.Python) (hb : FoldsApart building) {c : Cache}
    (hc : CacheLaw building c) {room token : String} {disk : Disk}
    (hf : FromLobby building c (.called room token disk)) :
    CacheLaw building (c.step py (.called room token disk)).2 := by
  obtain ⟨⟨hroom, htoken, hlegacy⟩, hdisk⟩ := hf
  obtain ⟨stored, a', hs⟩ : ∃ stored a', storeRoomInvite disk room token c.agent = (stored, a') :=
    ⟨_, _, rfl⟩
  simp only [Cache.step, hs]
  split
  · next htaken =>
      simp only [Bool.or_eq_true, decide_eq_true_eq] at htaken
      obtain ⟨hl, hget⟩ := storeRoomInvite_taken hs hc.loaded htoken htaken
      have hleg : a'.environ.get "ROOM_TOKEN" = c.agent.environ.get "ROOM_TOKEN" := by
        rw [hget _ (by decide), if_neg (ne_legacy_of_isDavetKey (isDavetKey_roomEnvKey room)).symm]
      refine ⟨hl, fun known hk => ?_⟩
      obtain ⟨known, hknown, rfl⟩ := Option.map_eq_some_iff.mp hk
      have hkeep := hc.keeps known hknown
      refine ⟨setItem_nodup hkeep.rooms _ _, fun i hi => ?_, fun r hr => ?_⟩
      · rcases mem_setItem hi with hi | rfl
        · obtain ⟨hr, ht, hle⟩ := hkeep.issued i hi
          exact ⟨hr, ht, by rwa [hleg]⟩
        · exact ⟨hroom, htoken, by rwa [hleg]⟩
      · rw [hget _ (ne_session_of_isDavetKey (isDavetKey_roomEnvKey r)), getItem_setItem]
        by_cases he : r = room
        · rw [if_pos he, if_pos (congrArg roomEnvKey he)]
        · rw [if_neg he, if_neg fun hk => he (hb.apart r room hr hroom hk)]
          exact hkeep.davets r hr
  · next hnot =>
      have hstored : stored = false := by
        cases stored with
        | false => rfl
        | true => exact absurd (Bool.true_or _) hnot
      obtain rfl := storeRoomInvite_refused (hstored ▸ hs) hdisk
      exact ⟨hc.loaded, hc.keeps⟩

theorem run_cacheLaw (py : Adapter.Python) (hb : FoldsApart building) {tr : List (Lobby × Bool)}
    {c : Cache} (r : Sys.Run (cacheMachine py) (FromLobby building) tr c) : CacheLaw building c := by
  have hinit : ∀ c, (cacheMachine py).init c → CacheLaw building c := by
    rintro c ⟨hk, hl⟩
    refine ⟨hl, fun known hknown => ?_⟩
    rw [hk] at hknown
    cases hknown
  refine r.invariant hinit fun c l hc hf => ?_
  cases l with
  | snapshot invites disk => exact step_snapshot py hb hc hf
  | called room token disk => exact step_called py hb hc hf

/-- In every run over a building whose rooms fold apart, the cache is faithful to what the lobby
said last, in the environment and in what loading the file again makes of it. -/
theorem cache_is_faithful (py : Adapter.Python) {building : String → Prop} (hb : FoldsApart building)
    {tr : List (Lobby × Bool)} {c : Cache} (r : Sys.Run (cacheMachine py) (FromLobby building) tr c)
    {known : List (String × String)} (hk : c.known = some known) :
    Faithful building known c.agent.environ ∧
      (∃ environ, loadLocalEnv none c.agent = .ok environ) ∧
      ∀ name environ, loadLocalEnv name c.agent = .ok environ → Faithful building known environ := by
  have hlaw := run_cacheLaw py hb r
  obtain ⟨bs, hholds, hget⟩ := hlaw.loaded
  have hkeep := hlaw.keeps known hk
  refine ⟨hkeep.faithful, exists_loadLocalEnv hholds, fun name environ hload => ?_⟩
  exact (hkeep.congr hb fun key hkey =>
    (loadLocalEnv_get hholds hload hkey).trans (hget key hkey).symm).faithful

/-! ## Two rooms, and one too many -/

/-- `bob`, who has just loaded a file that holds his name. -/
def sampleAgent : Agent := ⟨bindAll [("LOCA_NAME", "bob")] ∅, some "LOCA_NAME=bob\n"⟩

theorem sampleAgent_loaded : sampleAgent.Loaded :=
  ⟨[("LOCA_NAME", "bob")], ⟨by decide, (@parseLines_ok 1 _ _).mp (by rfl)⟩, fun _ _ => rfl⟩

def sampleLobby : List Lobby :=
  [.snapshot [("den", "dv_1")] .works, .called "attic-2" "dv_2" .works]

/-- A snapshot and a call, over a building of two rooms. -/
theorem faithful_sample :
    Faithful (fun room => room ∈ ["den", "attic-2"]) [("den", "dv_1"), ("attic-2", "dv_2")]
      ((cacheMachine asciiInterpreter.toPython).exec sampleLobby [] ⟨sampleAgent, none⟩).2.agent.environ := by
  have hb : FoldsApart fun room => room ∈ ["den", "attic-2"] := by
    refine ⟨by decide +kernel, fun room other hr ho => ?_⟩
    have hkeys : ∀ room ∈ ["den", "attic-2"], ∀ other ∈ ["den", "attic-2"],
        roomEnvKey room = roomEnvKey other → room = other := by decide +kernel
    exact hkeys room hr other ho
  have hadmits : (cacheMachine asciiInterpreter.toPython).Admits
      (FromLobby fun room => room ∈ ["den", "attic-2"]) sampleLobby ⟨sampleAgent, none⟩ := by
    refine ⟨⟨by decide, ?_, by decide⟩, ⟨⟨by decide, by decide, ?_⟩, by decide⟩, trivial⟩
    · intro i hi
      rw [List.mem_singleton.mp hi]
      exact ⟨by decide, by decide, by decide⟩
    · decide +kernel
  exact (cache_is_faithful asciiInterpreter.toPython hb
    (Sys.Run.exec sampleLobby hadmits (.nil ⟨rfl, sampleAgent_loaded⟩)) (by rfl)).1

/-- One snapshot, and what it leaves behind. -/
def afterSnapshot (invites : List (String × String)) : Except CredentialFault (List String) × Agent :=
  reconcileRoomInviteSnapshot asciiInterpreter.toPython .works (.arr (invites.map inviteJson))
    sampleAgent

/-- `a-b` and `a_b` fold to one key: in one snapshot the later davet wins, and a room that is not
in the snapshot finds the other's. -/
theorem folded_rooms_share_a_davet :
    (afterSnapshot [("a-b", "dv_1"), ("a_b", "dv_2")]).1 = .ok [] ∧
    tokenForRoom (afterSnapshot [("a-b", "dv_1"), ("a_b", "dv_2")]).2.environ "a-b" = "dv_2" ∧
    tokenForRoom (afterSnapshot [("a-b", "dv_1")]).2.environ "a_b" = "dv_1" ∧
    ¬∀ (invites : List (String × String)) (removed : List String), (invites.map Prod.fst).Nodup →
      (afterSnapshot invites).1 = .ok removed →
      Faithful (fun _ => True) invites (afterSnapshot invites).2.environ := by
  have hok : (afterSnapshot [("a-b", "dv_1"), ("a_b", "dv_2")]).1 = .ok [] := by rfl
  have hshared : tokenForRoom (afterSnapshot [("a-b", "dv_1"), ("a_b", "dv_2")]).2.environ "a-b" =
      "dv_2" := by decide +kernel
  refine ⟨hok, hshared, by decide +kernel, fun h => ?_⟩
  have hown := (h [("a-b", "dv_1"), ("a_b", "dv_2")] [] (by decide) hok).called ("a-b", "dv_1")
    List.mem_cons_self
  exact absurd (hshared.symm.trans hown) (by decide)

end Loca
