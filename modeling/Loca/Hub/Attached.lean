/-
# `Loca.Hub.Attached` — the law of attachments

What the invariants of `Loca.Hub.Attachments` say in the words of a user: a file that is cited or
waits to be sent is there; every file of every stored message is served in its room, and in no
room that does not cite it; a sweep takes neither; and the quotas bound the distinct bytes of a
room and of the building.

Two things go wrong, and each has its condition: `attachments_kept` for the age a sweep allows,
`sweep_leaves_live_files` for the file whose row was not written.
-/
import Loca.Hub.Attachments
import Loca.Hub.Refusal

namespace Loca

open Check Table

/-! ## The law of attachments -/

/-- The bytes on disk under some hashes, each counted once. -/
def Shelf.weigh (s : Shelf) (shas : List String) : Nat :=
  (shas.dedup.map fun sha => ((s.files.get sha).map Bytes.size).getD 0).sum

/-- The hashes cited or waiting in a room. -/
def roomShas (room : String) (db : Db) : List String :=
  (db.attachmentRefs.filter fun r => r.room = room).map AttachmentRefRow.sha ++
    (db.attachmentPending.filter fun r => r.room = room).map AttachmentPendingRow.sha

/-- The hashes the building knows of. -/
def buildingShas (db : Db) : List String :=
  db.attachmentRefs.map AttachmentRefRow.sha ++ db.attachmentPending.map AttachmentPendingRow.sha ++
    db.attachmentBlobs.map AttachmentBlobRow.sha

/-- The hash is in the index and its file is there. -/
def Shelf.has (s : Shelf) (sha : String) : Prop :=
  (∃ b ∈ s.db.attachmentBlobs, b.sha = sha) ∧ (s.files.get sha).isSome = true

/-- Nothing is lost and nothing is served where it is not cited; a sweep that allows an age of less
than `2 ^ 63` takes neither what is cited nor what is younger; the quotas hold. -/
structure AttachmentLaw (cfg : BlobConfig) (s : AttachState) : Prop where
  refs : ∀ r ∈ s.shelf.db.attachmentRefs, s.shelf.has r.sha
  pending : ∀ r ∈ s.shelf.db.attachmentPending, s.shelf.has r.sha
  readable : ∀ m ∈ s.shelf.db.messages, ∀ a ∈ m.files, ∃ b ∈ s.uploads, cfg.sha b = a.id ∧
    b.size = a.size ∧ ∃ mime name,
      readRoomAttachment cfg (fun _ => false) m.room a.id s.shelf = some ⟨b, mime, name⟩
  served : ∀ fails room id x, readRoomAttachment cfg fails room id s.shelf = some x →
    ∃ m ∈ s.shelf.db.messages, m.room = room ∧ ∃ a ∈ m.files, a.sha256 = id
  swept : ∀ (fails : AttachCall → Bool) (now ttl : UInt64), ttl.toNat < 2 ^ 63 →
    (∀ r ∈ s.shelf.db.attachmentRefs, r ∈ (sweepAttachments fails now ttl s.shelf).2.db.attachmentRefs ∧
      (sweepAttachments fails now ttl s.shelf).2.has r.sha) ∧
    ∀ r ∈ s.shelf.db.attachmentPending, now.toNat ≤ r.createdAt + ttl.toNat →
      r ∈ (sweepAttachments fails now ttl s.shelf).2.db.attachmentPending ∧
        (sweepAttachments fails now ttl s.shelf).2.has r.sha
  room : ∀ room, s.shelf.weigh (roomShas room s.shelf.db) ≤ cfg.roomMax
  building : s.shelf.weigh (buildingShas s.shelf.db) ≤ cfg.buildingMax

theorem Backed.has {s : Shelf} {sha : String} {size : Nat} (h : Backed s sha size) : s.has sha := by
  obtain ⟨b, hget, -⟩ := h.file
  exact ⟨h.row, by rw [hget]; rfl⟩

/-- The file under a hash that some row gives a size weighs that size. -/
theorem Backed.weight {s : Shelf} {sha : String} {size : Nat} (h : Backed s sha size) :
    ((s.files.get sha).map Bytes.size).getD 0 = size := by
  obtain ⟨b, hget, hsize⟩ := h.file
  rw [hget]
  exact hsize

namespace Indexed

variable {cfg : BlobConfig} {uploads : List Bytes} {s : Shelf}

theorem weigh_room (h : Indexed cfg uploads s) (room : String) :
    s.weigh (roomShas room s.db) ≤ cfg.roomMax := by
  let pair : String → String × Nat := fun sha => (sha, ((s.files.get sha).map Bytes.size).getD 0)
  have hpairs : s.weigh (roomShas room s.db) =
      (((roomShas room s.db).dedup.map pair).map Prod.snd).sum := by
    rw [List.map_map]
    rfl
  rw [hpairs]
  refine (sum_le_of_nodup ?_ fun x hx => ?_).trans (h.room room)
  · exact (List.nodup_dedup _).map fun a b hab => congrArg Prod.fst hab
  · obtain ⟨sha, hsha, rfl⟩ := List.mem_map.mp hx
    have hrow : ∃ size, (sha, size) ∈ roomFiles room s.db := by
      rcases List.mem_append.mp (List.mem_dedup.mp hsha) with hmem | hmem
      · obtain ⟨r, hrow, rfl⟩ := List.mem_map.mp hmem
        obtain ⟨hr, hroom⟩ := List.mem_filter.mp hrow
        exact ⟨r.size, mem_roomFiles.mpr (.inl ⟨r, hr, by simpa using hroom, rfl, rfl⟩)⟩
      · obtain ⟨r, hrow, rfl⟩ := List.mem_map.mp hmem
        obtain ⟨hr, hroom⟩ := List.mem_filter.mp hrow
        exact ⟨r.size, mem_roomFiles.mpr (.inr ⟨r, hr, by simpa using hroom, rfl, rfl⟩)⟩
    obtain ⟨size, hmem⟩ := hrow
    show (sha, ((s.files.get sha).map Bytes.size).getD 0) ∈ _
    rw [(h.backed hmem).weight]
    exact hmem

theorem weigh_building (h : Indexed cfg uploads s) : s.weigh (buildingShas s.db) ≤ cfg.buildingMax := by
  have hindexed : ∀ sha ∈ (buildingShas s.db).dedup, sha ∈ s.db.attachmentBlobs.map AttachmentBlobRow.sha := by
    intro sha hsha
    have hrow : ∃ b ∈ s.db.attachmentBlobs, b.sha = sha := by
      rcases List.mem_append.mp (List.mem_dedup.mp hsha) with hmem | hmem
      · rcases List.mem_append.mp hmem with hmem | hmem
        · obtain ⟨r, hr, rfl⟩ := List.mem_map.mp hmem
          exact (h.refs r hr).row
        · obtain ⟨r, hr, rfl⟩ := List.mem_map.mp hmem
          exact (h.pending r hr).row
      · exact List.mem_map.mp hmem
    obtain ⟨b, hb, rfl⟩ := hrow
    exact List.mem_map_of_mem hb
  calc s.weigh (buildingShas s.db)
      ≤ ((s.db.attachmentBlobs.map AttachmentBlobRow.sha).map fun sha =>
          ((s.files.get sha).map Bytes.size).getD 0).sum := sum_le_of_nodup (List.nodup_dedup _) hindexed
    _ = (s.db.attachmentBlobs.map fun row => ((s.files.get row.sha).map Bytes.size).getD 0).sum := by
        rw [List.map_map]
        rfl
    _ ≤ (s.db.attachmentBlobs.map AttachmentBlobRow.size).sum := by
        refine List.sum_le_sum fun row hrow => ?_
        -- a row without a file weighs nothing, and a file weighs what its row says
        cases hget : s.files.get row.sha with
        | none => exact Nat.zero_le _
        | some b =>
            obtain ⟨hsha, hb⟩ := h.files _ b hget
            obtain ⟨b', hb', hsha', hsize⟩ := h.sized row hrow
            rw [← hsize, ← h.honest b hb b' hb' (hsha.trans hsha'.symm)]
            exact Nat.le_refl _
    _ ≤ cfg.buildingMax := h.building

end Indexed

theorem AttachKept.readable {cfg : BlobConfig} {s : AttachState} (h : AttachKept cfg s) {m : MessageRow}
    (hm : m ∈ s.shelf.db.messages) {a : Attachment} (ha : a ∈ m.files) :
    ∃ b ∈ s.uploads, cfg.sha b = a.id ∧ b.size = a.size ∧ ∃ mime name,
      readRoomAttachment cfg (fun _ => false) m.room a.id s.shelf = some ⟨b, mime, name⟩ := by
  obtain ⟨r, hr, hroom, -, hsha, hsize⟩ := h.archive.held m hm a ha
  obtain ⟨b, hget, hbsize⟩ := (h.index.refs r hr).file
  obtain ⟨hbsha, hb⟩ := h.index.files r.sha b hget
  have hid : a.id = r.sha := (h.stored m hm a ha).1.trans hsha.symm
  refine ⟨b, hb, hbsha.trans hid.symm, hbsize.trans hsize, ?_⟩
  have hfind : ∃ r', s.shelf.db.attachmentRefs.find? (fun x => x.room = m.room && x.sha = a.id) = some r' := by
    refine Option.isSome_iff_exists.mp (List.find?_isSome.mpr ⟨r, hr, ?_⟩)
    simp [hroom, hid]
  obtain ⟨r', hr'⟩ := hfind
  refine ⟨r'.mime, r'.name, ?_⟩
  rw [hid] at hr' ⊢
  simp [readRoomAttachment, readUnless, hr', readBlob, hget, hbsha, Option.filter]

theorem AttachKept.law {cfg : BlobConfig} {s : AttachState} (h : AttachKept cfg s) : AttachmentLaw cfg s where
  refs r hr := (h.index.refs r hr).has
  pending r hr := (h.index.pending r hr).has
  readable m hm a ha := h.readable hm ha
  served fails room id x hx := by
    obtain ⟨r, hr, -⟩ := Option.bind_eq_some_iff.mp hx
    unfold readUnless at hr
    split at hr
    · cases hr
    · have hp := List.find?_some hr
      simp only [Bool.and_eq_true, decide_eq_true_eq] at hp
      obtain ⟨m, hm, -, hroom, a, ha, hsha⟩ := h.archive.cited r (List.mem_of_find?_eq_some hr)
      exact ⟨m, hm, hroom.trans hp.1, a, ha, hsha.trans hp.2⟩
  swept fails now ttl ht := by
    obtain ⟨pending, -, hkeep, hi, hs⟩ :=
      @sweepAttachments_spec cfg s.uploads fails s.shelf h.index now ttl
    refine ⟨fun r hr => ?_, fun r hr hyoung => ?_⟩
    · have hr' : r ∈ (sweepAttachments fails now ttl s.shelf).2.db.attachmentRefs := hs.refs ▸ hr
      exact ⟨hr', (hi.refs r hr').has⟩
    · have hr' : r ∈ (sweepAttachments fails now ttl s.shelf).2.db.attachmentPending :=
        hs.pending ▸ hkeep r hr (not_expired (h.index.young r hr) ht hyoung)
      exact ⟨hr', (hi.pending r hr').has⟩
  room := h.index.weigh_room
  building := h.index.weigh_building

/-- In every run in which the hash tells the uploads apart and the clock of every upload fits in an
`i64`, whatever statement fails: the law holds in every state. -/
theorem attachments_kept {cfg : BlobConfig} {tr : List (AttachInput × Unit)} {s : AttachState}
    (r : Sys.Run (attachMachine cfg) (fun s i => i.CollisionFree cfg s ∧ i.InRange) tr s) :
    AttachmentLaw cfg s := (run_kept r).law

/-! ### A small building -/

def abcBytes : Bytes := ⟨[0x61, 0x62, 0x63], by decide⟩

/-- The digests of `abc` and of nothing. -/
def sampleBlobs : BlobConfig where
  sha b := if b.data = [0x61, 0x62, 0x63] then
      "ba7816bf8f01cfea414140de5dae2223b00361a396177a9cb410ff61f20015ad"
    else "e3b0c44298fc1c149afbf4c8996fb92427ae41e4649b934ca495991b7852b855"
  roomMax := 1000
  buildingMax := 1000

theorem sampleClock : (1000 : UInt64).toNat < 2 ^ 63 := by decide

def citedMessage : Message :=
  ⟨7, "", "ann", .user, none, "see this", .say, none, none, 1500, []⟩

def citedInputs : List AttachInput :=
  [.upload (fun _ => false) "den" "ann" "a.txt" "text/plain" abcBytes 1000,
    .cite (sampleEnv 1200 fun _ => false) "den"
      ["ba7816bf8f01cfea414140de5dae2223b00361a396177a9cb410ff61f20015ad"],
    .store (fun _ => false) 0 citedMessage none .plain,
    .sweep (fun _ => false) 9000000 1]

def citedState : AttachState := ((attachMachine sampleBlobs).exec citedInputs [] ⟨⟨{}, ∅⟩, [], []⟩).2

theorem citedState_cited :
    (∃ m ∈ citedState.shelf.db.messages, m.room = "den" ∧ m.files ≠ []) ∧
    ∃ x ∈ citedState.shelf.db.attachmentRefs, x.sha = sampleBlobs.sha abcBytes := by
  decide +kernel

/-- The file of the stored message is served, after a sweep too. -/
theorem attachments_kept_sample :
    (∃ m ∈ citedState.shelf.db.messages, m.room = "den" ∧ m.files ≠ []) ∧
    AttachmentLaw sampleBlobs citedState := by
  refine ⟨citedState_cited.1, attachments_kept (Sys.Run.exec citedInputs ?_ (.nil rfl))⟩
  exact ⟨⟨fun b hb => (by cases hb), sampleClock⟩, ⟨trivial, trivial⟩, ⟨trivial, trivial⟩, ⟨trivial, trivial⟩,
    trivial⟩

def freshInputs : List AttachInput :=
  [.upload (fun _ => false) "den" "ann" "a.txt" "text/plain" abcBytes 1000]

/-- An operator who wants uploads to stay for ever sets the largest age there is; read as a signed
number it is `-1`, and the sweep takes an upload of the same millisecond. -/
theorem largest_age_sweeps_all :
    ¬ ∀ tr s, Sys.Run (attachMachine sampleBlobs)
        (fun s i => i.CollisionFree sampleBlobs s ∧ i.InRange) tr s →
      ∀ (now ttl : UInt64), ∀ r ∈ s.shelf.db.attachmentPending, now.toNat < r.createdAt + ttl.toNat →
        r ∈ (sweepAttachments (fun _ => false) now ttl s.shelf).2.db.attachmentPending := by
  intro h
  have hrun := @Sys.Run.exec _ _ _ (attachMachine sampleBlobs)
    (fun s i => i.CollisionFree sampleBlobs s ∧ i.InRange) freshInputs _ _
    ⟨⟨fun b hb => (by cases hb), sampleClock⟩, trivial⟩ (.nil rfl)
  have hswept : ∃ r ∈
      ((attachMachine sampleBlobs).exec freshInputs [] ⟨⟨{}, ∅⟩, [], []⟩).2.shelf.db.attachmentPending,
      (1000 : UInt64).toNat < r.createdAt + (18446744073709551615 : UInt64).toNat ∧
      r ∉ (sweepAttachments (fun _ => false) 1000 18446744073709551615
        ((attachMachine sampleBlobs).exec freshInputs [] ⟨⟨{}, ∅⟩, [], []⟩).2.shelf).2.db.attachmentPending := by
    decide +kernel
  obtain ⟨r, hr, hyoung, hgone⟩ := hswept
  exact hgone (h _ _ hrun 1000 18446744073709551615 r hr hyoung)

/-! ## No file is left behind -/

/-- An upload whose file lands and whose row does not: nothing in the tables names the file. -/
def AttachInput.Stranding (cfg : BlobConfig) (s : AttachState) : AttachInput → Prop
  | .upload fails room _ _ _ bytes _ => admitUpload cfg fails room bytes s.shelf.db = .ok () ∧
      fails .putFile = false ∧ fails .insertBlob = true ∧
      hasKey AttachmentBlobRow.sha (cfg.sha bytes) s.shelf.db.attachmentBlobs = false
  | _ => False

/-- Every file is in the index. -/
def Catalogued (s : Shelf) : Prop :=
  ∀ sha, (s.files.get sha).isSome = true → ∃ b ∈ s.db.attachmentBlobs, b.sha = sha

namespace Catalogued

variable {cfg : BlobConfig} {s : Shelf}

theorem upload (h : Catalogued s) {fails : AttachCall → Bool} {room uploader name mime : String}
    {bytes : Bytes} {now : UInt64}
    (hok : ¬ (admitUpload cfg fails room bytes s.db = .ok () ∧ fails .putFile = false ∧
      fails .insertBlob = true ∧ hasKey AttachmentBlobRow.sha (cfg.sha bytes) s.db.attachmentBlobs = false)) :
    Catalogued (putPendingAttachment cfg fails room uploader name mime bytes now s).2 := by
  have hput : ∀ sha, ((putBlob cfg bytes s.files).get sha).isSome = true →
      sha = cfg.sha bytes ∨ ∃ b ∈ s.db.attachmentBlobs, b.sha = sha := by
    intro sha hsome
    unfold putBlob at hsome
    split at hsome
    · exact .inr (h sha hsome)
    · rw [Assoc.get_put] at hsome
      split at hsome
      · next he => exact .inl he
      · exact .inr (h sha hsome)
  have hgrow : ∀ (mime : String) (now : Nat) sha, ((putBlob cfg bytes s.files).get sha).isSome = true →
      ∃ b ∈ insertIgnore AttachmentBlobRow.sha ⟨cfg.sha bytes, mime, bytes.size, now⟩ s.db.attachmentBlobs,
        b.sha = sha := by
    intro mime now sha hsome
    rcases hput sha hsome with rfl | ⟨b, hb, hsha⟩
    · exact exists_insertIgnore _
    · refine ⟨b, ?_, hsha⟩
      unfold insertIgnore
      split
      · exact hb
      · exact List.mem_append_left _ hb
  unfold putPendingAttachment
  dsimp only
  split
  · exact h
  · next hfits =>
    split
    · exact h
    · next hfile =>
      split
      · next hins =>
        -- the row was there already
        intro sha hsome
        rcases hput sha hsome with rfl | hrow
        · by_contra hnone
          refine hok ⟨hfits, by simpa using hfile, hins, ?_⟩
          refine Bool.eq_false_iff.mpr fun hk => hnone (hasKey_iff.mp hk)
        · exact hrow
      · split
        · exact hgrow mime now.toNat
        · exact hgrow mime now.toNat

theorem sweepBlobs (fails : AttachCall → Bool) (shas : List String) (acc : Nat × Shelf) (h : Catalogued acc.2) :
    Catalogued (shas.foldl (sweepBlob fails) acc).2 := by
  induction shas generalizing acc with
  | nil => exact h
  | cons sha shas ih =>
      rw [List.foldl_cons]
      refine ih _ ?_
      unfold sweepBlob
      split
      · exact h
      · intro x hsome
        change ((acc.2.files.del sha).get x).isSome = true at hsome
        rw [Assoc.get_del] at hsome
        split at hsome
        · cases hsome
        · next hne =>
          obtain ⟨b, hb, hsha⟩ := h x hsome
          refine ⟨b, ?_, hsha⟩
          dsimp only
          split
          · exact hb
          · exact mem_deleteWhere.mpr ⟨hb, by simpa [hsha] using hne⟩

end Catalogued

theorem step_catalogued {cfg : BlobConfig} {s : AttachState} {i : AttachInput} (h : Catalogued s.shelf)
    (hi : ¬ i.Stranding cfg s) : Catalogued (s.step cfg i).shelf := by
  cases i with
  | upload fails room uploader name mime bytes now => exact h.upload hi
  | cite env room ids =>
      simp only [AttachState.step]
      split
      · exact h
      · exact h
  | store fails k m operation write =>
      simp only [AttachState.step]
      split
      · exact h
      · split
        · exact h
        · split
          · exact h
          · next db hw =>
            obtain ⟨-, db₁, db₂, ⟨hblobs₁, -, -⟩, hclaims, -, hblobs, -⟩ := MessageWrite.run_ok hw
            obtain ⟨refs, pending, he⟩ := writeAttachmentRefs_ok hclaims
            have hsame : db.attachmentBlobs = s.shelf.db.attachmentBlobs := by
              rw [hblobs, he]
              exact hblobs₁
            intro sha hsome
            obtain ⟨b, hb, hsha⟩ := h sha hsome
            exact ⟨b, hsame.symm ▸ hb, hsha⟩
  | refuse k => exact h
  | delete p => exact h
  | sweep fails now ttl =>
      refine Catalogued.sweepBlobs fails _ (0, { s.shelf with db := dropExpired fails now ttl s.shelf.db }) ?_
      obtain ⟨pending, hdb, -⟩ := dropExpired_eq fails now ttl s.shelf.db
      rw [hdb]
      exact h
  | restart => exact h

theorem run_catalogued {cfg : BlobConfig} {tr : List (AttachInput × Unit)} {s : AttachState}
    (r : Sys.Run (attachMachine cfg)
      (fun s i => (i.CollisionFree cfg s ∧ i.InRange) ∧ ¬ i.Stranding cfg s) tr s) : Catalogued s.shelf := by
  refine Sys.Run.invariant (I := fun s : AttachState => Catalogued s.shelf) ?_ ?_ r
  · rintro s rfl
    exact fun sha hsome => by cases hsome
  · exact fun s i h hi => step_catalogued h hi.2

/-- When nothing fails, the files of the hashes visited are gone, and no other. -/
theorem get_sweepBlobs (shas : List String) (acc : Nat × Shelf) (x : String) :
    (shas.foldl (sweepBlob fun _ => false) acc).2.files.get x =
      if x ∈ shas then none else acc.2.files.get x := by
  induction shas generalizing acc with
  | nil => rfl
  | cons sha shas ih =>
      rw [List.foldl_cons, ih]
      have hone : (sweepBlob (fun _ => false) acc sha).2.files.get x =
          if x = sha then none else acc.2.files.get x := Assoc.get_del x sha acc.2.files
      rw [hone]
      by_cases hx : x = sha
      · simp [hx]
      · simp [hx]

/-- Past the cutoff is older than allowed, where no number wraps. -/
theorem expired_iff {created : Nat} {now ttl : UInt64} (hc : created < 2 ^ 63) (hn : now.toNat < 2 ^ 63)
    (ht : ttl.toNat < 2 ^ 63) : signed created < cutoff now ttl ↔ created + ttl.toNat < now.toNat := by
  unfold cutoff signed
  rw [if_pos hc, if_pos hn, if_pos ht]
  omega

/-- In every run, whatever fails, in which no upload leaves its file without a row: a sweep that
does not fail leaves exactly the files that are cited or wait no longer than the age it allows. -/
theorem sweep_leaves_live_files {cfg : BlobConfig} {tr : List (AttachInput × Unit)} {s : AttachState}
    (r : Sys.Run (attachMachine cfg)
      (fun s i => (i.CollisionFree cfg s ∧ i.InRange) ∧ ¬ i.Stranding cfg s) tr s)
    {now ttl : UInt64} (hn : now.toNat < 2 ^ 63) (ht : ttl.toNat < 2 ^ 63) (sha : String) :
    ((sweepAttachments (fun _ => false) now ttl s.shelf).2.files.get sha).isSome = true ↔
      (∃ x ∈ s.shelf.db.attachmentRefs, x.sha = sha) ∨
      ∃ x ∈ s.shelf.db.attachmentPending, now.toNat ≤ x.createdAt + ttl.toNat ∧ x.sha = sha := by
  have hkept := run_kept (r.weaken fun _ _ hi => hi.1)
  have hcatalogued := run_catalogued r
  have hdb : dropExpired (fun _ => false) now ttl s.shelf.db = { s.shelf.db with
      attachmentPending := deleteWhere (fun x => signed x.createdAt < cutoff now ttl)
        s.shelf.db.attachmentPending } := rfl
  have hpending : ∀ x, x ∈ (dropExpired (fun _ => false) now ttl s.shelf.db).attachmentPending ↔
      x ∈ s.shelf.db.attachmentPending ∧ now.toNat ≤ x.createdAt + ttl.toNat := by
    intro x
    rw [hdb]
    refine mem_deleteWhere.trans (and_congr_right fun hx => ?_)
    rw [decide_eq_false_iff_not, expired_iff (hkept.index.young x hx) hn ht]
    omega
  -- alive after the first wave: cited, or still waiting
  have halive : orphaned (dropExpired (fun _ => false) now ttl s.shelf.db) sha = false ↔
      (∃ x ∈ s.shelf.db.attachmentRefs, x.sha = sha) ∨
      ∃ x ∈ s.shelf.db.attachmentPending, now.toNat ≤ x.createdAt + ttl.toNat ∧ x.sha = sha := by
    simp only [orphaned, Bool.and_eq_false_iff, Bool.not_eq_false', List.any_eq_true, decide_eq_true_eq]
    refine or_congr Iff.rfl (exists_congr fun x => ?_)
    rw [hpending, and_assoc]
  rw [← halive]
  unfold sweepAttachments
  dsimp only
  rw [get_sweepBlobs]
  constructor
  · intro hsome
    split at hsome
    · cases hsome
    · next hnot =>
      obtain ⟨b, hb, rfl⟩ := hcatalogued sha hsome
      refine Bool.eq_false_iff.mpr fun ho => hnot ?_
      simp only [orphanShas, Bool.false_eq_true, if_false, Bool.not_false, List.filter_true]
      exact List.mem_filter.mpr ⟨List.mem_map_of_mem hb, ho⟩
  · intro ho
    have hnot : sha ∉ orphanShas (fun _ => false) (dropExpired (fun _ => false) now ttl s.shelf.db) := by
      intro hmem
      rw [orphanShas_orphaned hmem] at ho
      cases ho
    rw [if_neg hnot]
    rcases halive.mp ho with ⟨x, hx, rfl⟩ | ⟨x, hx, -, rfl⟩
    · exact (hkept.index.refs x hx).has.2
    · exact (hkept.index.pending x hx).has.2

/-- The cited file is there after the latest of sweeps. -/
theorem sweep_leaves_live_files_sample :
    ((sweepAttachments (fun _ => false) 9000000 1 citedState.shelf).2.files.get
      (sampleBlobs.sha abcBytes)).isSome = true := by
  have hrun : Sys.Run (attachMachine sampleBlobs)
      (fun s i => (i.CollisionFree sampleBlobs s ∧ i.InRange) ∧ ¬ i.Stranding sampleBlobs s)
      ((attachMachine sampleBlobs).exec citedInputs [] ⟨⟨{}, ∅⟩, [], []⟩).1 citedState :=
    Sys.Run.exec citedInputs ⟨⟨⟨fun b hb => (by cases hb), sampleClock⟩, fun h => (by cases h.2.2.1)⟩,
      ⟨⟨trivial, trivial⟩, id⟩, ⟨⟨trivial, trivial⟩, id⟩, ⟨⟨trivial, trivial⟩, id⟩, trivial⟩ (.nil rfl)
  exact (sweep_leaves_live_files hrun (by decide) (by decide) _).mpr (.inl citedState_cited.2)

def strandedInputs : List AttachInput :=
  [.upload (fun call => call = .insertBlob) "den" "ann" "a.txt" "text/plain" abcBytes 1000]

/-- The row of an upload is not written: no sweep, however late, takes the file. -/
theorem unindexed_file_stays :
    ¬ ∀ tr s, Sys.Run (attachMachine sampleBlobs)
        (fun s i => i.CollisionFree sampleBlobs s ∧ i.InRange) tr s →
      ∀ (now ttl : UInt64) sha, now.toNat < 2 ^ 63 → ttl.toNat < 2 ^ 63 →
        ((sweepAttachments (fun _ => false) now ttl s.shelf).2.files.get sha).isSome = true →
        (∃ x ∈ s.shelf.db.attachmentRefs, x.sha = sha) ∨
          ∃ x ∈ s.shelf.db.attachmentPending, now.toNat ≤ x.createdAt + ttl.toNat ∧ x.sha = sha := by
  intro h
  have hrun := @Sys.Run.exec _ _ _ (attachMachine sampleBlobs)
    (fun s i => i.CollisionFree sampleBlobs s ∧ i.InRange) strandedInputs _ _
    ⟨⟨fun b hb => (by cases hb), sampleClock⟩, trivial⟩ (.nil rfl)
  have hlive := h _ _ hrun 9000000000 1 (sampleBlobs.sha abcBytes) (by decide) (by decide) (by decide +kernel)
  exact absurd hlive (by decide +kernel)

end Loca
