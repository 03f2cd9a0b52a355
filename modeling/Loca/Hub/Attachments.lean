/-
# `Loca.Hub.Attachments` — no attachment is lost, none is leaked

The life of the files of a building: uploads, posts that cite them, deleted messages, sweeps
and restarts, in any order, at any clock values, with any statement failing.  A post resolves
the files it cites first and stores its message later, and anything may happen in between, so
the state holds the posts on their way.  `uploads` is the history of what was handed in; the
server does not look at it.

`Indexed` is the invariant of the three tables and the files, `Shelved` that of the messages
and their references.  Both are kept by every step (`step_indexed`, `step_archived`) as long as
the hash of an upload is that of no other upload, and the clock of an upload and the age a sweep
allows fit in an `i64`: the sweep reads both as signed numbers, and an age of `2 ^ 63` or more is
negative there.

A file is written before its row.  When the row is not written the file is in no table, and the
sweep, which goes by the tables, never finds it.
-/
import Mathlib.Algebra.Order.BigOperators.Group.List
import Mathlib.Algebra.Order.Group.Nat
import Mathlib.Data.List.Dedup
import Mathlib.Data.List.Perm.Subperm
import Loca.Base.Run
import Loca.Hub.Post
import Loca.Store.Attachments

namespace Loca

open Check Table

/-! ## The machine -/

structure AttachState where
  shelf : Shelf
  /-- The posts that have resolved their files: the room, and what they cite. -/
  posts : List (String × List Attachment)
  uploads : List Bytes

inductive AttachInput
  | upload (fails : AttachCall → Bool) (room uploader name mime : String) (bytes : Bytes) (now : UInt64)
  | cite (env : Env) (room : String) (ids : List String)
  /-- The `i`-th post stores its message; its room and its files are those it resolved. -/
  | store (fails : AttachCall → Bool) (i : Nat) (m : Message) (operation : Option Operation)
      (write : MessageWrite)
  /-- The `i`-th post is refused. -/
  | refuse (i : Nat)
  | delete (p : MessageRow → Bool)
  | sweep (fails : AttachCall → Bool) (now ttl : UInt64)
  | restart

namespace AttachState

def withShelf (s : AttachState) (shelf : Shelf) : AttachState := { s with shelf := shelf }

/-- The message of a post on its way. -/
def message (p : String × List Attachment) (m : Message) : Message :=
  { m with room := p.1, attachments := p.2 }

def step (cfg : BlobConfig) (s : AttachState) : AttachInput → AttachState
  | .upload fails room uploader name mime bytes now =>
      { s with
        shelf := (putPendingAttachment cfg fails room uploader name mime bytes now s.shelf).2
        uploads := bytes :: s.uploads }
  | .cite env room ids =>
      match resolveAttachments env room ids s.shelf.db with
      | .error _ => s
      | .ok attachments => { s with posts := s.posts ++ [(room, attachments)] }
  | .store fails i m operation write =>
      match s.posts[i]? with
      | none => s
      | some p =>
        let s := { s with posts := s.posts.eraseIdx i }
        if fails .write then s
        else match write.run (message p m) operation s.shelf.db with
          | .error _ => s
          | .ok db => s.withShelf { s.shelf with db := db }
  | .refuse i => { s with posts := s.posts.eraseIdx i }
  | .delete p => s.withShelf { s.shelf with db := deleteMessages p s.shelf.db }
  | .sweep fails now ttl => s.withShelf (sweepAttachments fails now ttl s.shelf).2
  | .restart => { s with posts := [] }

end AttachState

def attachMachine (cfg : BlobConfig) : Sys.Machine AttachState AttachInput Unit where
  init := fun s => s = ⟨⟨{}, ∅⟩, [], []⟩
  step := fun s i => ((), s.step cfg i)

/-! ## What a post writes -/

/-- The reference a message holds to one of its files. -/
def citation (m : Message) (a : Attachment) : AttachmentRefRow :=
  ⟨m.room, m.id, a.sha256, a.name, a.mime, a.size, m.ts⟩

theorem claimAttachment_ok {m : Message} {a : Attachment} {db db' : Db}
    (h : claimAttachment m db a = .ok db') :
    fileClaimable m.room a.sha256 db = true ∧
      db' = { db with
        attachmentRefs := db.attachmentRefs ++ [citation m a]
        attachmentPending := deleteWhere (fun r => r.sha = a.sha256 && r.room = m.room)
          db.attachmentPending } := by
  simp only [claimAttachment, bind_ok, require_ok, found_ok, pure_ok, exists_const] at h
  obtain ⟨hclaim, refs, hrefs, rfl⟩ := h
  obtain ⟨-, rfl⟩ := insertNew_eq_some.mp hrefs
  exact ⟨hclaim, rfl⟩

/-- Claiming the files of a message, one after the other. -/
theorem writeAttachmentRefs_rule {P : Db → Prop} {m : Message} {db db' : Db}
    (hstep : ∀ db a, a ∈ m.attachments → fileClaimable m.room a.sha256 db = true → P db →
      P { db with
        attachmentRefs := db.attachmentRefs ++ [citation m a]
        attachmentPending := deleteWhere (fun r => r.sha = a.sha256 && r.room = m.room)
          db.attachmentPending })
    (h : writeAttachmentRefs m db = .ok db') (h₀ : P db) :
    P db' ∧ db'.attachmentRefs = db.attachmentRefs ++ m.attachments.map (citation m) := by
  unfold writeAttachmentRefs at h
  -- induction on the files still to claim; the message keeps all of them
  suffices hgen : ∀ l : List Attachment, (∀ a ∈ l, a ∈ m.attachments) → ∀ db,
      l.foldlM (claimAttachment m) db = .ok db' → P db →
        P db' ∧ db'.attachmentRefs = db.attachmentRefs ++ l.map (citation m) from
    hgen m.attachments (fun _ ha => ha) db h h₀
  intro l
  induction l with
  | nil =>
      intro _ db h hP
      cases h
      exact ⟨hP, by simp⟩
  | cons a l ih =>
      intro hl db h hP
      rw [List.foldlM_cons, bind_ok] at h
      obtain ⟨db₁, h₁, h⟩ := h
      obtain ⟨hclaim, rfl⟩ := claimAttachment_ok h₁
      obtain ⟨hP', hrefs⟩ := ih (fun x hx => hl x (List.mem_cons_of_mem a hx)) _ h
        (hstep db a (hl a List.mem_cons_self) hclaim hP)
      exact ⟨hP', by rw [hrefs]; simp⟩

/-- A message transaction adds the row and claims the files; the rest of the four is in other
tables. -/
theorem MessageWrite.run_ok {write : MessageWrite} {m : Message} {operation : Option Operation}
    {db db' : Db} (h : write.run m operation db = .ok db') :
    (∀ r ∈ db.messages, r.id ≠ m.id) ∧ ∃ db₁ db₂,
      (db₁.attachmentBlobs = db.attachmentBlobs ∧ db₁.attachmentPending = db.attachmentPending ∧
        db₁.attachmentRefs = db.attachmentRefs) ∧
      writeAttachmentRefs m db₁ = .ok db₂ ∧
      db'.messages = db.messages ++ [MessageRow.ofMessage m operation] ∧
      db'.attachmentBlobs = db₂.attachmentBlobs ∧ db'.attachmentPending = db₂.attachmentPending ∧
      db'.attachmentRefs = db₂.attachmentRefs := by
  have hmsg : ∀ {db₀ db₃ : Db}, writeMessage m operation db₀ = .ok db₃ →
      (∀ r ∈ db₀.messages, r.id ≠ m.id) ∧ ∃ db₁ db₂,
        (db₁.attachmentBlobs = db₀.attachmentBlobs ∧ db₁.attachmentPending = db₀.attachmentPending ∧
          db₁.attachmentRefs = db₀.attachmentRefs) ∧
        writeAttachmentRefs m db₁ = .ok db₂ ∧
        db₃.messages = db₀.messages ++ [MessageRow.ofMessage m operation] ∧
        db₃.attachmentBlobs = db₂.attachmentBlobs ∧ db₃.attachmentPending = db₂.attachmentPending ∧
        db₃.attachmentRefs = db₂.attachmentRefs := by
    intro db₀ db₃ hw
    simp only [writeMessage, insertMessageRow, bind_ok, require_ok, pure_ok, exists_const] at hw
    obtain ⟨db₁, ⟨hid, -, rfl⟩, hw⟩ := hw
    obtain ⟨refs, pending, he⟩ := writeAttachmentRefs_ok hw
    refine ⟨hid, _, db₃, ?_, hw, by rw [he]; rfl, rfl, rfl, rfl⟩
    exact ⟨rfl, rfl, rfl⟩
  have hstate : ∀ {state : Option (ChatMode × RoomSettings)} {db₀ : Db},
      writeRoomState? m.room state db = .ok db₀ → ∃ rooms, db₀ = { db with rooms := rooms } := by
    intro state db₀ hs
    cases state with
    | none =>
        cases hs
        exact ⟨db.rooms, rfl⟩
    | some p => exact ⟨_, (writeRoomState_ok.mp hs).2⟩
  cases write with
  | plain =>
      simp only [MessageWrite.run, insertMessage, requireUnsealedRoom, bind_ok, require_ok,
        exists_const] at h
      exact hmsg h.2
  | withRoom mode settings =>
      simp only [MessageWrite.run, insertMessageWithRoom, bind_ok] at h
      obtain ⟨db₀, h₀, h⟩ := h
      obtain ⟨-, rfl⟩ := writeRoomState_ok.mp h₀
      exact (hmsg h :)
  | withCare state deliveryRoom signals =>
      simp only [MessageWrite.run, insertMessageWithCare, requireUnsealedRoom, bind_ok, require_ok,
        pure_ok, exists_const] at h
      obtain ⟨-, db₀, h₀, db₃, h, rfl⟩ := h
      obtain ⟨rooms, rfl⟩ := hstate h₀
      exact (hmsg h :)
  | withWaitWake state deliveryRoom waiter now wait wake =>
      simp only [MessageWrite.run, insertMessageWithWaitWake, requireUnsealedRoom, bind_ok, require_ok,
        pure_ok, exists_const] at h
      obtain ⟨-, db₀, h₀, db₃, h, rfl⟩ := h
      obtain ⟨rooms, rfl⟩ := hstate h₀
      exact (hmsg h :)

/-! ## The index and the files -/

/-- A file is there under this hash, and in the index, with this many bytes. -/
structure Backed (s : Shelf) (sha : String) (size : Nat) : Prop where
  row : ∃ b ∈ s.db.attachmentBlobs, b.sha = sha
  file : ∃ b, s.files.get sha = some b ∧ b.size = size

/-- What the tables say of the files is true, and the quotas hold. -/
structure Indexed (cfg : BlobConfig) (uploads : List Bytes) (s : Shelf) : Prop where
  honest : ∀ b ∈ uploads, ∀ b' ∈ uploads, cfg.sha b = cfg.sha b' → b = b'
  files : ∀ sha b, s.files.get sha = some b → cfg.sha b = sha ∧ b ∈ uploads
  unique : (s.db.attachmentBlobs.map AttachmentBlobRow.sha).Nodup
  sized : ∀ row ∈ s.db.attachmentBlobs, ∃ b ∈ uploads, cfg.sha b = row.sha ∧ b.size = row.size
  pending : ∀ r ∈ s.db.attachmentPending, Backed s r.sha r.size
  refs : ∀ r ∈ s.db.attachmentRefs, Backed s r.sha r.size
  young : ∀ r ∈ s.db.attachmentPending, r.createdAt < 2 ^ 63
  building : (s.db.attachmentBlobs.map AttachmentBlobRow.size).sum ≤ cfg.buildingMax
  room : ∀ room, ((roomFiles room s.db).map Prod.snd).sum ≤ cfg.roomMax

theorem mem_roomFiles {room sha : String} {size : Nat} {db : Db} :
    (sha, size) ∈ roomFiles room db ↔
      (∃ r ∈ db.attachmentRefs, r.room = room ∧ r.sha = sha ∧ r.size = size) ∨
      ∃ r ∈ db.attachmentPending, r.room = room ∧ r.sha = sha ∧ r.size = size := by
  simp only [roomFiles, List.mem_dedup, List.mem_append, List.mem_map, List.mem_filter, decide_eq_true_eq,
    Prod.mk.injEq, and_assoc]

/-- Distinct entries of a list weigh no more than the list. -/
theorem sum_le_of_nodup {α : Type} {f : α → Nat} {l l' : List α} (hn : l'.Nodup) (h : ∀ x ∈ l', x ∈ l) :
    (l'.map f).sum ≤ (l.map f).sum := by
  obtain ⟨l₁, hperm, hsub⟩ := List.subperm_of_subset hn h
  rw [← (hperm.map f).sum_eq]
  exact (hsub.map f).sum_le_sum fun _ _ => Nat.zero_le _

theorem fileClaimable_iff {room sha : String} {db : Db} : fileClaimable room sha db = true ↔
    ∃ size, (sha, size) ∈ roomFiles room db := by
  simp only [fileClaimable, Bool.or_eq_true, List.any_eq_true, Bool.and_eq_true, decide_eq_true_eq,
    mem_roomFiles]
  constructor
  · rintro (⟨r, hr, hsha, hroom⟩ | ⟨r, hr, hroom, hsha⟩)
    · exact ⟨r.size, .inr ⟨r, hr, hroom, hsha, rfl⟩⟩
    · exact ⟨r.size, .inl ⟨r, hr, hroom, hsha, rfl⟩⟩
  · rintro ⟨size, ⟨r, hr, hroom, hsha, -⟩ | ⟨r, hr, hroom, hsha, -⟩⟩
    · exact .inr ⟨r, hr, hroom, hsha⟩
    · exact .inl ⟨r, hr, hsha, hroom⟩

theorem nodup_roomFiles (room : String) (db : Db) : (roomFiles room db).Nodup := List.nodup_dedup _

namespace Indexed

variable {cfg : BlobConfig} {uploads : List Bytes} {s : Shelf}

theorem backed (h : Indexed cfg uploads s) {room sha : String} {size : Nat}
    (hf : (sha, size) ∈ roomFiles room s.db) : Backed s sha size := by
  rcases mem_roomFiles.mp hf with ⟨r, hr, -, rfl, rfl⟩ | ⟨r, hr, -, rfl, rfl⟩
  · exact h.refs r hr
  · exact h.pending r hr

/-- The size of a hash is that of whatever was uploaded under it. -/
theorem size_eq (h : Indexed cfg uploads s) {sha : String} {size : Nat} (hb : Backed s sha size)
    {b : Bytes} (hmem : b ∈ uploads) (hsha : cfg.sha b = sha) : size = b.size := by
  obtain ⟨b', hget, rfl⟩ := hb.file
  obtain ⟨hsha', hmem'⟩ := h.files sha b' hget
  rw [h.honest b' hmem' b hmem (hsha'.trans hsha.symm)]

/-- A longer history, as long as nothing collides. -/
theorem longer (h : Indexed cfg uploads s) {bytes : Bytes}
    (hnew : ∀ b ∈ uploads, cfg.sha b = cfg.sha bytes → b = bytes) : Indexed cfg (bytes :: uploads) s := by
  refine { h with honest := ?_, files := ?_, sized := ?_ }
  · intro b hb b' hb' hsha
    rcases List.mem_cons.mp hb with rfl | hold
    · rcases List.mem_cons.mp hb' with rfl | hold'
      · rfl
      · exact (hnew b' hold' hsha.symm).symm
    · rcases List.mem_cons.mp hb' with rfl | hold'
      · exact hnew b hold hsha
      · exact h.honest b hold b' hold' hsha
  · exact fun sha b hb => ⟨(h.files sha b hb).1, List.mem_cons_of_mem _ (h.files sha b hb).2⟩
  · intro row hrow
    obtain ⟨b, hb, hsha, hsize⟩ := h.sized row hrow
    exact ⟨b, List.mem_cons_of_mem _ hb, hsha, hsize⟩

/-- Fewer references and fewer uploads waiting. -/
theorem shrink (h : Indexed cfg uploads s) {s' : Shelf} (hfiles : s'.files = s.files)
    (hblobs : s'.db.attachmentBlobs = s.db.attachmentBlobs)
    (hpending : ∀ r ∈ s'.db.attachmentPending, r ∈ s.db.attachmentPending)
    (hrefs : ∀ r ∈ s'.db.attachmentRefs, r ∈ s.db.attachmentRefs) : Indexed cfg uploads s' := by
  have hbacked : ∀ {sha size}, Backed s sha size → Backed s' sha size := fun hb =>
    ⟨by rw [hblobs]; exact hb.row, by rw [hfiles]; exact hb.file⟩
  refine ⟨h.honest, by rw [hfiles]; exact h.files, by rw [hblobs]; exact h.unique,
    by rw [hblobs]; exact h.sized, fun r hr => hbacked (h.pending r (hpending r hr)),
    fun r hr => hbacked (h.refs r (hrefs r hr)), fun r hr => h.young r (hpending r hr),
    by rw [hblobs]; exact h.building, fun room => ?_⟩
  refine (sum_le_of_nodup (nodup_roomFiles room s'.db) fun x hx => ?_).trans (h.room room)
  rcases mem_roomFiles.mp hx with ⟨r, hr, hroom⟩ | ⟨r, hr, hroom⟩
  · exact mem_roomFiles.mpr (.inl ⟨r, hrefs r hr, hroom⟩)
  · exact mem_roomFiles.mpr (.inr ⟨r, hpending r hr, hroom⟩)

/-! ### Uploading -/

/-- An intact file stays; otherwise there was none. -/
theorem get_putBlob (h : Indexed cfg uploads s) (bytes : Bytes) (sha : String) :
    (putBlob cfg bytes s.files).get sha = s.files.get sha ∨
      (sha = cfg.sha bytes ∧ s.files.get sha = none ∧ (putBlob cfg bytes s.files).get sha = some bytes) := by
  unfold putBlob
  split
  · exact .inl rfl
  · next hno =>
    rw [Assoc.get_put]
    split
    · next hsha =>
      refine .inr ⟨hsha, ?_, rfl⟩
      cases hget : s.files.get sha with
      | none => rfl
      | some b =>
          refine absurd ?_ hno
          rw [← hsha, hget]
          simpa using (h.files sha b hget).1
    · exact .inl rfl

theorem putFile (h : Indexed cfg uploads s) {bytes : Bytes} (hmem : bytes ∈ uploads) :
    Indexed cfg uploads { s with files := putBlob cfg bytes s.files } := by
  have hbacked : ∀ {sha size}, Backed s sha size →
      Backed { s with files := putBlob cfg bytes s.files } sha size := by
    intro sha size hb
    obtain ⟨b, hget, hsize⟩ := hb.file
    refine ⟨hb.row, b, ?_, hsize⟩
    rcases h.get_putBlob bytes sha with heq | ⟨-, hnone, -⟩
    · exact heq.trans hget
    · rw [hnone] at hget
      cases hget
  refine { h with
    files := fun sha b hb => ?_
    pending := fun r hr => hbacked (h.pending r hr)
    refs := fun r hr => hbacked (h.refs r hr) }
  rcases h.get_putBlob bytes sha with heq | ⟨hsha, -, hput⟩
  · exact h.files sha b (heq.symm.trans hb)
  · obtain rfl : bytes = b := Option.some.inj (hput.symm.trans hb)
    exact ⟨hsha.symm, hmem⟩

/-- The file that was put is there. -/
theorem get_putBlob_self (h : Indexed cfg uploads s) {bytes : Bytes} (hmem : bytes ∈ uploads) :
    (putBlob cfg bytes s.files).get (cfg.sha bytes) = some bytes := by
  have hput := h.putFile hmem
  rcases h.get_putBlob bytes (cfg.sha bytes) with heq | ⟨-, -, hsome⟩
  · cases hget : s.files.get (cfg.sha bytes) with
    | none =>
        unfold putBlob
        rw [if_neg (by simp [hget]), Assoc.get_put_self]
    | some b =>
        obtain ⟨hsha, hb⟩ := h.files _ b hget
        rw [heq, hget, h.honest b hb bytes hmem hsha]
  · exact hsome

theorem insertBlob (h : Indexed cfg uploads s) {bytes : Bytes} (hmem : bytes ∈ uploads) {mime : String}
    {now : Nat}
    (hquota : hasKey AttachmentBlobRow.sha (cfg.sha bytes) s.db.attachmentBlobs = true ∨
      (s.db.attachmentBlobs.map AttachmentBlobRow.size).sum + bytes.size ≤ cfg.buildingMax) :
    Indexed cfg uploads { s with db := { s.db with
      attachmentBlobs := insertIgnore AttachmentBlobRow.sha ⟨cfg.sha bytes, mime, bytes.size, now⟩
        s.db.attachmentBlobs } } := by
  unfold insertIgnore
  split
  · exact h
  · next hnew =>
    have hfit := hquota.resolve_left hnew
    have hbacked : ∀ {sha size}, Backed s sha size → Backed { s with db := { s.db with
        attachmentBlobs := s.db.attachmentBlobs ++ [⟨cfg.sha bytes, mime, bytes.size, now⟩] } } sha size := by
      intro sha size hb
      obtain ⟨row, hrow, hsha⟩ := hb.row
      exact ⟨⟨row, List.mem_append_left _ hrow, hsha⟩, hb.file⟩
    refine { h with
      unique := nodup_append_new h.unique (hasKey_false.mp (Bool.eq_false_iff.mpr hnew))
      sized := fun row hrow => ?_
      pending := fun r hr => hbacked (h.pending r hr)
      refs := fun r hr => hbacked (h.refs r hr)
      building := by simpa using hfit }
    rcases List.mem_append.mp hrow with hrow | hrow
    · exact h.sized row hrow
    · rw [List.mem_singleton.mp hrow]
      exact ⟨bytes, hmem, rfl, rfl⟩

theorem insertPending (h : Indexed cfg uploads s) {bytes : Bytes} (hmem : bytes ∈ uploads)
    {room uploader name mime : String} {now : Nat} (hnow : now < 2 ^ 63)
    (hb : Backed s (cfg.sha bytes) bytes.size)
    (hquota : fileClaimable room (cfg.sha bytes) s.db = true ∨
      ((roomFiles room s.db).map Prod.snd).sum + bytes.size ≤ cfg.roomMax) :
    Indexed cfg uploads { s with db := { s.db with
      attachmentPending := upsert (fun r => (r.sha, r.room))
        ⟨cfg.sha bytes, room, uploader, name, mime, bytes.size, now⟩ s.db.attachmentPending } } := by
  refine { h with
    pending := fun r hr => ?_
    refs := fun r hr => ⟨(h.refs r hr).row, (h.refs r hr).file⟩
    young := fun r hr => ?_
    room := fun room' => ?_ }
  · rcases mem_upsert.mp hr with ⟨hr, -⟩ | rfl
    · exact ⟨(h.pending r hr).row, (h.pending r hr).file⟩
    · exact ⟨hb.row, hb.file⟩
  · rcases mem_upsert.mp hr with ⟨hr, -⟩ | rfl
    · exact h.young r hr
    · exact hnow
  -- the room has the files it had, and this one
  have hsub : ∀ x ∈ roomFiles room' { s.db with
      attachmentPending := upsert (fun r => (r.sha, r.room))
        ⟨cfg.sha bytes, room, uploader, name, mime, bytes.size, now⟩ s.db.attachmentPending },
      x ∈ roomFiles room' s.db ∨ (room' = room ∧ x = (cfg.sha bytes, bytes.size)) := by
    rintro ⟨sha, size⟩ hx
    rcases mem_roomFiles.mp hx with hx | ⟨r, hr, hroom, hsha, hsize⟩
    · exact .inl (mem_roomFiles.mpr (.inl hx))
    · rcases mem_upsert.mp hr with ⟨hr, -⟩ | rfl
      · exact .inl (mem_roomFiles.mpr (.inr ⟨r, hr, hroom, hsha, hsize⟩))
      · exact .inr ⟨hroom.symm, by rw [← hsha, ← hsize]⟩
  by_cases hroom : room' = room
  · subst hroom
    rcases hquota with hclaim | hfit
    · -- the room had it before, with the same size
      obtain ⟨size, hold⟩ := fileClaimable_iff.mp hclaim
      have hsize := h.size_eq (h.backed hold) hmem rfl
      refine (sum_le_of_nodup (nodup_roomFiles _ _) fun x hx => ?_).trans (h.room room')
      rcases hsub x hx with hx | ⟨-, rfl⟩
      · exact hx
      · exact hsize ▸ hold
    · have hcons := sum_le_of_nodup (f := Prod.snd) (l := (cfg.sha bytes, bytes.size) :: roomFiles room' s.db)
        (nodup_roomFiles room' { s.db with
          attachmentPending := upsert (fun r => (r.sha, r.room))
            ⟨cfg.sha bytes, room', uploader, name, mime, bytes.size, now⟩ s.db.attachmentPending })
        fun x hx => (hsub x hx).elim (List.mem_cons_of_mem _) fun hx => hx.2 ▸ List.mem_cons_self
      rw [List.map_cons, List.sum_cons] at hcons
      exact hcons.trans (by omega)
  · refine (sum_le_of_nodup (nodup_roomFiles _ _) fun x hx => ?_).trans (h.room room')
    exact (hsub x hx).resolve_right fun hx => hroom hx.1

end Indexed

theorem sumI64_ok {l : List Nat} {n : Nat} : sumI64 l = some n ↔ l.sum < 2 ^ 63 ∧ l.sum = n := by
  simp [sumI64]

/-- Two sizes below `2 ^ 63` do not saturate. -/
theorem saturatingAdd_eq {a b : Nat} (ha : a < 2 ^ 63) (hb : b < 2 ^ 63) : saturatingAdd a b = a + b := by
  unfold saturatingAdd
  omega

/-- After `INSERT OR IGNORE` some row has the key. -/
theorem exists_insertIgnore {t : List AttachmentBlobRow} (r : AttachmentBlobRow) :
    ∃ x ∈ insertIgnore AttachmentBlobRow.sha r t, x.sha = r.sha := by
  unfold insertIgnore
  split
  · next hk => exact hasKey_iff.mp hk
  · exact ⟨r, List.mem_append_right _ List.mem_cons_self, rfl⟩

theorem withinQuota_ok {fault : Bool} {sizes : List Nat} {bytes : Bytes} {max : Nat} {e : AttachError}
    (h : withinQuota fault sizes bytes.size max e = .ok ()) : sizes.sum + bytes.size ≤ max := by
  simp only [withinQuota, bind_ok, found_ok, require_ok] at h
  obtain ⟨used, hused, hle⟩ := h
  cases fault with
  | true => cases hused
  | false =>
      obtain ⟨hlt, rfl⟩ := sumI64_ok.mp hused
      have hadd : saturatingAdd sizes.sum bytes.size = sizes.sum + bytes.size := saturatingAdd_eq hlt bytes.bound
      rwa [hadd] at hle

/-- An admitted upload fits: it is there already, or the quota has room for it. -/
theorem admitUpload_ok {cfg : BlobConfig} {fails : AttachCall → Bool} {room : String} {bytes : Bytes}
    {db : Db} (h : admitUpload cfg fails room bytes db = .ok ()) :
    (hasKey AttachmentBlobRow.sha (cfg.sha bytes) db.attachmentBlobs = true ∨
      (db.attachmentBlobs.map AttachmentBlobRow.size).sum + bytes.size ≤ cfg.buildingMax) ∧
    (fileClaimable room (cfg.sha bytes) db = true ∨
      ((roomFiles room db).map Prod.snd).sum + bytes.size ≤ cfg.roomMax) := by
  simp only [admitUpload, bind_ok, require_ok, exists_const] at h
  obtain ⟨-, _, hblob, hroom⟩ := h
  constructor
  · unfold withinBuilding at hblob
    split at hblob
    · next hk => exact .inl hk
    · exact .inr (withinQuota_ok hblob)
  · unfold withinRoom at hroom
    split at hroom
    · next hc => exact .inl hc
    · exact .inr (withinQuota_ok hroom)

namespace Indexed

variable {cfg : BlobConfig} {uploads : List Bytes} {s : Shelf}

theorem upload (h : Indexed cfg uploads s) {bytes : Bytes} (hmem : bytes ∈ uploads)
    {fails : AttachCall → Bool} {room uploader name mime : String} {now : UInt64}
    (hnow : now.toNat < 2 ^ 63) :
    Indexed cfg uploads (putPendingAttachment cfg fails room uploader name mime bytes now s).2 := by
  unfold putPendingAttachment
  dsimp only
  split
  · exact h
  · next hfits =>
    obtain ⟨hbuilding, hroom⟩ := admitUpload_ok hfits
    split
    · exact h
    · have hfile := h.putFile hmem
      split
      · exact hfile
      · have hblob := @insertBlob _ _ _ hfile _ hmem mime now.toNat hbuilding
        split
        · exact hblob
        · refine hblob.insertPending hmem hnow ⟨?_, bytes, h.get_putBlob_self hmem, rfl⟩ hroom
          exact exists_insertIgnore _

/-! ### Citing -/

theorem claim (h : Indexed cfg uploads s) {m : Message} {a : Attachment}
    (ha : ∃ b ∈ uploads, cfg.sha b = a.sha256 ∧ b.size = a.size)
    (hclaim : fileClaimable m.room a.sha256 s.db = true) :
    Indexed cfg uploads { s with db := { s.db with
      attachmentRefs := s.db.attachmentRefs ++ [citation m a]
      attachmentPending := deleteWhere (fun r => r.sha = a.sha256 && r.room = m.room)
        s.db.attachmentPending } } := by
  obtain ⟨b, hmem, hsha, hsize⟩ := ha
  obtain ⟨size, hold⟩ := fileClaimable_iff.mp hclaim
  -- the room has the file already, with the size the post resolved
  have hsame : size = a.size := (h.size_eq (h.backed hold) hmem hsha).trans hsize
  rw [hsame] at hold
  refine { h with
    pending := fun r hr => ⟨(h.pending r (mem_deleteWhere.mp hr).1).row,
      (h.pending r (mem_deleteWhere.mp hr).1).file⟩
    refs := fun r hr => ?_
    young := fun r hr => h.young r (mem_deleteWhere.mp hr).1
    room := fun room => ?_ }
  · rcases List.mem_append.mp hr with hr | hr
    · exact ⟨(h.refs r hr).row, (h.refs r hr).file⟩
    · rw [List.mem_singleton.mp hr]
      exact ⟨(h.backed hold).row, (h.backed hold).file⟩
  · refine (sum_le_of_nodup (nodup_roomFiles _ _) fun x hx => ?_).trans (h.room room)
    obtain ⟨sha, size'⟩ := x
    rcases mem_roomFiles.mp hx with ⟨r, hr, hroom, hrsha, hrsize⟩ | ⟨r, hr, hroom⟩
    · rcases List.mem_append.mp hr with hr | hr
      · exact mem_roomFiles.mpr (.inl ⟨r, hr, hroom, hrsha, hrsize⟩)
      · rw [List.mem_singleton.mp hr] at hroom hrsha hrsize
        rw [← hroom, ← hrsha, ← hrsize]
        exact hold
    · exact mem_roomFiles.mpr (.inr ⟨r, (mem_deleteWhere.mp hr).1, hroom⟩)

/-! ### Sweeping -/

/-- A hash without references and without uploads goes, with its row or without. -/
theorem forget (h : Indexed cfg uploads s) {sha : String} {blobs : List AttachmentBlobRow}
    (horphan : orphaned s.db sha = true)
    (hblobs : blobs = s.db.attachmentBlobs ∨
      blobs = deleteWhere (fun b => b.sha = sha) s.db.attachmentBlobs) :
    Indexed cfg uploads { files := s.files.del sha, db := { s.db with attachmentBlobs := blobs } } := by
  simp only [orphaned, Bool.and_eq_true, Bool.not_eq_true', List.any_eq_false, decide_eq_true_eq] at horphan
  have hsub : ∀ b ∈ blobs, b ∈ s.db.attachmentBlobs := by
    rcases hblobs with rfl | rfl
    · exact fun b hb => hb
    · exact fun b hb => (mem_deleteWhere.mp hb).1
  have hbacked : ∀ {sha' size}, sha' ≠ sha → Backed s sha' size →
      Backed { files := s.files.del sha, db := { s.db with attachmentBlobs := blobs } } sha' size := by
    intro sha' size hne hb
    obtain ⟨row, hrow, hsha⟩ := hb.row
    obtain ⟨b, hget, hsize⟩ := hb.file
    refine ⟨⟨row, ?_, hsha⟩, b, ?_, hsize⟩
    · rcases hblobs with rfl | rfl
      · exact hrow
      · exact mem_deleteWhere.mpr ⟨hrow, by simpa [hsha] using hne⟩
    · show (s.files.del sha).get sha' = some b
      rw [Assoc.get_del, if_neg hne, hget]
  have hunique : (blobs.map AttachmentBlobRow.sha).Nodup := by
    rcases hblobs with rfl | rfl
    · exact h.unique
    · exact nodup_deleteWhere h.unique
  refine { h with
    files := fun sha' b hb => ?_
    unique := hunique
    sized := fun row hrow => h.sized row (hsub row hrow)
    pending := fun r hr => hbacked (horphan.2 r hr) (h.pending r hr)
    refs := fun r hr => hbacked (horphan.1 r hr) (h.refs r hr)
    building := (sum_le_of_nodup hunique.of_map hsub).trans h.building }
  change (s.files.del sha).get sha' = some b at hb
  rw [Assoc.get_del] at hb
  split at hb
  · cases hb
  · exact h.files sha' b hb

end Indexed

/-- What the second wave leaves alone. -/
structure SweptTo (s s' : Shelf) : Prop where
  refs : s'.db.attachmentRefs = s.db.attachmentRefs
  pending : s'.db.attachmentPending = s.db.attachmentPending
  messages : s'.db.messages = s.db.messages
  /-- A hash that is cited or waits keeps its file and its row. -/
  kept : ∀ sha, orphaned s.db sha = false → s'.files.get sha = s.files.get sha ∧
    ((∃ b ∈ s.db.attachmentBlobs, b.sha = sha) → ∃ b ∈ s'.db.attachmentBlobs, b.sha = sha)

theorem SweptTo.orphaned_eq {s s' : Shelf} (h : SweptTo s s') (sha : String) :
    orphaned s'.db sha = orphaned s.db sha := by
  unfold orphaned
  rw [h.refs, h.pending]

section Sweep

variable {cfg : BlobConfig} {uploads : List Bytes} {fails : AttachCall → Bool}

/-- The second wave, over hashes that are orphaned. -/
theorem sweepBlobs_spec {s : Shelf} :
    ∀ (shas : List String), (∀ sha ∈ shas, orphaned s.db sha = true) → ∀ acc : Nat × Shelf,
      Indexed cfg uploads acc.2 → SweptTo s acc.2 →
      Indexed cfg uploads (shas.foldl (sweepBlob fails) acc).2 ∧
        SweptTo s (shas.foldl (sweepBlob fails) acc).2 := by
  intro shas
  induction shas with
  | nil => exact fun _ acc hi hs => ⟨hi, hs⟩
  | cons sha shas ih =>
      intro horphan acc hi hs
      have ho := horphan sha List.mem_cons_self
      have hrest : ∀ x ∈ shas, orphaned s.db x = true := fun x hx => horphan x (List.mem_cons_of_mem _ hx)
      rw [List.foldl_cons]
      unfold sweepBlob
      split
      · exact ih hrest acc hi hs
      · refine ih hrest _ ?_ ?_
        · have ho' : orphaned acc.2.db sha = true := (hs.orphaned_eq sha).trans ho
          cases hd : fails (.deleteBlob sha) with
          | true => exact hi.forget ho' (.inl rfl)
          | false => exact hi.forget ho' (.inr rfl)
        · have hne : ∀ x, orphaned s.db x = false → x ≠ sha := by
            rintro x hx rfl
            rw [ho] at hx
            cases hx
          refine ⟨?_, ?_, ?_, fun x hx => ⟨?_, fun hrow => ?_⟩⟩
          · rw [← hs.refs]
            dsimp only
            split <;> rfl
          · rw [← hs.pending]
            dsimp only
            split <;> rfl
          · rw [← hs.messages]
            dsimp only
            split <;> rfl
          · show (acc.2.files.del sha).get x = s.files.get x
            rw [Assoc.get_del, if_neg (hne x hx)]
            exact (hs.kept x hx).1
          · obtain ⟨b, hb, hsha⟩ := (hs.kept x hx).2 hrow
            refine ⟨b, ?_, hsha⟩
            dsimp only
            split
            · exact hb
            · exact mem_deleteWhere.mpr ⟨hb, by simpa [hsha] using hne x hx⟩

theorem orphanShas_orphaned {db : Db} {sha : String} (h : sha ∈ orphanShas fails db) :
    orphaned db sha = true := by
  unfold orphanShas at h
  split at h
  · cases h
  · exact (List.mem_filter.mp (List.mem_filter.mp h).1).2

theorem dropExpired_eq (fails : AttachCall → Bool) (now ttl : UInt64) (db : Db) :
    ∃ pending, dropExpired fails now ttl db = { db with attachmentPending := pending } ∧
      (∀ r ∈ pending, r ∈ db.attachmentPending) ∧
      ∀ r ∈ db.attachmentPending, ¬ signed r.createdAt < cutoff now ttl → r ∈ pending := by
  unfold dropExpired
  split
  · exact ⟨db.attachmentPending, rfl, fun r hr => hr, fun r hr _ => hr⟩
  · refine ⟨_, rfl, fun r hr => (mem_deleteWhere.mp hr).1, fun r hr hold => ?_⟩
    exact mem_deleteWhere.mpr ⟨hr, by simpa using hold⟩

/-- A sweep: the first wave leaves some of the uploads that wait, the second all that is cited or
waits. -/
theorem sweepAttachments_spec {s : Shelf} (h : Indexed cfg uploads s) (now ttl : UInt64) :
    ∃ pending, (∀ r ∈ pending, r ∈ s.db.attachmentPending) ∧
      (∀ r ∈ s.db.attachmentPending, ¬ signed r.createdAt < cutoff now ttl → r ∈ pending) ∧
      Indexed cfg uploads (sweepAttachments fails now ttl s).2 ∧
      SweptTo { s with db := { s.db with attachmentPending := pending } }
        (sweepAttachments fails now ttl s).2 := by
  obtain ⟨pending, hdb, hsub, hkeep⟩ := dropExpired_eq fails now ttl s.db
  have hmid : Indexed cfg uploads { s with db := dropExpired fails now ttl s.db } := by
    rw [hdb]
    exact h.shrink rfl rfl hsub fun r hr => hr
  obtain ⟨hi, hs⟩ := @sweepBlobs_spec cfg uploads fails _ (orphanShas fails (dropExpired fails now ttl s.db))
    (fun sha hsha => orphanShas_orphaned hsha) (0, { s with db := dropExpired fails now ttl s.db }) hmid
    ⟨rfl, rfl, rfl, fun _ _ => ⟨rfl, fun h => h⟩⟩
  refine ⟨pending, hsub, hkeep, hi, ?_⟩
  rw [← hdb]
  exact hs

/-- In signed numbers an upload that is younger than the age allowed is not past the cutoff, when
neither its time nor the age wraps. -/
theorem not_expired {created : Nat} {now ttl : UInt64} (hc : created < 2 ^ 63) (ht : ttl.toNat < 2 ^ 63)
    (hyoung : now.toNat ≤ created + ttl.toNat) : ¬ signed created < cutoff now ttl := by
  have hnow := now.toNat_lt
  unfold cutoff signed
  rw [if_pos hc, if_pos ht]
  split <;> omega

end Sweep

/-! ## The messages and their references -/

/-- The files of a stored message. -/
def MessageRow.files (r : MessageRow) : List Attachment := r.toMessage.attachments

@[simp] theorem MessageRow.files_ofMessage (m : Message) (o : Option Operation) :
    (MessageRow.ofMessage m o).files = m.attachments := by
  simp [MessageRow.files]

/-- References and messages name each other. -/
structure Shelved (db : Db) : Prop where
  unique : (db.messages.map MessageRow.id).Nodup
  cited : ∀ r ∈ db.attachmentRefs, ∃ m ∈ db.messages, m.id = r.messageId ∧ m.room = r.room ∧
    ∃ a ∈ m.files, a.sha256 = r.sha
  held : ∀ m ∈ db.messages, ∀ a ∈ m.files, ∃ r ∈ db.attachmentRefs, r.room = m.room ∧
    r.messageId = m.id ∧ r.sha = a.sha256 ∧ r.size = a.size

/-- What a post on its way cites was uploaded, and is what it says. -/
def Uploaded (cfg : BlobConfig) (uploads : List Bytes) (a : Attachment) : Prop :=
  a.id = a.sha256 ∧ ∃ b ∈ uploads, cfg.sha b = a.sha256 ∧ b.size = a.size

namespace Shelved

variable {db db' : Db}

theorem store {write : MessageWrite} {m : Message} {operation : Option Operation} (h : Shelved db)
    (hw : write.run m operation db = .ok db') : Shelved db' := by
  obtain ⟨hid, db₁, db₂, ⟨-, -, hrefs₁⟩, hclaims, hmessages, -, -, hrefs⟩ := MessageWrite.run_ok hw
  have hall : db'.attachmentRefs = db.attachmentRefs ++ m.attachments.map (citation m) := by
    rw [hrefs, (writeAttachmentRefs_rule (P := fun _ => True) (fun _ _ _ _ _ => trivial) hclaims trivial).2,
      hrefs₁]
  have hnew : MessageRow.ofMessage m operation ∈ db'.messages := by
    rw [hmessages]
    exact List.mem_append_right _ List.mem_cons_self
  refine ⟨?_, fun r hr => ?_, fun x hx a ha => ?_⟩
  · rw [hmessages]
    exact nodup_append_new h.unique hid
  · rw [hall] at hr
    rcases List.mem_append.mp hr with hr | hr
    · obtain ⟨x, hx, hrest⟩ := h.cited r hr
      exact ⟨x, by rw [hmessages]; exact List.mem_append_left _ hx, hrest⟩
    · obtain ⟨a, ha, rfl⟩ := List.mem_map.mp hr
      exact ⟨_, hnew, rfl, rfl, a, by rwa [MessageRow.files_ofMessage], rfl⟩
  · rw [hmessages] at hx
    rw [hall]
    rcases List.mem_append.mp hx with hx | hx
    · obtain ⟨r, hr, hrest⟩ := h.held x hx a ha
      exact ⟨r, List.mem_append_left _ hr, hrest⟩
    · obtain rfl := List.mem_singleton.mp hx
      rw [MessageRow.files_ofMessage] at ha
      exact ⟨citation m a, List.mem_append_right _ (List.mem_map_of_mem ha), rfl, rfl, rfl, rfl⟩

theorem delete (h : Shelved db) (p : MessageRow → Bool) : Shelved (deleteMessages p db) := by
  refine ⟨nodup_deleteWhere h.unique, fun r hr => ?_, fun x hx a ha => ?_⟩
  · obtain ⟨hr, hkeep⟩ := mem_deleteWhere.mp hr
    obtain ⟨x, hx, hid, hrest⟩ := h.cited r hr
    refine ⟨x, mem_deleteWhere.mpr ⟨hx, ?_⟩, hid, hrest⟩
    simp only [List.any_eq_false, Bool.and_eq_true, decide_eq_true_eq, not_and] at hkeep
    by_contra hp
    exact hkeep x hx (by simpa using hp) hid
  · obtain ⟨hx, hkeep⟩ := mem_deleteWhere.mp hx
    obtain ⟨r, hr, hroom, hid, hrest⟩ := h.held x hx a ha
    refine ⟨r, mem_deleteWhere.mpr ⟨hr, ?_⟩, hroom, hid, hrest⟩
    simp only [List.any_eq_false, Bool.and_eq_true, decide_eq_true_eq, not_and]
    intro y hy hp hsame
    have hxy : y = x := List.inj_on_of_nodup_map h.unique hy hx (hsame.trans hid)
    rw [hxy, hkeep] at hp
    cases hp

/-- Messages and references as before. -/
theorem same (h : Shelved db) (hm : db'.messages = db.messages)
    (hr : db'.attachmentRefs = db.attachmentRefs) : Shelved db' :=
  ⟨hm ▸ h.unique, by rw [hr, hm]; exact h.cited, by rw [hr, hm]; exact h.held⟩

end Shelved

/-- Resolving: every file was in the room at that moment. -/
theorem resolveAttachments_uploaded {cfg : BlobConfig} {uploads : List Bytes} {s : Shelf}
    (h : Indexed cfg uploads s) {env : Env} {room : String} {ids : List String}
    {attachments : List Attachment} (hr : resolveAttachments env room ids s.db = .ok attachments) :
    ∀ a ∈ attachments, Uploaded cfg uploads a := by
  have hone : ∀ {id : String} {a : Attachment}, resolveRoomAttachment room id s.db = some a →
      Uploaded cfg uploads a := by
    intro id a ha
    have hrow : a.id = id ∧ a.sha256 = id ∧ (id, a.size) ∈ roomFiles room s.db := by
      unfold resolveRoomAttachment at ha
      split at ha
      · next r hf =>
        cases ha
        have hp := List.find?_some hf
        simp only [Bool.and_eq_true, decide_eq_true_eq] at hp
        exact ⟨rfl, rfl, mem_roomFiles.mpr (.inr ⟨r, List.mem_of_find?_eq_some hf, hp.2, hp.1, rfl⟩)⟩
      · obtain ⟨r, hf, rfl⟩ := Option.map_eq_some_iff.mp ha
        have hp := List.find?_some hf
        simp only [Bool.and_eq_true, decide_eq_true_eq] at hp
        exact ⟨rfl, rfl, mem_roomFiles.mpr (.inl ⟨r, List.mem_of_find?_eq_some hf, hp.2, hp.1, rfl⟩)⟩
    obtain ⟨hid, hsha, hmem⟩ := hrow
    obtain ⟨b, hget, hsize⟩ := (h.backed hmem).file
    obtain ⟨hb, hup⟩ := h.files id b hget
    exact ⟨hid.trans hsha.symm, b, hup, hb.trans hsha.symm, hsize⟩
  simp only [resolveAttachments, bind_ok, require_ok] at hr
  obtain ⟨-, -, hfold⟩ := hr
  -- induction on the ids still to resolve, over any list resolved so far
  suffices hgen : ∀ (l : List String) (acc : List Attachment), (∀ a ∈ acc, Uploaded cfg uploads a) →
      l.foldlM (fun resolved id =>
        if resolved.any fun a => a.id = id then pure resolved
        else do
          let a ← found (if env.fails (.resolveRoomAttachment id) then none
            else resolveRoomAttachment room id s.db) PostReject.unknownAttachment
          pure (resolved ++ [a])) acc = .ok attachments → ∀ a ∈ attachments, Uploaded cfg uploads a from
    hgen ids [] (fun a ha => by cases ha) hfold
  intro l
  induction l with
  | nil =>
      intro acc hacc hl
      cases hl
      exact hacc
  | cons id l ih =>
      intro acc hacc hl
      rw [List.foldlM_cons, bind_ok] at hl
      obtain ⟨acc', hstep, hl⟩ := hl
      refine ih acc' ?_ hl
      split at hstep
      · cases hstep
        exact hacc
      · simp only [bind_ok, found_ok, pure_ok] at hstep
        obtain ⟨a, ha, rfl⟩ := hstep
        intro x hx
        rcases List.mem_append.mp hx with hx | hx
        · exact hacc x hx
        · obtain rfl := List.mem_singleton.mp hx
          split at ha
          · cases ha
          · exact hone ha

/-! ## Every state -/

/-- The hash tells the uploads of a run apart. -/
def AttachInput.CollisionFree (cfg : BlobConfig) (s : AttachState) : AttachInput → Prop
  | .upload _ _ _ _ _ bytes _ => ∀ b ∈ s.uploads, cfg.sha b = cfg.sha bytes → b = bytes
  | _ => True

/-- The clock of an upload fits in an `i64`. -/
def AttachInput.InRange : AttachInput → Prop
  | .upload _ _ _ _ _ _ now => now.toNat < 2 ^ 63
  | _ => True

structure AttachKept (cfg : BlobConfig) (s : AttachState) : Prop where
  index : Indexed cfg s.uploads s.shelf
  archive : Shelved s.shelf.db
  stored : ∀ m ∈ s.shelf.db.messages, ∀ a ∈ m.files, Uploaded cfg s.uploads a
  posts : ∀ p ∈ s.posts, ∀ a ∈ p.2, Uploaded cfg s.uploads a

theorem Uploaded.longer {cfg : BlobConfig} {uploads : List Bytes} {a : Attachment}
    (h : Uploaded cfg uploads a) (bytes : Bytes) : Uploaded cfg (bytes :: uploads) a := by
  obtain ⟨hid, b, hb, hrest⟩ := h
  exact ⟨hid, b, List.mem_cons_of_mem _ hb, hrest⟩

/-- An upload touches neither the messages nor their references. -/
theorem putPendingAttachment_same (cfg : BlobConfig) (fails : AttachCall → Bool)
    (room uploader name mime : String) (bytes : Bytes) (now : UInt64) (s : Shelf) :
    (putPendingAttachment cfg fails room uploader name mime bytes now s).2.db.messages = s.db.messages ∧
    (putPendingAttachment cfg fails room uploader name mime bytes now s).2.db.attachmentRefs =
      s.db.attachmentRefs := by
  unfold putPendingAttachment
  dsimp only
  split
  · exact ⟨rfl, rfl⟩
  · split
    · exact ⟨rfl, rfl⟩
    · split
      · exact ⟨rfl, rfl⟩
      · split <;> exact ⟨rfl, rfl⟩

theorem Indexed.store {cfg : BlobConfig} {uploads : List Bytes} {s : Shelf} {write : MessageWrite}
    {m : Message} {operation : Option Operation} {db : Db} (h : Indexed cfg uploads s)
    (ha : ∀ a ∈ m.attachments, Uploaded cfg uploads a) (hw : write.run m operation s.db = .ok db) :
    Indexed cfg uploads { s with db := db } := by
  obtain ⟨-, db₁, db₂, ⟨hblobs₁, hpending₁, hrefs₁⟩, hclaims, -, hblobs, hpending, hrefs⟩ :=
    MessageWrite.run_ok hw
  have hmid : Indexed cfg uploads { s with db := db₁ } :=
    h.shrink rfl hblobs₁ (fun r hr => hpending₁ ▸ hr) fun r hr => hrefs₁ ▸ hr
  have hclaimed : Indexed cfg uploads { s with db := db₂ } :=
    (writeAttachmentRefs_rule (P := fun db => Indexed cfg uploads { s with db := db })
      (fun _ a hmem hclaim hi => hi.claim (ha a hmem).2 hclaim) hclaims hmid).1
  exact hclaimed.shrink rfl hblobs (fun r hr => hpending ▸ hr) fun r hr => hrefs ▸ hr

theorem step_kept {cfg : BlobConfig} {s : AttachState} {i : AttachInput} (h : AttachKept cfg s)
    (hc : i.CollisionFree cfg s) (hr : i.InRange) : AttachKept cfg (s.step cfg i) := by
  cases i with
  | upload fails room uploader name mime bytes now =>
      obtain ⟨hmsg, hrefs⟩ := putPendingAttachment_same cfg fails room uploader name mime bytes now s.shelf
      refine ⟨(h.index.longer hc).upload List.mem_cons_self hr, h.archive.same hmsg hrefs, ?_, ?_⟩
      · intro m hm a ha
        exact (h.stored m (hmsg ▸ hm) a ha).longer bytes
      · exact fun p hp a ha => (h.posts p hp a ha).longer bytes
  | cite env room ids =>
      simp only [AttachState.step]
      split
      · exact h
      · next attachments hres =>
        refine { h with posts := fun p hp => ?_ }
        rcases List.mem_append.mp hp with hp | hp
        · exact h.posts p hp
        · rw [List.mem_singleton.mp hp]
          exact resolveAttachments_uploaded h.index hres
  | store fails k m operation write =>
      simp only [AttachState.step]
      split
      · exact h
      · next p hp =>
        have hfiles : ∀ a ∈ (AttachState.message p m).attachments, Uploaded cfg s.uploads a :=
          h.posts p (List.mem_of_getElem? hp)
        have hposts : ∀ q ∈ s.posts.eraseIdx k, ∀ a ∈ q.2, Uploaded cfg s.uploads a :=
          fun q hq => h.posts q (List.mem_of_mem_eraseIdx hq)
        split
        · exact { h with posts := hposts }
        · split
          · exact { h with posts := hposts }
          · next db hw =>
            refine ⟨h.index.store hfiles hw, h.archive.store hw, ?_, hposts⟩
            obtain ⟨-, -, -, -, -, hmessages, -⟩ := MessageWrite.run_ok hw
            intro x hx a ha
            change x ∈ db.messages at hx
            rw [hmessages] at hx
            rcases List.mem_append.mp hx with hx | hx
            · exact h.stored x hx a ha
            · rw [List.mem_singleton.mp hx, MessageRow.files_ofMessage] at ha
              exact hfiles a ha
  | refuse k => exact { h with posts := fun q hq => h.posts q (List.mem_of_mem_eraseIdx hq) }
  | delete p =>
      refine ⟨h.index.shrink rfl rfl (fun r hr => hr) fun r hr => (mem_deleteWhere.mp hr).1,
        h.archive.delete p, fun m hm => h.stored m (mem_deleteWhere.mp hm).1, h.posts⟩
  | sweep fails now ttl =>
      obtain ⟨pending, -, -, hi, hs⟩ := @sweepAttachments_spec cfg s.uploads fails s.shelf h.index now ttl
      exact ⟨hi, h.archive.same hs.messages hs.refs, fun m hm => h.stored m (hs.messages ▸ hm), h.posts⟩
  | restart => exact { h with posts := fun p hp => by cases hp }

theorem init_kept (cfg : BlobConfig) : AttachKept cfg ⟨⟨{}, ∅⟩, [], []⟩ := by
  have hnone : ∀ room, roomFiles room {} = [] := fun room => rfl
  refine ⟨⟨?_, ?_, List.nodup_nil, ?_, ?_, ?_, ?_, Nat.zero_le _, ?_⟩, ⟨List.nodup_nil, ?_, ?_⟩, ?_, ?_⟩
  · exact fun b hb => by cases hb
  · exact fun sha b hb => by cases hb
  · exact fun row hr => by cases hr
  · exact fun r hr => by cases hr
  · exact fun r hr => by cases hr
  · exact fun r hr => by cases hr
  · exact fun room => by rw [hnone]; exact Nat.zero_le _
  · exact fun r hr => by cases hr
  · exact fun m hm => by cases hm
  · exact fun m hm => by cases hm
  · exact fun p hp => by cases hp

theorem run_kept {cfg : BlobConfig} {tr : List (AttachInput × Unit)} {s : AttachState}
    (r : Sys.Run (attachMachine cfg) (fun s i => i.CollisionFree cfg s ∧ i.InRange) tr s) :
    AttachKept cfg s := by
  refine Sys.Run.invariant (I := AttachKept cfg) ?_ ?_ r
  · rintro s rfl
    exact init_kept cfg
  · exact fun s i h hi => step_kept h hi.1 hi.2

end Loca
