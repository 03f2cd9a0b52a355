/-
# `Loca.Adapter.Ingest` — every delivery becomes one attention

The inbox only grows, by any bytes at any time, and is read by calls any of which may raise or
die.  `Ingested` says what the ledger holds against the records read so far, one step lemma
says that filing the next record keeps it, and the law of the runs follows: the stored offset
is the end of a line, and the ledger is exactly what the lines before it say.

An attention is named by the identity, the first twelve digits of the server's digest and the
delivery id, so two servers whose digests agree there share their names; a record without a room
moves no watermark.
-/
import Loca.Base.Run
import Loca.Adapter.Inbox

namespace Loca.Adapter

open Check Table

/-! ## The records so far -/

/-- The first record that asks for this attention. -/
def firstFor (py : Python) (identity id : String) (entries : List Entry) : Option (Entry × Work) :=
  entries.findSome? fun e => e.work.bind fun w =>
    if attentionIdFor py identity e.server w.deliveryId = id then some (e, w) else none

/-- The attentions and their bundles are those the records ask for. -/
structure Attended (py : Python) (identity sourceId : String) (entries : List Entry) (l : Ledger) :
    Prop where
  /-- No attention twice. -/
  once : (l.attentions.map Attention.attentionId).Nodup
  /-- An attention is as the first record that asks for it says. -/
  first : ∀ a ∈ l.attentions, ∃ e w now, firstFor py identity a.attentionId entries = some (e, w) ∧
    a = e.row py identity sourceId now w
  /-- No record is left out. -/
  all : ∀ e ∈ entries, ∀ w, e.work = some w → ∃ a ∈ l.attentions,
    a.attentionId = attentionIdFor py identity e.server w.deliveryId
  /-- One link to its bundle for each attention, and no other. -/
  link : ∀ a ∈ l.attentions, (l.bundleLinks.filter fun k => k.attentionId = a.attentionId) =
    [⟨a.bundleId, a.attentionId, 0⟩]
  linked : ∀ k ∈ l.bundleLinks, ∃ a ∈ l.attentions, a.attentionId = k.attentionId
  bundled : ∀ a ∈ l.attentions, ∃ b ∈ l.bundles, b.bundleId = a.bundleId

/-- A watermark is the greatest id the records of its room report; records without a room
report none. -/
structure Marked (entries : List Entry) (marks : List Watermark) : Prop where
  once : (marks.map fun w => (w.server, w.room)).Nodup
  reported : ∀ w ∈ marks, w.room ≠ "" ∧ ∃ e ∈ entries, e.server = w.server ∧ e.room = w.room ∧
    ∃ r, e.range = some r ∧ r.2 = w.lastId
  greatest : ∀ e ∈ entries, ∀ r, e.range = some r → e.room ≠ "" → ∃ w ∈ marks,
    w.server = e.server ∧ w.room = e.room ∧ r.2 ≤ w.lastId

/-- The ledger holds what the records say, and nothing else. -/
structure Ingested (py : Python) (identity sourceId : String) (entries : List Entry) (l : Ledger) :
    Prop where
  attended : Attended py identity sourceId entries l
  marked : Marked entries l.watermarks

theorem firstFor_append (py : Python) (identity id : String) (es es' : List Entry) :
    firstFor py identity id (es ++ es') = (firstFor py identity id es).or (firstFor py identity id es') := by
  unfold firstFor
  rw [List.findSome?_append]

theorem firstFor_mem {py : Python} {identity id : String} {es : List Entry} {e : Entry} {w : Work}
    (h : firstFor py identity id es = some (e, w)) :
    e ∈ es ∧ e.work = some w ∧ attentionIdFor py identity e.server w.deliveryId = id := by
  obtain ⟨e', he', h'⟩ := List.exists_of_findSome?_eq_some h
  obtain ⟨w', hw', hif⟩ := Option.bind_eq_some_iff.mp h'
  split at hif
  · next hid =>
    cases hif
    exact ⟨he', hw', hid⟩
  · cases hif

/-! ## One more record -/

theorem Marked.quiet {entries : List Entry} {marks : List Watermark} (h : Marked entries marks)
    {e : Entry} (he : e.room = "" ∨ e.range = none) : Marked (entries ++ [e]) marks := by
  refine ⟨h.once, ?_, ?_⟩
  · intro w hw
    obtain ⟨hroom, e', he', hrest⟩ := h.reported w hw
    exact ⟨hroom, e', List.mem_append_left _ he', hrest⟩
  · intro e' he' r hr hroom
    rcases List.mem_append.mp he' with he' | he'
    · exact h.greatest e' he' r hr hroom
    · cases List.mem_singleton.mp he'
      rcases he with he | he
      · exact absurd he hroom
      · rw [he] at hr; cases hr

theorem Marked.report {entries : List Entry} {l : Ledger} (h : Marked entries l.watermarks)
    {e : Entry} {r : Int × Int} (hr : e.range = some r) (hroom : e.room ≠ "") (now : Int) :
    Marked (entries ++ [e]) (l.watermark e.server e.room r.2 now).watermarks := by
  have hnodup : ((l.watermark e.server e.room r.2 now).watermarks.map
      fun w => (w.server, w.room)).Nodup := nodup_insertOrUpdate (fun _ => rfl) h.once
  have hnew : e ∈ entries ++ [e] := List.mem_append_right _ List.mem_cons_self
  have hold : ∀ {x}, x ∈ entries → x ∈ entries ++ [e] := fun hx => List.mem_append_left _ hx
  rcases insertOrUpdate_cases (fun w : Watermark => (w.server, w.room))
    ⟨e.server, e.room, r.2, now⟩ (fun w => { w with lastId := max w.lastId r.2, observedAtMs := now })
    l.watermarks with ⟨⟨y, hy, hk⟩, heq⟩ | ⟨hfresh, heq⟩
  · have hmarks : (l.watermark e.server e.room r.2 now).watermarks = updateWhere
      (fun w => (w.server, w.room) = (e.server, e.room))
      (fun w => { w with lastId := max w.lastId r.2, observedAtMs := now }) l.watermarks := heq
    refine ⟨hnodup, ?_, ?_⟩
    · rw [hmarks]
      intro w hw
      obtain ⟨x, hx, rfl⟩ := mem_updateWhere.mp hw
      obtain ⟨hxroom, e', he', hs, hrm, r', hr', hlast⟩ := h.reported x hx
      split
      · next hkey =>
        simp only [Prod.mk.injEq, decide_eq_true_eq] at hkey
        refine ⟨hxroom, ?_⟩
        rcases le_total r.2 x.lastId with hle | hle
        · exact ⟨e', hold he', hs, hrm, r', hr', by rw [hlast, max_eq_left hle]⟩
        · exact ⟨e, hnew, hkey.1.symm, hkey.2.symm, r, hr, by rw [max_eq_right hle]⟩
      · exact ⟨hxroom, e', hold he', hs, hrm, r', hr', hlast⟩
    · rw [hmarks]
      -- an old mark is still there, at least as high
      have hup : ∀ x ∈ l.watermarks, ∃ w ∈ updateWhere
          (fun w : Watermark => (w.server, w.room) = (e.server, e.room))
          (fun w => { w with lastId := max w.lastId r.2, observedAtMs := now }) l.watermarks,
          w.server = x.server ∧ w.room = x.room ∧ x.lastId ≤ w.lastId ∧
            ((x.server, x.room) = (e.server, e.room) → r.2 ≤ w.lastId) := by
        intro x hx
        refine ⟨_, mem_updateWhere.mpr ⟨x, hx, rfl⟩, ?_⟩
        split
        · exact ⟨rfl, rfl, le_max_left _ _, fun _ => le_max_right _ _⟩
        · next hne => exact ⟨rfl, rfl, le_refl _, fun hk => absurd (decide_eq_true hk) hne⟩
      intro e' he' r' hr' hroom'
      rcases List.mem_append.mp he' with he' | he'
      · obtain ⟨x, hx, hs, hrm, hle⟩ := h.greatest e' he' r' hr' hroom'
        obtain ⟨w, hw, hws, hwr, hwl, -⟩ := hup x hx
        exact ⟨w, hw, hws.trans hs, hwr.trans hrm, le_trans hle hwl⟩
      · cases List.mem_singleton.mp he'
        rw [hr] at hr'
        cases hr'
        obtain ⟨w, hw, hws, hwr, -, hle⟩ := hup y hy
        obtain ⟨hs, hrm⟩ := Prod.mk.inj hk
        exact ⟨w, hw, hws.trans hs, hwr.trans hrm, hle hk⟩
  · have hmarks : (l.watermark e.server e.room r.2 now).watermarks =
      l.watermarks ++ [⟨e.server, e.room, r.2, now⟩] := heq
    refine ⟨hnodup, ?_, ?_⟩
    · rw [hmarks]
      intro w hw
      rcases List.mem_append.mp hw with hw | hw
      · obtain ⟨hwroom, e', he', hrest⟩ := h.reported w hw
        exact ⟨hwroom, e', hold he', hrest⟩
      · cases List.mem_singleton.mp hw
        exact ⟨hroom, e, hnew, rfl, rfl, r, hr, rfl⟩
    · rw [hmarks]
      intro e' he' r' hr' hroom'
      rcases List.mem_append.mp he' with he' | he'
      · obtain ⟨x, hx, hrest⟩ := h.greatest e' he' r' hr' hroom'
        exact ⟨x, List.mem_append_left _ hx, hrest⟩
      · cases List.mem_singleton.mp he'
        rw [hr] at hr'
        cases hr'
        exact ⟨_, List.mem_append_right _ List.mem_cons_self, rfl, rfl, le_refl _⟩

section File

variable {py : Python} {identity sourceId : String} {now : Int} {entries : List Entry} {l l' : Ledger}

/-- Only the attentions, the bundles and the links count. -/
theorem Attended.of_eq (h : Attended py identity sourceId entries l)
    (ha : l'.attentions = l.attentions) (hk : l'.bundleLinks = l.bundleLinks)
    (hb : ∀ b ∈ l.bundles, ∃ b' ∈ l'.bundles, b'.bundleId = b.bundleId) :
    Attended py identity sourceId entries l' := by
  refine ⟨ha ▸ h.once, ha ▸ h.first, ha ▸ h.all, ha ▸ hk ▸ h.link, ha ▸ hk ▸ h.linked, ?_⟩
  rw [ha]
  intro a hmem
  obtain ⟨b, hbm, hid⟩ := h.bundled a hmem
  obtain ⟨b', hb', hid'⟩ := hb b hbm
  exact ⟨b', hb', hid'.trans hid⟩

/-- A record that asks for nothing new. -/
theorem Attended.skip (h : Attended py identity sourceId entries l) {e : Entry}
    (he : ∀ w, e.work = some w → ∃ a ∈ l.attentions,
      a.attentionId = attentionIdFor py identity e.server w.deliveryId) :
    Attended py identity sourceId (entries ++ [e]) l := by
  refine { h with first := ?_, all := ?_ }
  · intro a ha
    obtain ⟨e', w, now, hf, hrow⟩ := h.first a ha
    exact ⟨e', w, now, by rw [firstFor_append, hf, Option.some_or], hrow⟩
  · intro e' he' w hw
    rcases List.mem_append.mp he' with he' | he'
    · exact h.all e' he' w hw
    · cases List.mem_singleton.mp he'
      exact he w hw

/-- A stored attention is named after its own server and delivery. -/
theorem Attended.named (h : Attended py identity sourceId entries l) {a : Attention}
    (ha : a ∈ l.attentions) : a.attentionId = attentionIdFor py identity a.server a.deliveryId ∧
      a.bundleId = "bundle:" ++ a.attentionId := by
  obtain ⟨e, w, now, -, hrow⟩ := h.first a ha
  rw [hrow]
  exact ⟨rfl, rfl⟩

/-- An attention that is new, with its link and its bundle. -/
theorem Attended.add (h : Attended py identity sourceId entries l) {e : Entry} {w : Work}
    (hw : e.work = some w)
    (hfree : ∀ r ∈ l.attentions, r.attentionId ≠ (e.row py identity sourceId now w).attentionId)
    (hbundle : ∃ b ∈ l.bundles, b.bundleId = (e.row py identity sourceId now w).bundleId) :
    Attended py identity sourceId (entries ++ [e]) { l with
      attentions := l.attentions ++ [e.row py identity sourceId now w]
      bundleLinks := l.bundleLinks ++ [⟨(e.row py identity sourceId now w).bundleId,
        (e.row py identity sourceId now w).attentionId, 0⟩] } := by
  have hid : (e.row py identity sourceId now w).attentionId =
      attentionIdFor py identity e.server w.deliveryId := rfl
  have hnone : firstFor py identity (e.row py identity sourceId now w).attentionId entries = none := by
    cases hf : firstFor py identity (e.row py identity sourceId now w).attentionId entries with
    | none => rfl
    | some x =>
        obtain ⟨he', hw', hid'⟩ := firstFor_mem (e := x.1) (w := x.2) hf
        obtain ⟨r, hr, hrid⟩ := h.all x.1 he' x.2 hw'
        exact absurd (hrid.trans hid') (hfree r hr)
  refine ⟨nodup_append_new h.once hfree, ?_, ?_, ?_, ?_, ?_⟩
  · intro a ha
    rcases List.mem_append.mp ha with ha | ha
    · obtain ⟨e', w', now', hf, hrow⟩ := h.first a ha
      exact ⟨e', w', now', by rw [firstFor_append, hf, Option.some_or], hrow⟩
    · cases List.mem_singleton.mp ha
      refine ⟨e, w, now, ?_, rfl⟩
      rw [firstFor_append, hnone, Option.none_or]
      simp [firstFor, hw, hid]
  · intro e' he' w' hw'
    rcases List.mem_append.mp he' with he' | he'
    · obtain ⟨a, ha, haid⟩ := h.all e' he' w' hw'
      exact ⟨a, List.mem_append_left _ ha, haid⟩
    · cases List.mem_singleton.mp he'
      rw [hw] at hw'
      cases hw'
      exact ⟨_, List.mem_append_right _ List.mem_cons_self, hid⟩
  · intro a ha
    rcases List.mem_append.mp ha with ha | ha
    · refine (filter_append_of_not ?_).trans (h.link a ha)
      exact decide_eq_false (hfree a ha).symm
    · cases List.mem_singleton.mp ha
      have hempty : l.bundleLinks.filter (fun k => k.attentionId =
          (e.row py identity sourceId now w).attentionId) = [] := by
        rw [List.filter_eq_nil_iff]
        intro k hk hkid
        obtain ⟨r, hr, hrid⟩ := h.linked k hk
        exact hfree r hr (hrid.trans (of_decide_eq_true hkid))
      rw [List.filter_append, hempty]
      simp
  · intro k hk
    rcases List.mem_append.mp hk with hk | hk
    · obtain ⟨a, ha, haid⟩ := h.linked k hk
      exact ⟨a, List.mem_append_left _ ha, haid⟩
    · cases List.mem_singleton.mp hk
      exact ⟨_, List.mem_append_right _ List.mem_cons_self, rfl⟩
  · intro a ha
    rcases List.mem_append.mp ha with ha | ha
    · exact h.bundled a ha
    · cases List.mem_singleton.mp ha
      exact hbundle

theorem Attended.fileWork (h : Attended py identity sourceId entries l) {e : Entry} {w : Work}
    (hw : e.work = some w) {new : Bool}
    (hf : l.fileWork (e.row py identity sourceId now w) now = .ok (new, l')) :
    Attended py identity sourceId (entries ++ [e]) l' ∧ l'.watermarks = l.watermarks := by
  have h₁ : Attended py identity sourceId entries { l with
      bundles := insertIgnore Bundle.bundleId
        ⟨(e.row py identity sourceId now w).bundleId, identity, w.priority, now⟩ l.bundles } :=
    h.of_eq rfl rfl fun b hb => ⟨b, mem_insertIgnore.mpr (.inl hb), rfl⟩
  simp only [Ledger.fileWork] at hf
  split at hf
  · next htaken =>
    cases hf
    refine ⟨h₁.skip ?_, rfl⟩
    intro w' hw'
    rw [hw] at hw'
    cases hw'
    obtain ⟨r, hr, hcase⟩ := List.any_eq_true.mp htaken
    simp only [Bool.or_eq_true, Bool.and_eq_true, decide_eq_true_eq] at hcase
    refine ⟨r, hr, ?_⟩
    rcases hcase with hid | ⟨⟨⟨hs, -⟩, -⟩, hd⟩
    · exact hid
    · rw [(h.named hr).1, hs, hd]
      rfl
  · next hfree =>
    simp only [bind_ok, require_ok, pure_ok, Prod.mk.injEq, exists_const] at hf
    obtain ⟨-, -, rfl⟩ := hf
    refine ⟨h₁.add hw ?_ ?_, rfl⟩
    · intro r hr hid
      refine hfree (List.any_eq_true.mpr ⟨r, hr, ?_⟩)
      simp [hid]
    · by_cases hk : ∃ b ∈ l.bundles, b.bundleId = (e.row py identity sourceId now w).bundleId
      · obtain ⟨b, hb, hid⟩ := hk
        exact ⟨b, mem_insertIgnore.mpr (.inl hb), hid⟩
      · exact ⟨_, mem_insertIgnore.mpr (.inr ⟨rfl, fun y hy hyid => hk ⟨y, hy, hyid⟩⟩), rfl⟩

theorem Marked.note (h : Marked entries l.watermarks) (e : Entry) :
    Marked (entries ++ [e]) (e.note now l).watermarks := by
  unfold Entry.note
  split
  · next r hr =>
    split
    · next hroom => exact h.quiet (.inl hroom)
    · next hroom => exact h.report hr hroom now
  · next hr => exact h.quiet (.inr hr)

theorem Attended.note (h : Attended py identity sourceId entries l) (e : Entry) :
    Attended py identity sourceId entries (e.note now l) := by
  unfold Entry.note
  split
  · split
    · exact h
    · exact h.of_eq rfl rfl fun b hb => ⟨b, hb, rfl⟩
  · exact h

/-- Filing the next record. -/
theorem Ingested.file (h : Ingested py identity sourceId entries l) (e : Entry) {t t' : Tally}
    (hf : e.file py identity sourceId now t l = .ok (t', l')) :
    Ingested py identity sourceId (entries ++ [e]) l' := by
  have hm := @Marked.note now entries l h.marked e
  have ha := @Attended.note py identity sourceId now entries l h.attended e
  unfold Entry.file at hf
  split at hf
  · next hw =>
    cases hf
    refine ⟨ha.skip fun w hw' => ?_, hm⟩
    rw [hw] at hw'
    cases hw'
  · next w hw =>
    simp only [bind_ok, pure_ok, Prod.mk.injEq] at hf
    obtain ⟨⟨new, l₁⟩, hwork, -, rfl⟩ := hf
    obtain ⟨hatt, hmarks⟩ := ha.fileWork hw hwork
    exact ⟨hatt, hmarks ▸ hm⟩

end File

theorem file_sources {py : Python} {identity sourceId : String} {now : Int} {e : Entry}
    {t t' : Tally} {l l' : Ledger} (hf : e.file py identity sourceId now t l = .ok (t', l')) :
    l'.sources = l.sources := by
  have hnote : (e.note now l).sources = l.sources := by
    unfold Entry.note
    split
    · split <;> rfl
    · rfl
  unfold Entry.file at hf
  split at hf
  · cases hf
    exact hnote
  · simp only [bind_ok, pure_ok, Prod.mk.injEq, Ledger.fileWork] at hf
    obtain ⟨⟨new, l₁⟩, hwork, -, rfl⟩ := hf
    split at hwork
    · cases hwork
      exact hnote
    · simp only [bind_ok, require_ok, pure_ok, Prod.mk.injEq, exists_const] at hwork
      obtain ⟨-, -, rfl⟩ := hwork
      exact hnote

/-! ## A whole call -/

/-- Read the lines one after the other. -/
def digestAll (py : Python) (identity : String) : List (List UInt8) → Nat → Except Fault (List Entry)
  | [], _ => .ok []
  | raw :: lines, offset => do
    let e ← digest py identity raw offset
    let es ← digestAll py identity lines (offset + raw.length)
    pure (e :: es)

theorem digestAll_append {py : Python} {identity : String} {lines lines' : List (List UInt8)}
    {offset : Nat} {es es' : List Entry} (h : digestAll py identity lines offset = .ok es)
    (h' : digestAll py identity lines' (offset + lines.flatten.length) = .ok es') :
    digestAll py identity (lines ++ lines') offset = .ok (es ++ es') := by
  induction lines generalizing offset es with
  | nil =>
      cases h
      simpa using h'
  | cons raw lines ih =>
      simp only [digestAll, bind_ok, pure_ok] at h
      obtain ⟨e, he, rest, hrest, rfl⟩ := h
      have hlen : offset + raw.length + lines.flatten.length =
          offset + (raw :: lines).flatten.length := by
        rw [List.flatten_cons, List.length_append]
        omega
      have hrest' := ih hrest (hlen ▸ h')
      simp only [List.cons_append, digestAll, bind_ok, pure_ok]
      exact ⟨e, he, rest ++ es', hrest', rfl⟩

/-- A loop that returns has read every line and filed it. -/
theorem ingestLines_ok {py : Python} {identity sourceId : String} {now : Int}
    {lines : List (List UInt8)} {offset : Nat} {t : Tally} {l l' : Ledger} {done : Tally × Nat}
    {entries : List Entry} (h : ingestLines py identity sourceId now lines offset t l = .ok (done, l'))
    (hi : Ingested py identity sourceId entries l) :
    done.2 = offset + lines.flatten.length ∧ l'.sources = l.sources ∧
      ∃ es, digestAll py identity lines offset = .ok es ∧
        Ingested py identity sourceId (entries ++ es) l' := by
  induction lines generalizing offset t l entries with
  | nil =>
      cases h
      exact ⟨by simp, rfl, [], rfl, by simpa using hi⟩
  | cons raw lines ih =>
      simp only [ingestLines, bind_ok] at h
      obtain ⟨e, he, ⟨t₁, l₁⟩, hf, h⟩ := h
      obtain ⟨hlen, hsrc, es, hes, hi'⟩ := ih h (hi.file e hf)
      refine ⟨?_, ?_, e :: es, ?_, ?_⟩
      · rw [hlen, List.flatten_cons, List.length_append]
        omega
      · exact hsrc.trans (file_sources hf)
      · simp only [digestAll, bind_ok, pure_ok]
        exact ⟨e, he, es, hes, rfl⟩
      · simpa using hi'

theorem offsetOf_insertOrUpdate (path sourceId : String) (offset : Nat) (now : Int) (l : Ledger) :
    Ledger.offsetOf sourceId { l with
      sources := insertOrUpdate Source.sourceId ⟨sourceId, path, offset, now⟩
        (fun s => { s with path := path, offset := offset, updatedAtMs := now }) l.sources } = offset := by
  unfold Ledger.offsetOf
  rcases insertOrUpdate_cases Source.sourceId ⟨sourceId, path, offset, now⟩
    (fun s => { s with path := path, offset := offset, updatedAtMs := now }) l.sources with
    ⟨⟨y, hy, hk⟩, heq⟩ | ⟨hfresh, heq⟩
  · dsimp only
    rw [heq, find?_updateWhere]
    · have hsome : (l.sources.find? fun s => s.sourceId = sourceId).isSome :=
        List.find?_isSome.mpr ⟨y, hy, decide_eq_true hk⟩
      obtain ⟨x, hx⟩ := Option.isSome_iff_exists.mp hsome
      have hid : x.sourceId = sourceId := by simpa using List.find?_some hx
      simp [hx, hid]
    · exact fun _ _ => rfl
  · dsimp only
    rw [heq, List.find?_append, List.find?_eq_none.mpr]
    · simp
    · intro y hy hk
      exact hfresh y hy (of_decide_eq_true hk)

/-! ## The inbox as a machine -/

structure Inbox where
  file : List UInt8
  ledger : Ledger

inductive InboxInput
  | append (bytes : List UInt8)
  | ingest (now : Int) (crashed : Bool)

inductive InboxAnswer
  | appended
  | read (r : Except Fault (Tally × Nat))

def Inbox.step (py : Python) (path identity : String) (s : Inbox) : InboxInput → InboxAnswer × Inbox
  | .append bytes => (.appended, { s with file := s.file ++ bytes })
  | .ingest now crashed =>
      let x := atomically crashed .crashed (ingestInbox py path identity now s.file) s.ledger
      (.read x.1, { s with ledger := x.2 })

/-- The offset is in the file, at its start or right after a newline. -/
def AtLine (file : List UInt8) (offset : Nat) : Prop :=
  offset ≤ file.length ∧ (offset = 0 ∨ file[offset - 1]? = some newline)

/-- A new ledger, or one whose cursor was put at the end of some line. -/
def inboxInit (path identity : String) (start : Nat) (s : Inbox) : Prop :=
  AtLine s.file start ∧ (start = 0 ∧ s.ledger = {} ∨
    ∃ t, s.ledger = { sources := [⟨sourceIdOf path identity, path, start, t⟩] })

def inboxMachine (py : Python) (path identity : String) (start : Nat) :
    Sys.Machine Inbox InboxInput InboxAnswer where
  init := inboxInit path identity start
  step := Inbox.step py path identity

abbrev anyInboxInput (_ : Inbox) (_ : InboxInput) : Prop := True

/-- The committed offset. -/
def Inbox.offset (path identity : String) (s : Inbox) : Nat :=
  s.ledger.offsetOf (sourceIdOf path identity)

/-- The bytes between the first cursor and the committed offset. -/
def Inbox.taken (path identity : String) (start : Nat) (s : Inbox) : List UInt8 :=
  (s.file.take (s.offset path identity)).drop start

/-- What ingestion promises after any run. -/
structure IngestLaw (py : Python) (path identity : String) (start : Nat) (s : Inbox) : Prop where
  line : AtLine s.file (s.offset path identity)
  forward : start ≤ s.offset path identity
  /-- The bytes taken are complete lines, every one of them a record, and the ledger is what
  these records say. -/
  whole : (Lines.complete newline (s.taken path identity start)).flatten = s.taken path identity start
  records : ∃ entries, digestAll py identity (Lines.complete newline (s.taken path identity start)) start =
      .ok entries ∧ Ingested py identity (sourceIdOf path identity) entries s.ledger
  /-- A call that raises changes nothing. -/
  raised : ∀ now crashed e, (s.step py path identity (.ingest now crashed)).1 = .read (.error e) →
    (s.step py path identity (.ingest now crashed)).2 = s

/-- The invariant of the runs. -/
structure Reading (py : Python) (path identity : String) (start : Nat) (s : Inbox) : Prop where
  first : AtLine s.file start
  inside : s.offset path identity ≤ s.file.length
  forward : start ≤ s.offset path identity
  whole : Lines.rest newline (s.taken path identity start) = []
  records : ∃ entries, digestAll py identity (Lines.complete newline (s.taken path identity start)) start =
      .ok entries ∧ Ingested py identity (sourceIdOf path identity) entries s.ledger

section Runs

variable {py : Python} {path identity : String} {start : Nat} {s : Inbox}

theorem AtLine.append {file : List UInt8} {offset : Nat} (h : AtLine file offset) (bytes : List UInt8) :
    AtLine (file ++ bytes) offset := by
  refine ⟨by rw [List.length_append]; exact le_trans h.1 (Nat.le_add_right _ _), ?_⟩
  rcases h.2 with h0 | hnl
  · exact .inl h0
  · have hlt := (List.getElem?_eq_some_iff.mp hnl).1
    exact .inr (by rw [List.getElem?_append_left hlt]; exact hnl)

theorem Reading.init (h : inboxInit path identity start s) : Reading py path identity start s := by
  obtain ⟨hline, hl⟩ := h
  have hempty : ∀ l : Ledger, l.attentions = [] → l.bundleLinks = [] → l.watermarks = [] →
      Ingested py identity (sourceIdOf path identity) [] l := by
    intro l ha hk hw
    refine ⟨⟨?_, ?_, ?_, ?_, ?_, ?_⟩, ?_, ?_, ?_⟩ <;> simp [ha, hk, hw]
  have hoff : s.offset path identity = start := by
    rcases hl with ⟨rfl, hl⟩ | ⟨t, hl⟩
    · simp [Inbox.offset, Ledger.offsetOf, hl]
    · simp [Inbox.offset, Ledger.offsetOf, hl]
  have htaken : s.taken path identity start = [] := by
    rw [Inbox.taken, hoff]
    exact List.drop_eq_nil_of_le (by simp)
  refine ⟨hline, hoff ▸ hline.1, le_of_eq hoff.symm, by rw [htaken]; rfl, [], ?_, ?_⟩
  · rw [htaken]
    rfl
  · rcases hl with ⟨-, hl⟩ | ⟨t, hl⟩
    · exact hempty _ (by rw [hl]) (by rw [hl]) (by rw [hl])
    · exact hempty _ (by rw [hl]) (by rw [hl]) (by rw [hl])

theorem Reading.append (h : Reading py path identity start s) (bytes : List UInt8) :
    Reading py path identity start { s with file := s.file ++ bytes } := by
  have htaken : Inbox.taken path identity start { s with file := s.file ++ bytes } =
      s.taken path identity start := by
    show ((s.file ++ bytes).take (s.offset path identity)).drop start = _
    rw [List.take_append_of_le_length h.inside]
    rfl
  refine ⟨h.first.append bytes, ?_, h.forward, by rw [htaken]; exact h.whole, ?_⟩
  · show s.offset path identity ≤ (s.file ++ bytes).length
    rw [List.length_append]
    exact le_trans h.inside (Nat.le_add_right _ _)
  · rw [htaken]
    exact h.records

/-- A call that returns takes every complete line past the offset. -/
theorem Reading.ingest (h : Reading py path identity start s) {now : Int} {done : Tally × Nat}
    {l : Ledger} (hi : ingestInbox py path identity now s.file s.ledger = .ok (done, l)) :
    Reading py path identity start { s with ledger := l } := by
  obtain ⟨entries, hentries, hing⟩ := h.records
  have hlt : ¬ s.file.length < s.offset path identity := Nat.not_lt.mpr h.inside
  simp only [ingestInbox, bind_ok, pure_ok, Prod.mk.injEq] at hi
  obtain ⟨⟨done', l₁⟩, hlines, rfl, rfl⟩ := hi
  rw [show s.ledger.offsetOf (sourceIdOf path identity) = s.offset path identity from rfl,
    if_neg hlt] at hlines
  obtain ⟨hlen, hsrc, es, hes, hing'⟩ := ingestLines_ok hlines hing
  -- the bytes past the offset: the complete lines, then the rest
  generalize hnew : Lines.complete newline (s.file.drop (s.offset path identity)) = lines at *
  have hprefix : lines.flatten <+: s.file.drop (s.offset path identity) :=
    hnew ▸ Lines.complete_flatten_prefix _
  have hlenle : s.offset path identity + lines.flatten.length ≤ s.file.length := by
    have := hprefix.length_le
    rw [List.length_drop] at this
    have := h.inside
    omega
  have hoff : Inbox.offset path identity { s with ledger := { l₁ with
      sources := insertOrUpdate Source.sourceId ⟨sourceIdOf path identity, path, done'.2, now⟩
        (fun s => { s with path := path, offset := done'.2, updatedAtMs := now }) l₁.sources } } =
      s.offset path identity + lines.flatten.length := by
    show Ledger.offsetOf _ _ = _
    rw [offsetOf_insertOrUpdate, hlen]
  have htaken : Inbox.taken path identity start { s with ledger := { l₁ with
      sources := insertOrUpdate Source.sourceId ⟨sourceIdOf path identity, path, done'.2, now⟩
        (fun s => { s with path := path, offset := done'.2, updatedAtMs := now }) l₁.sources } } =
      s.taken path identity start ++ lines.flatten := by
    rw [Inbox.taken, hoff, List.take_add, List.drop_append_of_le_length]
    · congr 1
      exact (List.prefix_iff_eq_take.mp hprefix).symm
    · rw [List.length_take]
      exact le_min h.forward (le_trans h.forward h.inside)
  have hcomplete : Lines.complete newline lines.flatten = lines := by
    rw [← hnew]
    exact Lines.complete_flatten _
  have hrest : Lines.rest newline lines.flatten = [] := by
    rw [← hnew]
    exact Lines.rest_flatten _
  have hlength : start + (Lines.complete newline (s.taken path identity start)).flatten.length =
      s.offset path identity := by
    rw [Lines.flatten_complete h.whole, Inbox.taken, List.length_drop, List.length_take]
    have := h.forward
    have := h.inside
    omega
  refine ⟨h.first, hoff ▸ hlenle, ?_, ?_, entries ++ es, ?_, ?_⟩
  · rw [hoff]
    exact le_trans h.forward (Nat.le_add_right _ _)
  · rw [htaken, Lines.rest_append h.whole, hrest]
  · rw [htaken, Lines.complete_append h.whole, hcomplete]
    exact digestAll_append hentries (hlength ▸ hes)
  · exact ⟨hing'.attended.of_eq rfl rfl fun b hb => ⟨b, hb, rfl⟩, hing'.marked⟩

theorem Reading.step (h : Reading py path identity start s) (i : InboxInput) :
    Reading py path identity start (s.step py path identity i).2 := by
  cases i with
  | append bytes => exact h.append bytes
  | ingest now crashed =>
      rcases atomically_cases crashed .crashed (ingestInbox py path identity now s.file) s.ledger with
        ⟨done, l, hi, hs⟩ | ⟨e, hs⟩
      · have hstep : (s.step py path identity (.ingest now crashed)).2 = { s with ledger := l } := by
          simp [Inbox.step, hs]
        rw [hstep]
        exact h.ingest hi
      · have hstep : (s.step py path identity (.ingest now crashed)).2 = s := by
          simp [Inbox.step, hs]
        rw [hstep]
        exact h

/-- The committed offset is the end of a line. -/
theorem Reading.atLine (h : Reading py path identity start s) : AtLine s.file (s.offset path identity) := by
  refine ⟨h.inside, ?_⟩
  have hlen : (s.taken path identity start).length = s.offset path identity - start := by
    rw [Inbox.taken, List.length_drop, List.length_take]
    have := h.inside
    omega
  rcases Lines.getLast?_of_rest h.whole with hnil | hlast
  · -- nothing taken yet: the offset is the first cursor
    have hoff : s.offset path identity = start := by
      rw [hnil, List.length_nil] at hlen
      have := h.forward
      omega
    exact hoff ▸ h.first.2
  · right
    have hpos : 0 < s.offset path identity - start := by
      rw [← hlen]
      exact List.length_pos_of_ne_nil fun hnil => by simp [hnil] at hlast
    rw [List.getLast?_eq_getElem?, hlen, Inbox.taken, List.getElem?_drop,
      List.getElem?_take_of_lt (by omega)] at hlast
    rwa [show s.offset path identity - 1 = start + (s.offset path identity - start - 1) by omega]

end Runs

/-- Along every run of appends and calls, whatever raises or dies on the way. -/
theorem inbox_exactly_once {py : Python} {path identity : String} {start : Nat}
    {tr : List (InboxInput × InboxAnswer)} {s : Inbox}
    (r : Sys.Run (inboxMachine py path identity start) anyInboxInput tr s) :
    IngestLaw py path identity start s := by
  have h : Reading py path identity start s :=
    Sys.Run.invariant (I := Reading py path identity start) (fun s hs => .init hs)
      (fun s i hs _ => hs.step i) r
  refine ⟨h.atLine, h.forward, Lines.flatten_complete h.whole, h.records, ?_⟩
  intro now crashed e he
  have herr : (atomically crashed .crashed (ingestInbox py path identity now s.file) s.ledger).1 =
      .error e := by
    simpa [Inbox.step] using he
  simp [Inbox.step, atomically_error herr]

/-! ## Two servers with one name

The SHA-256 digests of `http://loca-3215636` and `http://loca-5300795` begin with the same
twelve digits. -/

def bytes (text : String) : List UInt8 := text.toList.map fun c => UInt8.ofNat c.toNat

/-- A direct message from the first server. -/
def firstLine : String :=
  "\x7b\"delivery_id\":\"den:7\",\"server\":\"http://loca-3215636\",\"room\":\"den\"," ++
  "\"priority\":\"direct_user\",\"event\":\x7b\"t\":\"msg\",\"id\":7\x7d\x7d\n"

/-- A message of the same number from the second, without a room. -/
def secondLine : String :=
  "\x7b\"delivery_id\":\"den:7\",\"server\":\"http://loca-5300795\"," ++
  "\"priority\":\"direct_user\",\"event\":\x7b\"t\":\"msg\",\"id\":7\x7d\x7d\n"

def samplePython : Python where
  loads raw :=
    let event := Json.obj [("t", .str "msg"), ("id", .int 7)]
    if raw = bytes firstLine then
      some (.obj [("delivery_id", .str "den:7"), ("server", .str "http://loca-3215636"),
        ("room", .str "den"), ("priority", .str "direct_user"), ("event", event)])
    else if raw = bytes secondLine then
      some (.obj [("delivery_id", .str "den:7"), ("server", .str "http://loca-5300795"),
        ("priority", .str "direct_user"), ("event", event)])
    else none
  render _ := ""
  toInt _ := .error "ValueError"
  sha256Hex server :=
    if server = "http://loca-3215636" then
      "0ab86667e260f757cedd7cbed8a201253a3ed50769a1e7fd1a51aa3c64b77945"
    else "0ab86667e260cf5ffcbf60e19033e1c0c27554f7ffcab5f23955f67a65b6dd7f"
  casefold text := text

abbrev sampleInbox : Sys.Machine Inbox InboxInput InboxAnswer :=
  inboxMachine samplePython "/var/inbox.jsonl" "reviewer" 0

/-- The first line comes in two pieces, with a call between them. -/
def splitLine : List InboxInput :=
  [.append ((bytes firstLine).take 20), .ingest 1 false, .append ((bytes firstLine).drop 20),
    .ingest 2 true, .ingest 3 false]

theorem emptyInbox_run (is : List InboxInput) :
    Sys.Run sampleInbox anyInboxInput (sampleInbox.exec is [] ⟨[], {}⟩).1
      (sampleInbox.exec is [] ⟨[], {}⟩).2 :=
  Sys.Run.exec is (Sys.Machine.admits_of_all (fun _ _ => trivial) _ _)
    (.nil ⟨⟨Nat.zero_le _, .inl rfl⟩, .inl ⟨rfl, rfl⟩⟩)

theorem inbox_exactly_once_sample :
    ((sampleInbox.exec splitLine [] ⟨[], {}⟩).2.ledger.attentions.map fun a =>
      (a.server, a.deliveryId, a.contextToId)) = [("http://loca-3215636", "den:7", some 7)] ∧
    IngestLaw samplePython "/var/inbox.jsonl" "reviewer" 0 (sampleInbox.exec splitLine [] ⟨[], {}⟩).2 :=
  ⟨by decide +kernel, inbox_exactly_once (emptyInbox_run splitLine)⟩

def bothLines : List InboxInput := [.append (bytes firstLine ++ bytes secondLine), .ingest 1 false]

def afterBoth : Inbox := (sampleInbox.exec bothLines [] ⟨[], {}⟩).2

/-- The second server's delivery has no attention of its own, and its id no watermark. -/
theorem servers_may_share_an_attention :
    (¬ ∀ (path identity : String) (start : Nat) (tr : List (InboxInput × InboxAnswer)) (s : Inbox),
      Sys.Run (inboxMachine samplePython path identity start) anyInboxInput tr s →
      ∀ entries, digestAll samplePython identity
        (Lines.complete newline (s.taken path identity start)) start = .ok entries →
      ∀ e ∈ entries, ∀ w, e.work = some w → ∃ a ∈ s.ledger.attentions,
        a.identity = identity ∧ a.server = e.server ∧ a.deliveryId = w.deliveryId) ∧
    ¬ ∀ (path identity : String) (start : Nat) (tr : List (InboxInput × InboxAnswer)) (s : Inbox),
      Sys.Run (inboxMachine samplePython path identity start) anyInboxInput tr s →
      ∀ entries, digestAll samplePython identity
        (Lines.complete newline (s.taken path identity start)) start = .ok entries →
      ∀ e ∈ entries, ∀ r, e.range = some r → ∃ w ∈ s.ledger.watermarks,
        w.server = e.server ∧ w.room = e.room := by
  have hrun := emptyInbox_run bothLines
  -- one evaluation of the run serves the three readings
  obtain ⟨hview, hattentions, hwatermarks⟩ : ((digestAll samplePython "reviewer" (Lines.complete newline
      (afterBoth.taken "/var/inbox.jsonl" "reviewer" 0)) 0).map fun es =>
        es.map fun e => (e.server, e.work.isSome, e.range)) =
      .ok [("http://loca-3215636", true, some (7, 7)), ("http://loca-5300795", true, some (7, 7))] ∧
      (∀ a ∈ afterBoth.ledger.attentions, a.server ≠ "http://loca-5300795") ∧
      ∀ w ∈ afterBoth.ledger.watermarks, w.server ≠ "http://loca-5300795" := by
    decide +kernel
  cases hread : digestAll samplePython "reviewer" (Lines.complete newline
      (afterBoth.taken "/var/inbox.jsonl" "reviewer" 0)) 0 with
  | error e => rw [hread] at hview; cases hview
  | ok entries =>
      rw [hread] at hview
      have hlist : (entries.map fun e => (e.server, e.work.isSome, e.range)) =
          [("http://loca-3215636", true, some (7, 7)), ("http://loca-5300795", true, some (7, 7))] :=
        Except.ok.inj hview
      have hmem : ("http://loca-5300795", true, some ((7 : Int), (7 : Int))) ∈
          entries.map fun e => (e.server, e.work.isSome, e.range) := by
        rw [hlist]
        simp
      obtain ⟨e, he, hview⟩ := List.mem_map.mp hmem
      simp only [Prod.mk.injEq] at hview
      obtain ⟨hserver, hwork, hrange⟩ := hview
      refine ⟨fun h => ?_, fun h => ?_⟩
      · obtain ⟨w, hw⟩ := Option.isSome_iff_exists.mp hwork
        obtain ⟨a, ha, -, has, -⟩ := h _ _ _ _ _ hrun entries hread e he w hw
        exact hattentions a ha (has.trans hserver)
      · obtain ⟨w, hw, hws, -⟩ := h _ _ _ _ _ hrun entries hread e he _ hrange
        exact hwatermarks w hw (hws.trans hserver)

end Loca.Adapter
