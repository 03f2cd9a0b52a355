/-
# `Loca.Wiki.History` — pages and their history

Every write of a page adds a history row at the wiki's next revision, in the transaction
that writes the page; a removal adds a row with the content that went.  So the history can
be read as the truth and the page table as its latest state: `Chronicled` says so, and
holds in every state a run reaches (`run_chronicled`).

The review cursor is tied in as well, because a page may only cite messages that the
cursor has passed.
-/
import Loca.Wiki.Machine

namespace Loca

open Check Table

/-- A history row with the content of a page. -/
def WikiHistoryRow.shows (h : WikiHistoryRow) (p : WikiPageRow) : Prop :=
  h.room = p.room ∧ h.slug = p.slug ∧ h.title = p.title ∧ h.body = p.body ∧ h.sources = p.sources

structure Chronicled (messages : List MessageRow) (t : WikiTables) : Prop where
  wikiKey : (t.wiki.map WikiRow.room).Nodup
  pageKey : (t.pages.map WikiPageRow.key).Nodup
  historyKey : (t.history.map WikiHistoryRow.key).Nodup
  /-- The two pages of a configured wiki cannot be removed. -/
  seeded : ∀ w ∈ t.wiki, ∀ slug ∈ ["overview", "working"], ∃ p ∈ t.pages, p.key = (w.room, slug)
  pageRevision : ∀ p ∈ t.pages, ∃ w ∈ t.wiki, w.room = p.room ∧ p.revision ≤ w.revision
  historyRevision : ∀ h ∈ t.history, ∃ w ∈ t.wiki, w.room = h.room ∧ h.revision ≤ w.revision
  content : ∀ p ∈ t.pages, p.revision ≠ 0 → ∃ h ∈ t.history, h.revision = p.revision ∧ h.shows p
  latest : ∀ p ∈ t.pages, ∀ h ∈ t.history, h.room = p.room → h.slug = p.slug →
    h.revision ≤ p.revision
  sources : ∀ p ∈ t.pages, ∀ src ∈ p.sources, messageExists messages p.room src = true ∧
    ∃ w ∈ t.wiki, w.room = p.room ∧ src ≤ w.reviewedThrough

theorem chronicled_empty (messages : List MessageRow) : Chronicled messages {} := by
  constructor <;> simp

theorem Chronicled.same {messages : List MessageRow} {t t' : WikiTables} (h : Chronicled messages t)
    (hw : t'.wiki = t.wiki) (hp : t'.pages = t.pages) (hh : t'.history = t.history) :
    Chronicled messages t' := by
  constructor
  · rw [hw]; exact h.wikiKey
  · rw [hp]; exact h.pageKey
  · rw [hh]; exact h.historyKey
  · rw [hw, hp]; exact h.seeded
  · rw [hw, hp]; exact h.pageRevision
  · rw [hw, hh]; exact h.historyRevision
  · rw [hp, hh]; exact h.content
  · rw [hp, hh]; exact h.latest
  · rw [hw, hp]; exact h.sources

/-- More messages, same pages. -/
theorem Chronicled.post {messages messages' : List MessageRow} {t : WikiTables}
    (h : Chronicled messages t)
    (hm : ∀ room id, messageExists messages room id = true → messageExists messages' room id = true) :
    Chronicled messages' t :=
  { h with sources := fun p hp src hs => ⟨hm _ _ (h.sources p hp src hs).1, (h.sources p hp src hs).2⟩ }

/-! ## The wiki row moves forward -/

/-- Every wiki keeps its row; revision and cursor never go back. -/
def Forward (wiki wiki' : List WikiRow) : Prop :=
  ∀ w ∈ wiki, ∃ w' ∈ wiki', w'.room = w.room ∧ w.revision ≤ w'.revision ∧
    w.reviewedThrough ≤ w'.reviewedThrough

theorem Forward.refl (wiki : List WikiRow) : Forward wiki wiki :=
  fun w hw => ⟨w, hw, rfl, Nat.le_refl _, Nat.le_refl _⟩

theorem forward_updateWhere {p : WikiRow → Bool} {f : WikiRow → WikiRow} {wiki : List WikiRow}
    (hf : ∀ w ∈ wiki, p w = true → (f w).room = w.room ∧ w.revision ≤ (f w).revision ∧
      w.reviewedThrough ≤ (f w).reviewedThrough) : Forward wiki (updateWhere p f wiki) := by
  intro w hw
  refine ⟨_, mem_updateWhere.mpr ⟨w, hw, rfl⟩, ?_⟩
  by_cases hp : p w = true
  · rw [if_pos hp]; exact hf w hw hp
  · rw [if_neg hp]; exact ⟨rfl, Nat.le_refl _, Nat.le_refl _⟩

/-- Bounds by the wiki row survive when the row moves forward. -/
theorem Forward.revision {wiki wiki' : List WikiRow} (h : Forward wiki wiki') {room : String}
    {n : Nat} (hn : ∃ w ∈ wiki, w.room = room ∧ n ≤ w.revision) :
    ∃ w ∈ wiki', w.room = room ∧ n ≤ w.revision := by
  obtain ⟨w, hw, hr, hle⟩ := hn
  obtain ⟨w', hw', hr', hle', -⟩ := h w hw
  exact ⟨w', hw', hr'.trans hr, Nat.le_trans hle hle'⟩

theorem Forward.cursor {wiki wiki' : List WikiRow} (h : Forward wiki wiki') {room : String}
    {n : Nat} (hn : ∃ w ∈ wiki, w.room = room ∧ n ≤ w.reviewedThrough) :
    ∃ w ∈ wiki', w.room = room ∧ n ≤ w.reviewedThrough := by
  obtain ⟨w, hw, hr, hle⟩ := hn
  obtain ⟨w', hw', hr', -, hle'⟩ := h w hw
  exact ⟨w', hw', hr'.trans hr, Nat.le_trans hle hle'⟩

/-! ## Configuration -/

theorem mem_seeds {room : String} {pages : List WikiPageRow} {x : WikiPageRow} :
    x ∈ insertIgnore WikiPageRow.key (seedPage room "working" "Working area")
      (insertIgnore WikiPageRow.key (seedPage room "overview" "Overview") pages) →
    x ∈ pages ∨ (∃ slug ∈ ["overview", "working"], x.key = (room, slug) ∧ x.revision = 0 ∧
      x.sources = [] ∧ ∀ p ∈ pages, p.key ≠ (room, slug)) := by
  intro hx
  rcases mem_insertIgnore.mp hx with hx | ⟨rfl, hn⟩
  · rcases mem_insertIgnore.mp hx with hx | ⟨rfl, hn⟩
    · exact .inl hx
    · exact .inr ⟨"overview", by simp, rfl, rfl, rfl, hn⟩
  · refine .inr ⟨"working", by simp, rfl, rfl, rfl, ?_⟩
    intro p hp
    exact hn p (mem_insertIgnore.mpr (.inl hp))

theorem seeds_mem {room slug : String} {pages : List WikiPageRow} (hs : slug ∈ ["overview", "working"]) :
    ∃ p ∈ insertIgnore WikiPageRow.key (seedPage room "working" "Working area")
      (insertIgnore WikiPageRow.key (seedPage room "overview" "Overview") pages),
      p.key = (room, slug) := by
  have ignore : ∀ (r : WikiPageRow) (t : List WikiPageRow),
      ∃ p ∈ insertIgnore WikiPageRow.key r t, p.key = r.key := by
    intro r t
    by_cases h : ∃ y ∈ t, y.key = r.key
    · obtain ⟨y, hy, hk⟩ := h
      exact ⟨y, mem_insertIgnore.mpr (.inl hy), hk⟩
    · exact ⟨r, mem_insertIgnore.mpr (.inr ⟨rfl, fun y hy hk => h ⟨y, hy, hk⟩⟩), rfl⟩
  simp only [List.mem_cons, List.not_mem_nil, or_false] at hs
  rcases hs with rfl | rfl
  · obtain ⟨p, hp, hk⟩ := ignore (seedPage room "overview" "Overview") pages
    exact ⟨p, mem_insertIgnore.mpr (.inl hp), hk⟩
  · exact ignore _ _

theorem Chronicled.configure {messages : List MessageRow} {room editor : String} {enabled : Bool}
    {interval : Nat} {t t' : WikiTables} {u : Unit} (h : Chronicled messages t)
    (hs : configureWiki room editor enabled interval t = .ok (u, t')) :
    Chronicled messages t' ∧ Forward t.wiki t'.wiki ∧ t'.history = t.history ∧ t.pages ⊆ t'.pages := by
  obtain ⟨-, -, -, rfl⟩ := configureWiki_ok hs
  have hfwd : Forward t.wiki (insertOrUpdate WikiRow.room
      { room, editorPrincipal := editor, enabled, intervalMessages := interval,
        revision := 0, reviewedThrough := 0, reviewedAt := none, editedAt := none }
      (fun w => { w with editorPrincipal := editor, enabled, intervalMessages := interval }) t.wiki) := by
    unfold insertOrUpdate
    split
    · exact forward_updateWhere fun w _ _ => ⟨rfl, Nat.le_refl _, Nat.le_refl _⟩
    · exact fun w hw => ⟨w, List.mem_append_left _ hw, rfl, Nat.le_refl _, Nat.le_refl _⟩
  have hrow : ∃ w ∈ insertOrUpdate WikiRow.room
      { room, editorPrincipal := editor, enabled, intervalMessages := interval,
        revision := 0, reviewedThrough := 0, reviewedAt := none, editedAt := none }
      (fun w => { w with editorPrincipal := editor, enabled, intervalMessages := interval }) t.wiki,
      w.room = room := by
    unfold insertOrUpdate
    split
    · next hk =>
      obtain ⟨w, hw, hr⟩ := hasKey_iff.mp hk
      exact ⟨_, mem_updateWhere.mpr ⟨w, hw, rfl⟩, by split <;> exact hr⟩
    · exact ⟨_, List.mem_append_right _ (List.mem_singleton.mpr rfl), rfl⟩
  have hsub : ∀ p ∈ t.pages, p ∈ insertIgnore WikiPageRow.key (seedPage room "working" "Working area")
      (insertIgnore WikiPageRow.key (seedPage room "overview" "Overview") t.pages) :=
    fun p hp => mem_insertIgnore.mpr (.inl (mem_insertIgnore.mpr (.inl hp)))
  -- a seed page is only missing when the room has no wiki, and then no history either
  have hnew : ∀ slug ∈ ["overview", "working"], (∀ p ∈ t.pages, p.key ≠ (room, slug)) →
      ∀ x ∈ t.history, x.room ≠ room := by
    intro slug hslug hmiss x hx hr
    obtain ⟨w, hw, hwr, -⟩ := h.historyRevision x hx
    obtain ⟨p, hp, hk⟩ := h.seeded w hw slug hslug
    exact hmiss p hp (by rw [hk, hwr, hr])
  refine ⟨?_, hfwd, rfl, hsub⟩
  constructor
  · exact nodup_insertOrUpdate (fun _ => rfl) h.wikiKey
  · exact nodup_insertIgnore (nodup_insertIgnore h.pageKey)
  · exact h.historyKey
  · intro w hw slug hslug
    by_cases hr : w.room = room
    · rw [hr]
      exact seeds_mem hslug
    · have hold : ∃ w₀ ∈ t.wiki, w₀.room = w.room := by
        unfold insertOrUpdate at hw
        split at hw
        · obtain ⟨w₀, hw₀, rfl⟩ := mem_updateWhere.mp hw
          exact ⟨w₀, hw₀, by split <;> rfl⟩
        · rcases List.mem_append.mp hw with hw | hw
          · exact ⟨w, hw, rfl⟩
          · rw [List.mem_singleton.mp hw] at hr
            exact absurd rfl hr
      obtain ⟨w₀, hw₀, hr₀⟩ := hold
      obtain ⟨p, hp, hk⟩ := h.seeded w₀ hw₀ slug hslug
      exact ⟨p, hsub p hp, by rw [hk, hr₀]⟩
  · intro p hp
    rcases mem_seeds hp with hp | ⟨slug, -, hk, hrev, -, -⟩
    · exact hfwd.revision (h.pageRevision p hp)
    · obtain ⟨w, hw, hr⟩ := hrow
      exact ⟨w, hw, hr.trans (congrArg Prod.fst hk).symm, by omega⟩
  · intro x hx
    exact hfwd.revision (h.historyRevision x hx)
  · intro p hp hne
    rcases mem_seeds hp with hp | ⟨slug, -, -, hrev, -, -⟩
    · exact h.content p hp hne
    · exact absurd hrev hne
  · intro p hp x hx hr hslug
    rcases mem_seeds hp with hp | ⟨slug, hs', hk, -, -, hmiss⟩
    · exact h.latest p hp x hx hr hslug
    · exact absurd (hr.trans (congrArg Prod.fst hk)) (hnew slug hs' hmiss x hx)
  · intro p hp src hsrc
    rcases mem_seeds hp with hp | ⟨slug, -, -, -, hnil, -⟩
    · exact ⟨(h.sources p hp src hsrc).1, hfwd.cursor (h.sources p hp src hsrc).2⟩
    · rw [hnil] at hsrc
      cases hsrc

/-! ## Publication -/

theorem Chronicled.publish {messages : List MessageRow} {room principal : String}
    {update : WikiCommit} {now n : Nat} {lease : Option WikiLease} {human : Bool} {w : WikiRow}
    {changed : List WikiPage} {t t' : WikiTables} (h : Chronicled messages t)
    (hw : t.row room = some w)
    (hp : Published messages room principal update now lease human w changed t n t') :
    Chronicled messages t' ∧ Forward t.wiki t'.wiki := by
  obtain ⟨hwm, hwr⟩ := WikiTables.row_some hw
  have hrow : ∀ w₀ ∈ t.wiki, w₀.room = room → w₀ = w := fun w₀ hw₀ hr =>
    eq_of_key h.wikiKey hw₀ hwm (hr.trans hwr.symm)
  have hle : w.revision ≤ n := by rw [hp.revision]; omega
  have hfwd : Forward t.wiki t'.wiki := by
    rw [hp.wiki]
    refine forward_updateWhere ?_
    intro w₀ hw₀ hr
    obtain rfl := hrow w₀ hw₀ (by simpa using hr)
    exact ⟨rfl, hle, hp.cursor⟩
  have hnew : ∃ w' ∈ t'.wiki, w'.room = room ∧ w'.revision = n ∧
      w'.reviewedThrough = update.reviewedThrough := by
    rw [hp.wiki]
    exact ⟨_, mem_updateWhere.mpr ⟨w, hwm, rfl⟩, by simp [hwr]⟩
  have hpage := hp.written.page
  have hhist : t'.history = t.history ++
      changed.map (WikiPage.toHistory room principal update.reason now n) := hp.written.history
  have hhmem : ∀ x ∈ t'.history, x ∈ t.history ∨
      ∃ p ∈ changed, x = p.toHistory room principal update.reason now n := by
    intro x hx
    rw [hhist] at hx
    rcases List.mem_append.mp hx with hx | hx
    · exact .inl hx
    · obtain ⟨p, hpm, rfl⟩ := List.mem_map.mp hx
      exact .inr ⟨p, hpm, rfl⟩
  refine ⟨?_, hfwd⟩
  constructor
  · rw [hp.wiki]
    exact nodup_updateWhere (fun _ => rfl) h.wikiKey
  · exact hp.written.pageKeys h.pageKey
  · exact hp.written.fresh h.historyKey
  · intro w' hw' slug hslug
    rw [hp.wiki] at hw'
    obtain ⟨w₀, hw₀, rfl⟩ := mem_updateWhere.mp hw'
    obtain ⟨p, hpm, hk⟩ := h.seeded w₀ hw₀ slug hslug
    have hk' : p.key = ((if decide (w₀.room = room) = true then { w₀ with
        revision := n, reviewedThrough := update.reviewedThrough,
        reviewedAt := if human = true then w₀.reviewedAt else some now,
        editedAt := if changed = [] then w₀.editedAt else some now } else w₀).room, slug) := by
      rw [hk]
      split <;> rfl
    by_cases hc : ∃ q ∈ changed, p.key = (room, q.slug)
    · obtain ⟨q, hq, hqk⟩ := hc
      exact ⟨q.toRow room n, (hpage _).mpr (.inr ⟨q, hq, rfl⟩), hqk.symm.trans hk'⟩
    · exact ⟨p, (hpage p).mpr (.inl ⟨hpm, fun q hq he => hc ⟨q, hq, he⟩⟩), hk'⟩
  · intro p hpm
    rcases (hpage p).mp hpm with ⟨hpm, -⟩ | ⟨q, -, rfl⟩
    · exact hfwd.revision (h.pageRevision p hpm)
    · obtain ⟨w', hw', hr, hn, -⟩ := hnew
      exact ⟨w', hw', hr, Nat.le_of_eq hn.symm⟩
  · intro x hx
    rcases hhmem x hx with hx | ⟨q, -, rfl⟩
    · exact hfwd.revision (h.historyRevision x hx)
    · obtain ⟨w', hw', hr, hn, -⟩ := hnew
      exact ⟨w', hw', hr, Nat.le_of_eq hn.symm⟩
  · intro p hpm hne
    rcases (hpage p).mp hpm with ⟨hpm, -⟩ | ⟨q, hq, rfl⟩
    · obtain ⟨x, hx, hsh⟩ := h.content p hpm hne
      exact ⟨x, hhist ▸ List.mem_append_left _ hx, hsh⟩
    · refine ⟨q.toHistory room principal update.reason now n, ?_, rfl, rfl, rfl, rfl, rfl, rfl⟩
      rw [hhist]
      exact List.mem_append_right _ (List.mem_map_of_mem hq)
  · intro p hpm x hx hr hslug
    rcases (hpage p).mp hpm with ⟨hpm, hkeep⟩ | ⟨q, hq, rfl⟩
    · rcases hhmem x hx with hx | ⟨q, hq, rfl⟩
      · exact h.latest p hpm x hx hr hslug
      · exact absurd (Prod.ext hr.symm hslug.symm) (hkeep q hq)
    · rcases hhmem x hx with hx | ⟨q', -, rfl⟩
      · obtain ⟨w₀, hw₀, hr₀, hle₀⟩ := h.historyRevision x hx
        obtain rfl := hrow w₀ hw₀ (hr₀.trans hr)
        exact Nat.le_trans hle₀ hle
      · exact Nat.le_refl n
  · intro p hpm src hsrc
    rcases (hpage p).mp hpm with ⟨hpm, -⟩ | ⟨q, hq, rfl⟩
    · exact ⟨(h.sources p hpm src hsrc).1, hfwd.cursor (h.sources p hpm src hsrc).2⟩
    · obtain ⟨hle, hex⟩ := hp.sources q hq src hsrc
      obtain ⟨w', hw', hr, -, hthr⟩ := hnew
      exact ⟨hex, w', hw', hr, hthr ▸ hle⟩

/-! ## Removal -/

theorem Chronicled.remove {messages : List MessageRow} {room principal slug : String}
    {removal : WikiPageRemoval} {now n : Nat} {t t' : WikiTables} (h : Chronicled messages t)
    (hs : removeWikiPage room principal slug removal now t = .ok (n, t')) :
    Chronicled messages t' ∧ Forward t.wiki t'.wiki := by
  obtain ⟨hov, hwo, w, page, hist, hw, -, rfl, hpm, hpr, hps, hh, hfresh, rfl⟩ := removeWikiPage_ok hs
  obtain ⟨hwm, hwr⟩ := WikiTables.row_some hw
  have hrow : ∀ w₀ ∈ t.wiki, w₀.room = room → w₀ = w := fun w₀ hw₀ hr =>
    eq_of_key h.wikiKey hw₀ hwm (hr.trans hwr.symm)
  have hfwd : Forward t.wiki (updateWhere (fun w => w.room = room)
      (fun w₀ => { w₀ with revision := w.revision + 1, editedAt := some now }) t.wiki) := by
    refine forward_updateWhere ?_
    intro w₀ hw₀ hr
    obtain rfl := hrow w₀ hw₀ (by simpa using hr)
    exact ⟨rfl, Nat.le_succ _, Nat.le_refl _⟩
  have hpage : ∀ p, p ∈ deleteWhere (fun p : WikiPageRow => p.room = room && p.slug = slug) t.pages ↔
      p ∈ t.pages ∧ ¬(p.room = room ∧ p.slug = slug) := by
    intro p
    simp [mem_deleteWhere]
  refine ⟨?_, hfwd⟩
  constructor
  · exact nodup_updateWhere (fun _ => rfl) h.wikiKey
  · exact nodup_deleteWhere h.pageKey
  · exact nodup_append_new h.historyKey hfresh
  · intro w' hw' sl hsl
    obtain ⟨w₀, hw₀, rfl⟩ := mem_updateWhere.mp hw'
    obtain ⟨p, hp, hk⟩ := h.seeded w₀ hw₀ sl hsl
    refine ⟨p, (hpage p).mpr ⟨hp, ?_⟩, ?_⟩
    · rintro ⟨-, hps'⟩
      have : slug = sl := hps'.symm.trans (congrArg Prod.snd hk)
      simp only [List.mem_cons, List.not_mem_nil, or_false] at hsl
      rcases hsl with rfl | rfl
      · exact hov this
      · exact hwo this
    · rw [hk]
      split <;> rfl
  · intro p hp
    exact hfwd.revision (h.pageRevision p ((hpage p).mp hp).1)
  · intro x hx
    rcases List.mem_append.mp hx with hx | hx
    · exact hfwd.revision (h.historyRevision x hx)
    · rw [List.mem_singleton.mp hx, hh]
      exact ⟨_, mem_updateWhere.mpr ⟨w, hwm, rfl⟩, by simp [hwr]⟩
  · intro p hp hne
    obtain ⟨x, hx, hsh⟩ := h.content p ((hpage p).mp hp).1 hne
    exact ⟨x, List.mem_append_left _ hx, hsh⟩
  · intro p hp x hx hr hsl
    rcases List.mem_append.mp hx with hx | hx
    · exact h.latest p ((hpage p).mp hp).1 x hx hr hsl
    · rw [List.mem_singleton.mp hx, hh] at hr hsl
      exact absurd ⟨hr.symm, hsl.symm⟩ ((hpage p).mp hp).2
  · intro p hp src hsrc
    have hold := h.sources p ((hpage p).mp hp).1 src hsrc
    exact ⟨hold.1, hfwd.cursor hold.2⟩

/-! ## Every call -/

/-- The last word of the history on a page is the content the page had. -/
def ShownLast (history : List WikiHistoryRow) (q : WikiPageRow) : Prop :=
  ∃ x ∈ history, x.shows q ∧
    ∀ y ∈ history, y.room = q.room → y.slug = q.slug → y.revision ≤ x.revision

/-- How a call moves pages and history together. -/
structure PageStep (t t' : WikiTables) : Prop where
  forward : Forward t.wiki t'.wiki
  history : t.history <+: t'.history
  /-- A new history row is about a page that is there before or after. -/
  about : ∀ x ∈ t'.history, x ∈ t.history ∨
    ∃ p, (p ∈ t.pages ∨ p ∈ t'.pages) ∧ p.key = (x.room, x.slug)
  gone : ∀ q ∈ t.pages, (∀ p ∈ t'.pages, p.key ≠ q.key) → ShownLast t'.history q

theorem PageStep.same {t t' : WikiTables} (hw : t'.wiki = t.wiki) (hp : t'.pages = t.pages)
    (hh : t'.history = t.history) : PageStep t t' :=
  ⟨hw ▸ Forward.refl _, hh ▸ List.prefix_rfl, fun _ hx => .inl (hh ▸ hx),
    fun q hq hno => absurd rfl (hno q (hp ▸ hq))⟩

theorem pageStep_publish {messages : List MessageRow} {room principal : String}
    {update : WikiCommit} {now n : Nat} {lease : Option WikiLease} {human : Bool} {w : WikiRow}
    {changed : List WikiPage} {t t' : WikiTables} (h : Chronicled messages t)
    (hw : t.row room = some w)
    (hp : Published messages room principal update now lease human w changed t n t') :
    PageStep t t' := by
  have hhist : t'.history = t.history ++
      changed.map (WikiPage.toHistory room principal update.reason now n) := hp.written.history
  refine ⟨(h.publish hw hp).2, ?_, ?_, ?_⟩
  · rw [hhist]
    exact List.prefix_append _ _
  · intro x hx
    rw [hhist] at hx
    rcases List.mem_append.mp hx with hx | hx
    · exact .inl hx
    · obtain ⟨p, hpm, rfl⟩ := List.mem_map.mp hx
      exact .inr ⟨p.toRow room n, .inr ((hp.written.page _).mpr (.inr ⟨p, hpm, rfl⟩)), rfl⟩
  · intro q hq hno
    exfalso
    by_cases hc : ∃ p ∈ changed, q.key = (room, p.slug)
    · obtain ⟨p, hpm, hk⟩ := hc
      exact hno _ ((hp.written.page _).mpr (.inr ⟨p, hpm, rfl⟩)) hk.symm
    · exact hno q ((hp.written.page q).mpr (.inl ⟨hq, fun p hpm hk => hc ⟨p, hpm, hk⟩⟩)) rfl

theorem pageStep_remove {messages : List MessageRow} {room principal slug : String}
    {removal : WikiPageRemoval} {now n : Nat} {t t' : WikiTables} (h : Chronicled messages t)
    (hs : removeWikiPage room principal slug removal now t = .ok (n, t')) : PageStep t t' := by
  have hfwd := (h.remove hs).2
  obtain ⟨-, -, w, page, hist, hw, -, rfl, hpm, hpr, hps, hh, -, rfl⟩ := removeWikiPage_ok hs
  obtain ⟨hwm, hwr⟩ := WikiTables.row_some hw
  refine ⟨hfwd, List.prefix_append _ _, ?_, ?_⟩
  · intro x hx
    rcases List.mem_append.mp hx with hx | hx
    · exact .inl hx
    · rw [List.mem_singleton.mp hx, hh]
      exact .inr ⟨page, .inl hpm, Prod.ext hpr hps⟩
  · intro q hq hno
    -- the only page that can be missing is the one removed
    have hqk : q.room = room ∧ q.slug = slug := by
      by_contra hne
      refine hno q ?_ rfl
      exact mem_deleteWhere.mpr ⟨hq, by simpa using hne⟩
    have hqp : q = page := eq_of_key h.pageKey hq hpm (Prod.ext (hqk.1.trans hpr.symm) (hqk.2.trans hps.symm))
    refine ⟨hist, List.mem_append_right _ (List.mem_singleton.mpr rfl), ?_, ?_⟩
    · rw [hh, hqp]
      exact ⟨hpr.symm, hps.symm, rfl, rfl, rfl⟩
    · intro y hy hyr _
      rcases List.mem_append.mp hy with hy | hy
      · obtain ⟨w₀, hw₀, hr₀, hle⟩ := h.historyRevision y hy
        obtain rfl := eq_of_key h.wikiKey hw₀ hwm (hr₀.trans (hyr.trans (hqk.1.trans hwr.symm)))
        rw [hh]
        exact Nat.le_succ_of_le hle
      · rw [List.mem_singleton.mp hy]

theorem Chronicled.commitChecked {messages : List MessageRow} {room principal : String}
    {update : WikiCommit} {now n : Nat} {lease : Option WikiLease} {human : Bool}
    {t t' : WikiTables} (h : Chronicled messages t)
    (hs : commitWikiChecked messages room principal update now lease human t = .ok (n, t')) :
    Chronicled messages t' ∧ PageStep t t' := by
  obtain ⟨-, w, hw, -, -, ⟨l, r, -, -, -, -, -, rfl⟩ | ⟨changed, hp, -⟩⟩ := commitWikiChecked_ok hs
  · exact ⟨h, .same rfl rfl rfl⟩
  · exact ⟨(h.publish hw hp).1, pageStep_publish h hw hp⟩

theorem Chronicled.run {messages : List MessageRow} {c : WikiCall} {a : WikiAnswer}
    {t t' : WikiTables} (h : Chronicled messages t) (hs : c.run messages t = .ok (a, t')) :
    Chronicled messages t' ∧ PageStep t t' := by
  have idle : t'.wiki = t.wiki → t'.pages = t.pages → t'.history = t.history →
      Chronicled messages t' ∧ PageStep t t' :=
    fun hw hp hh => ⟨h.same hw hp hh, .same hw hp hh⟩
  cases c with
  | configure room editor enabled interval =>
      obtain ⟨u, hc, -⟩ := answer_ok.mp hs
      obtain ⟨h₁, h₂, h₃, h₄⟩ := h.configure hc
      exact ⟨h₁, h₂, h₃ ▸ List.prefix_rfl, fun x hx => .inl (h₃ ▸ hx),
        fun q hq hno => absurd rfl (hno q (h₄ hq))⟩
  | schedule room now =>
      obtain ⟨u, hc, -⟩ := answer_ok.mp hs
      obtain ⟨-, rfl⟩ | ⟨-, w, reason, through, -, -, -, -, -, rfl⟩ := scheduleWikiReview_ok hc
      · exact idle rfl rfl rfl
      · exact idle rfl rfl rfl
  | claim room principal now =>
      obtain ⟨u, hc, -⟩ := answer_ok.mp hs
      obtain ⟨w, -, -, ⟨-, rfl | rfl⟩ | ⟨-, b, -, -, -, -, -, rfl⟩⟩ := claimWikiReview_ok hc
      · exact idle rfl rfl rfl
      · exact idle rfl rfl rfl
      · exact idle rfl rfl rfl
  | renew room principal l now =>
      obtain ⟨u, hc, -⟩ := answer_ok.mp hs
      obtain ⟨-, lease, b, -, -, -, rfl⟩ := renewWikiReview_ok hc
      exact idle rfl rfl rfl
  | finish room principal update l now =>
      obtain ⟨u, hc, -⟩ := answer_ok.mp hs
      exact h.commitChecked hc
  | commit room principal update now =>
      obtain ⟨u, hc, -⟩ := answer_ok.mp hs
      exact h.commitChecked hc
  | edit room actor slug page cursor now =>
      obtain ⟨u, hc, -⟩ := answer_ok.mp hs
      exact h.commitChecked hc
  | remove room principal slug removal now =>
      obtain ⟨u, hc, -⟩ := answer_ok.mp hs
      exact ⟨(h.remove hc).1, pageStep_remove h hc⟩
  | cancel room =>
      obtain ⟨u, hc, -⟩ := answer_ok.mp hs
      simp only [cancelWikiReview, pure_ok, Prod.mk.injEq] at hc
      obtain ⟨-, rfl⟩ := hc
      exact idle rfl rfl rfl

/-! ## Whole runs -/

theorem messageExists_append {messages : List MessageRow} {room : String} {id : Nat}
    (m : MessageRow) (h : messageExists messages room id = true) :
    messageExists (messages ++ [m]) room id = true := by
  unfold messageExists at h ⊢
  rw [List.any_append, h, Bool.true_or]

theorem mem_goneAfter {removed : List WikiPageRow} {t t' : WikiTables} {q : WikiPageRow} :
    q ∈ goneAfter removed t t' ↔ (q ∈ removed ∨ q ∈ t.pages) ∧ ∀ p ∈ t'.pages, p.key ≠ q.key := by
  simp [goneAfter, List.mem_filter, hasKey_false, or_and_right]

/-- The invariant of the whole state: the tables are chronicled, and a removed page that has
not been written again is shown last by its history. -/
def WellKept (s : WikiState) : Prop :=
  Chronicled s.messages s.tables ∧ ∀ q ∈ s.removed,
    (∀ p ∈ s.tables.pages, p.key ≠ q.key) ∧ ShownLast s.tables.history q

theorem WellKept.call {s : WikiState} {c : WikiCall} {a : WikiAnswer} {t : WikiTables}
    (h : WellKept s) (hs : c.run s.messages s.tables = .ok (a, t)) (reviews : List ReviewWindow) :
    WellKept { s with tables := t, reviews, removed := goneAfter s.removed s.tables t } := by
  obtain ⟨hc, hstep⟩ := h.1.run hs
  refine ⟨hc, ?_⟩
  intro q hq
  obtain ⟨hq, hno⟩ := mem_goneAfter.mp hq
  refine ⟨hno, ?_⟩
  rcases hq with hq | hq
  · obtain ⟨hnone, x, hx, hsh, hmax⟩ := h.2 q hq
    refine ⟨x, hstep.history.subset hx, hsh, ?_⟩
    intro y hy hr hsl
    rcases hstep.about y hy with hy | ⟨p, hp | hp, hk⟩
    · exact hmax y hy hr hsl
    · exact absurd (hk.trans (Prod.ext hr hsl)) (hnone p hp)
    · exact absurd (hk.trans (Prod.ext hr hsl)) (hno p hp)
  · exact hstep.gone q hq hno

theorem run_wellKept {ok : WikiState → WikiInput → Prop}
    {tr : List (WikiInput × Except WikiError WikiAnswer)} {s : WikiState}
    (r : Sys.Run wikiMachine ok tr s) : WellKept s := by
  refine Sys.Run.invariant ?_ ?_ r
  · rintro s ⟨-, -, ht, -, hrm⟩
    refine ⟨ht ▸ chronicled_empty _, ?_⟩
    rw [hrm]
    simp
  · intro s i h _
    show WellKept (wikiStep s i).2
    rcases wikiStep_cases s i with hs | ⟨m, -, -, hs⟩ | ⟨c, a, t, -, hrun, hs⟩
    · rw [hs]; exact h
    · rw [hs]; exact ⟨h.1.post fun _ _ => messageExists_append m, h.2⟩
    · rw [hs]; exact h.call hrun _

/-- The commit a call submits, if it is one. -/
def WikiCall.submitted : WikiCall → Option (String × WikiCommit)
  | .finish room _ update _ _ => some (room, update)
  | .commit room _ update _ => some (room, update)
  | .edit room _ slug page cursor _ => some (room, page.toCommit slug cursor)
  | _ => none

theorem commitChecked_unchanged {messages : List MessageRow} {room principal : String}
    {update : WikiCommit} {now n : Nat} {lease : Option WikiLease} {human : Bool}
    {t t' : WikiTables}
    (hs : commitWikiChecked messages room principal update now lease human t = .ok (n, t'))
    (hsame : ∀ p ∈ update.pages, storedAs (pages t room) p = true) :
    (t'.row room).map WikiRow.revision = (t.row room).map WikiRow.revision := by
  obtain ⟨-, w, hw, -, -, ⟨l, r, -, -, -, -, -, rfl⟩ | ⟨changed, hp, -⟩⟩ := commitWikiChecked_ok hs
  · rfl
  have hnil : changed = [] := by
    rw [hp.changed_eq, List.filter_eq_nil_iff]
    intro p hpm
    simp [hsame p hpm]
  have hn : n = w.revision := by simpa [hnil] using hp.revision
  have hroom := (WikiTables.row_some hw).2
  unfold WikiTables.row at hw ⊢
  rw [hp.wiki, find?_updateWhere, hw]
  · simp [hroom, hn]
  · intro w₀ _
    rfl

/-- The history law, over every run and from every state reached.  In order: what a page
shows is what its history row at that revision shows; page revisions stay within the wiki's;
one row per page and revision; sources are messages of the room, within the cursor; a removed
page is shown last by its history; history only grows, and revision and cursor never go back;
a removal is recorded as such; a commit of what is stored keeps the revision; and a call that
fails leaves the tables alone. -/
theorem wiki_history {tr : List (WikiInput × Except WikiError WikiAnswer)} {s : WikiState}
    (r : Sys.Run wikiMachine anyInput tr s) :
    (∀ p ∈ s.tables.pages, 0 < p.revision →
      ∃ x ∈ s.tables.history, x.revision = p.revision ∧ x.shows p) ∧
    (∀ p ∈ s.tables.pages, ∃ w ∈ s.tables.wiki, w.room = p.room ∧ p.revision ≤ w.revision) ∧
    (s.tables.history.map WikiHistoryRow.key).Nodup ∧
    (∀ p ∈ s.tables.pages, ∀ src ∈ p.sources, messageExists s.messages p.room src = true ∧
      ∃ w ∈ s.tables.wiki, w.room = p.room ∧ src ≤ w.reviewedThrough) ∧
    (∀ q ∈ s.removed, (∀ p ∈ s.tables.pages, p.key ≠ q.key) ∧ ShownLast s.tables.history q) ∧
    (∀ i, s.tables.history <+: (wikiStep s i).2.tables.history ∧
      Forward s.tables.wiki (wikiStep s i).2.tables.wiki) ∧
    (∀ room p slug removal now n,
      (wikiStep s (.call false (.remove room p slug removal now))).1 = .ok (.revision n) →
      ∃ q ∈ s.tables.pages, q.key = (room, slug) ∧
        q ∈ (wikiStep s (.call false (.remove room p slug removal now))).2.removed) ∧
    (∀ failed c room update, c.submitted = some (room, update) →
      (∀ p ∈ update.pages, storedAs (pages s.tables room) p = true) →
      ((wikiStep s (.call failed c)).2.tables.row room).map WikiRow.revision =
        (s.tables.row room).map WikiRow.revision) ∧
    (∀ i e, (wikiStep s i).1 = .error e → (wikiStep s i).2.tables = s.tables) := by
  have h := run_wellKept r
  refine ⟨?_, h.1.pageRevision, h.1.historyKey, h.1.sources, h.2, ?_, ?_, ?_, ?_⟩
  · intro p hp hpos
    exact h.1.content p hp (Nat.ne_of_gt hpos)
  · intro i
    rcases wikiStep_cases s i with hs | ⟨m, -, -, hs⟩ | ⟨c, a, t, -, hrun, hs⟩
    · rw [hs]; exact ⟨List.prefix_rfl, Forward.refl _⟩
    · rw [hs]; exact ⟨List.prefix_rfl, Forward.refl _⟩
    · rw [hs]; exact ⟨(h.1.run hrun).2.history, (h.1.run hrun).2.forward⟩
  · intro room p slug removal now n hok
    obtain ⟨t, hrun, hs⟩ := wikiStep_ok hok
    obtain ⟨n', hc, -⟩ := answer_ok.mp hrun
    obtain ⟨-, -, w, page, hist, -, -, -, hpm, hpr, hps, -, -, rfl⟩ := removeWikiPage_ok hc
    refine ⟨page, hpm, Prod.ext hpr hps, ?_⟩
    rw [hs]
    refine mem_goneAfter.mpr ⟨.inr hpm, ?_⟩
    intro q hq hk
    have hq' := (mem_deleteWhere.mp hq).2
    simp only [WikiPageRow.key, hpr, hps, Prod.mk.injEq] at hk
    simp [hk.1, hk.2] at hq'
  · intro failed c room update hsub hsame
    rcases wikiStep_cases s (.call failed c) with hs | ⟨m, hi, -, -⟩ | ⟨c', a, t, hi, hrun, hs⟩
    · rw [hs]
    · cases hi
    · cases hi
      rw [hs]
      cases c with
      | finish _ _ _ _ _ | commit _ _ _ _ | edit _ _ _ _ _ _ =>
          cases hsub
          obtain ⟨n, hc, -⟩ := answer_ok.mp hrun
          exact commitChecked_unchanged hc hsame
      | configure _ _ _ _ | schedule _ _ | claim _ _ _ | renew _ _ _ _ | remove _ _ _ _ _
      | cancel _ => cases hsub
  · intro i e he
    rw [wikiStep_error he]

/-- A page is written and removed. -/
def sampleRemoval : List WikiInput :=
  [.call false (.configure "a" "editor" true 1),
   .call false (.commit "a" "editor" ⟨0, 0, "first page", [⟨"design", "Design", "two rooms", [], 0⟩]⟩ 1),
   .call false (.remove "a" "editor" "design" ⟨1, "obsolete"⟩ 2)]

theorem wiki_history_sample :
    ShownLast (wikiMachine.exec sampleRemoval [] {}).2.tables.history
      ⟨"a", "design", "Design", "two rooms", [], 1⟩ :=
  ((wiki_history (run_of_inputs sampleRemoval)).2.2.2.2.1 _ (by decide)).2

end Loca
