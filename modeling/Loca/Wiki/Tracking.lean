/-
# `Loca.Wiki.Tracking` — what the model holds, and what the context believes it holds

The model is no part of the code.  It is what reads the packets: in the order in which they
are acknowledged, a bootstrap sets a page, a delta replaces the stated lines of the page it
has, a removal forgets it, and a reset forgets everything (`held`, from the calls and answers
alone).

`page_context_tracks`: in every run, a page that the context counts as injected is the model's
page, and whatever packet can still be acknowledged leads from the page that the model holds
now.  It rests on one fact per page and offer (`Carries`), which no later call disturbs as long
as the offer is the latest one of its page: only an acknowledgement of that very offer changes
the page, and what is evicted is only forgotten here.
-/
import Loca.Base.Run
import Loca.Wiki.Context
import Mathlib.Data.List.Dedup
import Mathlib.Data.List.Forall2

namespace Loca

open Check

/-! ## The reader of the packets -/

/-- The body with the stated lines replaced. -/
def patched (sections : List PageSection) (body : String) : String :=
  String.ofList (Script.patch 0 (bodyLines body)
    (sections.map fun s => ⟨s.startLine, s.endLine, s.inserted.toList⟩))

/-- What becomes of a page; a delta of nothing is nothing. -/
def PageChange.apply : PageChange → Option WikiPage → Option WikiPage
  | bootstrap page _, _ => some page
  | delta d, some base => some ⟨d.slug, d.title, patched d.sections base.body, d.sources, d.revision⟩
  | delta _, none => none
  | removed _ _ _ _, _ => none

def applyChange (pages : String → Option WikiPage) (change : PageChange) : String → Option WikiPage :=
  Function.update pages change.slug (change.apply (pages change.slug))

inductive ContextCall
  | prepare (snapshot : ContextSnapshot) (slugs : List String) (maxChars : Int)
  | acknowledge (packetId room contextId : String)
  | reset (contextId : String)

inductive ContextAnswer
  | prepared (result : Except ContextError (Option PageOffer))
  | acknowledged (accepted : Bool)
  | reset

def contextStep (t : ContextTools) (c : WikiPageContext) : ContextCall → ContextAnswer × WikiPageContext
  | .prepare snapshot slugs maxChars =>
      let out := c.prepare t snapshot slugs maxChars
      (.prepared out.1, out.2)
  | .acknowledge packetId room contextId =>
      let out := c.acknowledgeInjection packetId room contextId
      (.acknowledged out.1, out.2)
  | .reset contextId => (.reset, c.reset contextId)

def contextMachine (t : ContextTools) : Sys.Machine WikiPageContext ContextCall ContextAnswer where
  init c := ∃ room contextId maxPages, WikiPageContext.new room contextId maxPages = some c
  step := contextStep t

/-- The packet that was offered last under an id; the trace stands latest first. -/
def offeredAs (id : String) : List (ContextCall × ContextAnswer) → Option ContextPacket
  | [] => none
  | (_, .prepared (.ok (some o))) :: tr => if o.packetId = id then some o.packet else offeredAs id tr
  | _ :: tr => offeredAs id tr

/-- The pages of a model that applies what is acknowledged. -/
def held : List (ContextCall × ContextAnswer) → String → Option WikiPage
  | [] => fun _ => none
  | (.acknowledge id _ _, .acknowledged true) :: tr =>
      match offeredAs id tr with
      | some packet => packet.pages.foldl applyChange (held tr)
      | none => held tr
  | (.reset _, _) :: _ => fun _ => none
  | _ :: tr => held tr

/-! ## One page of one offer -/

/-- The base that a change names. -/
def PageChange.baseHash : PageChange → Option String
  | bootstrap _ _ => none
  | delta d => some d.baseHash
  | removed _ _ _ h => some h

/-- The change leads from the page held to the page offered. -/
structure Carries (t : ContextTools) (before : Option WikiPage) (change : PageChange)
    (page : Option WikiPage) : Prop where
  applies : change.apply before = page
  based : ∀ h, change.baseHash = some h → ∃ base, before = some base ∧ h = t.digest base

/-- `difflib`'s opcodes transform the old lines into the new ones. -/
def ContextTools.Transform (t : ContextTools) : Prop :=
  ∀ old new : List (List Char), Script.Transforms old new 0 0 (t.opcodes old new)

theorem keepLines_flatten (line rest : List Char) : (keepLines line rest).flatten = line ++ rest := by
  fun_induction keepLines line rest with
  | case1 line h => simp [List.isEmpty_iff.mp h]
  | case2 line h => simp
  | case3 line rest ih => simp [ih]
  | case4 line c rest hc hbreak ih => simp [ih]
  | case5 line c rest hc hbreak ih => simp [ih]

/-- A delta made from the page held leads to the new body. -/
theorem patched_pageSections {t : ContextTools} (ht : t.Transform) (old new : String) :
    patched (pageSections t (bodyLines old) (bodyLines new)) old = new := by
  have hsections : (pageSections t (bodyLines old) (bodyLines new)).map
      (fun s => (⟨s.startLine, s.endLine, s.inserted.toList⟩ : Script.Section Char)) =
        Script.sections (bodyLines new) (t.opcodes (bodyLines old) (bodyLines new)) := by
    simp [pageSections, Script.sections, Script.Opcode.section]
  unfold patched
  rw [hsections, Script.patch_whole (ht _ _)]
  unfold bodyLines
  rw [keepLines_flatten, List.nil_append, String.ofList_toList]

/-! ## What an offer is made of -/

section Offers

variable {t : ContextTools} {c : WikiPageContext} {s : ContextSnapshot}

theorem indexed_slug {slug : String} {raw : SnapshotPage} (h : s.indexed slug = some raw) :
    raw.slug = slug := by
  have hmem := List.mem_of_getLast? h
  simpa using (List.mem_filter.mp hmem).2

theorem checked_slug {raw : SnapshotPage} {page : WikiPage} (h : raw.checked = .ok page) :
    page.slug = raw.slug := by
  unfold SnapshotPage.checked at h
  split at h
  · simp only [bind_ok, require_ok, pure_ok] at h
    obtain ⟨⟨⟩, -, rfl⟩ := h
    rfl
  · cases h

/-- A change that is offered leads from the page the context has. -/
theorem offerOf_leads (ht : t.Transform) {slug : String} {x : PageChange × Option WikiPage}
    (h : c.offerOf t s slug = .ok (some x)) :
    x.1.slug = slug ∧ ∀ before, (∀ p, c.injectedPages.get slug = some p → before = some p) →
      Carries t before x.1 x.2 := by
  unfold WikiPageContext.offerOf at h
  cases hraw : s.indexed slug with
  | none =>
      rw [hraw] at h
      cases hprev : c.injectedPages.get slug with
      | none =>
          rw [hprev] at h
          cases h
      | some previous =>
          rw [hprev] at h
          simp only [bind_ok, require_ok, pure_ok] at h
          obtain ⟨⟨⟩, -, hx⟩ := h
          obtain rfl := Option.some.inj hx
          refine ⟨rfl, fun before hb => ⟨rfl, fun hash hh => ⟨previous, hb _ rfl, ?_⟩⟩⟩
          exact (Option.some.inj hh).symm
  | some raw =>
      rw [hraw] at h
      simp only [bind_ok] at h
      obtain ⟨page, hpage, h⟩ := h
      have hslug : page.slug = slug := (checked_slug hpage).trans (indexed_slug hraw)
      cases hprev : c.injectedPages.get slug with
      | none =>
          rw [hprev] at h
          obtain rfl := Option.some.inj (pure_ok.mp h)
          exact ⟨hslug, fun before _ => ⟨rfl, fun hash hh => by cases hh⟩⟩
      | some previous =>
          rw [hprev] at h
          simp only [bind_ok, require_ok] at h
          obtain ⟨⟨⟩, -, h⟩ := h
          split at h
          · simp only [bind_ok, require_ok, pure_ok] at h
            obtain ⟨⟨⟩, -, hx⟩ := h
            cases hx
          · obtain rfl := Option.some.inj (pure_ok.mp h)
            refine ⟨hslug, fun before hb => ⟨?_, fun hash hh => ⟨previous, hb _ rfl, ?_⟩⟩⟩
            · rw [hb _ rfl]
              have hbody : patched (WikiPageContext.pageDelta t previous page).sections previous.body =
                  page.body := patched_pageSections ht _ _
              show some (WikiPage.mk _ _ (patched _ _) _ _) = some page
              rw [hbody]
              rfl
            · exact (Option.some.inj hh).symm

theorem offers_spec {slugs : List String} {found : List (PageChange × Option WikiPage)}
    (h : c.offers t s slugs = .ok found) :
    (∀ x ∈ found, ∃ slug, c.offerOf t s slug = .ok (some x)) ∧
      ((∀ x slug, c.offerOf t s slug = .ok (some x) → x.1.slug = slug) →
        (found.map fun x => x.1.slug).Sublist slugs) := by
  unfold WikiPageContext.offers at h
  simp only [bind_ok, pure_ok] at h
  obtain ⟨all, hall, rfl⟩ := h
  induction slugs generalizing all with
  | nil =>
      rw [List.mapM_nil] at hall
      obtain rfl := pure_ok.mp hall
      exact ⟨fun x hx => (by cases hx), fun _ => List.Sublist.refl _⟩
  | cons slug slugs ih =>
      rw [List.mapM_cons] at hall
      simp only [bind_ok, pure_ok] at hall
      obtain ⟨first, hfirst, others, hothers, rfl⟩ := hall
      obtain ⟨hmem, hsub⟩ := ih others hothers
      cases first with
      | none => exact ⟨hmem, fun hslug => (hsub hslug).cons slug⟩
      | some x =>
          constructor
          · intro y hy
            rcases List.mem_cons.mp hy with rfl | hy
            · exact ⟨slug, hfirst⟩
            · exact hmem y hy
          · intro hslug
            have hx := hslug x slug hfirst
            show List.Sublist (x.1.slug :: _) _
            rw [hx]
            exact (hsub hslug).cons_cons slug

/-- A packet and its pages, change by change. -/
def Matches (P : String → PageChange → Option WikiPage → Prop) (changes : List PageChange)
    (pages : List (String × Option WikiPage)) : Prop :=
  List.Forall₂ (fun change x => change.slug = x.1 ∧ P x.1 change x.2) changes pages

theorem draft_spec (ht : t.Transform) {slugs : List String} {maxChars : Int} {o : PageOffer}
    {offered : List (String × Option WikiPage)}
    (h : c.draft t s slugs maxChars = .ok (some (o, offered))) :
    (offered.map Prod.fst).Nodup ∧ ∀ before : String → Option WikiPage,
      (∀ slug p, c.injectedPages.get slug = some p → before slug = some p) →
      Matches (fun slug change page => Carries t (before slug) change page) o.packet.pages offered := by
  unfold WikiPageContext.draft at h
  simp only [bind_ok, require_ok] at h
  obtain ⟨⟨⟩, -, ⟨⟩, -, ⟨⟩, -, ⟨⟩, -, found, hfound, h⟩ := h
  split at h
  · cases pure_ok.mp h
  · simp only [bind_ok, require_ok, pure_ok] at h
    obtain ⟨⟨⟩, -, ⟨⟩, -, ho⟩ := h
    obtain ⟨rfl, rfl⟩ := Prod.mk.inj (Option.some.inj ho)
    obtain ⟨hmem, hsub⟩ := offers_spec hfound
    constructor
    · have hnodup : (found.map fun x => x.1.slug).Nodup :=
        (List.nodup_reverse.mpr (List.nodup_dedup _)).sublist
          (hsub fun x slug hx => (offerOf_leads ht hx).1)
      simpa [List.map_map, Function.comp_def] using hnodup
    · intro before hb
      unfold Matches
      rw [List.forall₂_map_left_iff, List.forall₂_map_right_iff, List.forall₂_same]
      intro x hx
      obtain ⟨slug, hslug⟩ := hmem x hx
      obtain ⟨rfl, hleads⟩ := offerOf_leads ht hslug
      exact ⟨rfl, hleads _ fun p hp => hb _ p hp⟩

end Offers

/-! ## Writing the pages of an offer -/

/-- The pages of an offer, one after the other. -/
def writes (f : String → Option WikiPage) (pages : List (String × Option WikiPage)) :
    String → Option WikiPage :=
  pages.foldl (fun f x => Function.update f x.1 x.2) f

theorem writes_other {pages : List (String × Option WikiPage)} {slug : String}
    (h : slug ∉ pages.map Prod.fst) (f : String → Option WikiPage) : writes f pages slug = f slug := by
  induction pages generalizing f with
  | nil => rfl
  | cons x pages ih =>
      rw [List.map_cons, List.mem_cons, not_or] at h
      exact (ih h.2 _).trans (Function.update_of_ne h.1 _ _)

/-- What one holder has the other has, before and after. -/
theorem writes_mono {f g : String → Option WikiPage} (h : ∀ slug p, f slug = some p → g slug = some p)
    (pages : List (String × Option WikiPage)) :
    ∀ slug p, writes f pages slug = some p → writes g pages slug = some p := by
  induction pages generalizing f g with
  | nil => exact h
  | cons x pages ih =>
      refine ih fun slug p hp => ?_
      dsimp only at hp ⊢
      by_cases hs : slug = x.1
      · subst hs
        rw [Function.update_self] at hp ⊢
        exact hp
      · rw [Function.update_of_ne hs] at hp ⊢
        exact h slug p hp

theorem get_inject (pages : List (String × Option WikiPage)) (m : Assoc String WikiPage) (slug : String) :
    (pages.foldl WikiPageContext.inject m).get slug = writes (fun s => m.get s) pages slug := by
  induction pages generalizing m with
  | nil => rfl
  | cons x pages ih =>
      have hone : (fun s => (WikiPageContext.inject m x).get s) =
          Function.update (fun s => m.get s) x.1 x.2 := by
        funext s
        unfold WikiPageContext.inject
        by_cases hs : s = x.1
        · subst hs
          rw [Function.update_self]
          cases x.2 with
          | some page => exact Assoc.get_put_self _ _ _
          | none => exact (Assoc.get_del _ _ _).trans (if_pos rfl)
        · rw [Function.update_of_ne hs]
          cases x.2 with
          | some page => rw [Assoc.get_put_ne hs, Assoc.get_del, if_neg hs]
          | none => rw [Assoc.get_del, if_neg hs]
      rw [List.foldl_cons, ih, hone]
      rfl

theorem get_dropOldest {n : Nat} {m : Assoc String WikiPage} {slug : String} {p : WikiPage}
    (h : (WikiPageContext.dropOldest n m).get slug = some p) : m.get slug = some p := by
  induction n generalizing m with
  | zero => exact h
  | succ n ih =>
      have hone := ih h
      split at hone
      · rw [Assoc.get_del] at hone
        split at hone
        · cases hone
        · exact hone
      · exact hone

theorem Matches.imp {P Q : String → PageChange → Option WikiPage → Prop} {changes : List PageChange}
    {pages : List (String × Option WikiPage)} (h : Matches P changes pages)
    (hpq : ∀ change, ∀ x ∈ pages, P x.1 change x.2 → Q x.1 change x.2) : Matches Q changes pages := by
  induction h with
  | nil => exact .nil
  | cons hx _ ih =>
      exact .cons ⟨hx.1, hpq _ _ List.mem_cons_self hx.2⟩
        (ih fun change x hm => hpq change x (List.mem_cons_of_mem _ hm))

theorem Matches.of_mem {P : String → PageChange → Option WikiPage → Prop} {changes : List PageChange}
    {pages : List (String × Option WikiPage)} (h : Matches P changes pages) {change : PageChange}
    (hc : change ∈ changes) : ∃ x ∈ pages, change.slug = x.1 ∧ P x.1 change x.2 := by
  induction h with
  | nil => cases hc
  | cons hx _ ih =>
      rcases List.mem_cons.mp hc with rfl | hc
      · exact ⟨_, List.mem_cons_self, hx⟩
      · obtain ⟨x, hm, hp⟩ := ih hc
        exact ⟨x, List.mem_cons_of_mem _ hm, hp⟩

/-- A model that applies the changes has the pages offered. -/
theorem foldl_applyChange {t : ContextTools} {changes : List PageChange}
    {pages : List (String × Option WikiPage)} {f : String → Option WikiPage}
    (h : Matches (fun slug change page => Carries t (f slug) change page) changes pages)
    (hnodup : (pages.map Prod.fst).Nodup) : changes.foldl applyChange f = writes f pages := by
  induction pages generalizing changes f with
  | nil =>
      cases h
      rfl
  | cons x pages ih =>
      cases h with
      | @cons change _ changes _ hx hrest =>
          obtain ⟨hslug, hleads⟩ := hx
          rw [List.map_cons, List.nodup_cons] at hnodup
          have hone : applyChange f change = Function.update f x.1 x.2 := by
            unfold applyChange
            rw [hslug, hleads.applies]
          rw [List.foldl_cons, hone]
          -- the other slugs are others
          have hothers : Matches (fun slug change page => Carries t (f slug) change page) changes pages :=
            hrest
          refine ih (hothers.imp fun change y hy hl => ?_) hnodup.2
          have hne : y.1 ≠ x.1 := fun he => hnodup.1 (he ▸ List.mem_map_of_mem hy)
          rw [Function.update_of_ne hne]
          exact hl

/-! ## The invariant -/

/-- Pages in and offers out, as the model has them. -/
structure Tracks (t : ContextTools) (tr : List (ContextCall × ContextAnswer)) (c : WikiPageContext) :
    Prop where
  injected : ∀ slug p, c.injectedPages.get slug = some p → held tr slug = some p
  pending : ∀ id pages, c.pending.get id = some pages → (pages.map Prod.fst).Nodup ∧
    ∃ packet, offeredAs id tr = some packet ∧
      Matches (fun slug change page => c.latest.get slug = some id → Carries t (held tr slug) change page)
        packet.pages pages

section Steps

variable {t : ContextTools} {c : WikiPageContext} {tr : List (ContextCall × ContextAnswer)}

theorem get_latest (offered : List (String × Option WikiPage)) (id slug : String) (m : Assoc String String) :
    (offered.foldl (fun m x => m.put x.1 id) m).get slug =
      if slug ∈ offered.map Prod.fst then some id else m.get slug := by
  induction offered generalizing m with
  | nil => rfl
  | cons x offered ih =>
      rw [List.foldl_cons, ih, Assoc.get_put]
      by_cases h : slug ∈ offered.map Prod.fst
      · simp [h]
      · simp [h]

/-- An offer that is kept is the latest of its pages, and disturbs no other. -/
theorem Tracks.keep (h : Tracks t tr c) {o : PageOffer} {offered : List (String × Option WikiPage)}
    (hnodup : (offered.map Prod.fst).Nodup) (call : ContextCall)
    (hleads : Matches (fun slug change page => Carries t (held tr slug) change page) o.packet.pages offered)
    (hcall : ∀ id room contextId, call ≠ .acknowledge id room contextId)
    (hreset : ∀ contextId, call ≠ .reset contextId) :
    Tracks t ((call, .prepared (.ok (some o))) :: tr) (c.keepOffer o.packetId offered) := by
  have hheld : held ((call, .prepared (.ok (some o))) :: tr) = held tr := by
    cases call with
    | prepare => rfl
    | acknowledge id room contextId => exact absurd rfl (hcall _ _ _)
    | reset contextId => exact absurd rfl (hreset _)
  refine ⟨fun slug p hp => ?_, fun id pages hpages => ?_⟩
  · rw [hheld]
    exact h.injected slug p hp
  · rw [hheld]
    unfold WikiPageContext.keepOffer at hpages ⊢
    dsimp only at hpages ⊢
    rw [Assoc.get_retain, Option.filter_eq_some_iff, Assoc.get_put] at hpages
    obtain ⟨hpages, -⟩ := hpages
    by_cases hid : id = o.packetId
    · subst hid
      rw [if_pos rfl] at hpages
      obtain rfl := Option.some.inj hpages
      refine ⟨hnodup, o.packet, by simp [offeredAs], hleads.imp fun change x _ hl _ => hl⟩
    · rw [if_neg hid] at hpages
      obtain ⟨hn, packet, hpacket, hmatch⟩ := h.pending id pages hpages
      refine ⟨hn, packet, ?_, hmatch.imp fun change x _ hl hlatest => hl ?_⟩
      · rw [← hpacket]
        simp [offeredAs, Ne.symm hid]
      · rw [get_latest] at hlatest
        split at hlatest
        · exact absurd (Option.some.inj hlatest).symm hid
        · exact hlatest

/-- A call that leaves the context and the model alone. -/
theorem Tracks.still (h : Tracks t tr c) {e : ContextCall × ContextAnswer}
    (hheld : held (e :: tr) = held tr) (hoffered : ∀ id, offeredAs id (e :: tr) = offeredAs id tr) :
    Tracks t (e :: tr) c := by
  refine ⟨fun slug p hp => hheld ▸ h.injected slug p hp, fun id pages hpages => ?_⟩
  rw [hheld, hoffered]
  exact h.pending id pages hpages

theorem Tracks.prepare (ht : t.Transform) (h : Tracks t tr c) (s : ContextSnapshot) (slugs : List String)
    (maxChars : Int) :
    Tracks t ((.prepare s slugs maxChars, .prepared (c.prepare t s slugs maxChars).1) :: tr)
      (c.prepare t s slugs maxChars).2 := by
  unfold WikiPageContext.prepare
  cases hd : c.draft t s slugs maxChars with
  | error e => exact h.still rfl fun _ => rfl
  | ok out =>
      cases out with
      | none => exact h.still rfl fun _ => rfl
      | some x =>
          obtain ⟨o, offered⟩ := x
          obtain ⟨hnodup, hleads⟩ := draft_spec ht hd
          exact h.keep hnodup _ (hleads (held tr) h.injected) (fun _ _ _ => nofun) fun _ => nofun

theorem Tracks.acknowledge (h : Tracks t tr c) (packetId room contextId : String) :
    Tracks t ((.acknowledge packetId room contextId,
      .acknowledged (c.acknowledgeInjection packetId room contextId).1) :: tr)
      (c.acknowledgeInjection packetId room contextId).2 := by
  have hrefused : Tracks t ((.acknowledge packetId room contextId, .acknowledged false) :: tr) c :=
    h.still rfl fun _ => rfl
  unfold WikiPageContext.acknowledgeInjection
  split
  · exact hrefused
  · cases hpages : c.pending.get packetId with
    | none => exact hrefused
    | some pages =>
        dsimp only
        split
        · exact hrefused
        · next hall =>
          obtain ⟨hnodup, packet, hpacket, hmatch⟩ := h.pending packetId pages hpages
          have hlatest : ∀ x ∈ pages, c.latest.get x.1 = some packetId := by
            simpa using hall
          have hheld : held ((.acknowledge packetId room contextId, .acknowledged true) :: tr) =
              writes (held tr) pages := by
            show (match offeredAs packetId tr with
              | some packet => packet.pages.foldl applyChange (held tr)
              | none => held tr) = _
            rw [hpacket]
            exact foldl_applyChange (hmatch.imp fun change x hx hl => hl (hlatest x hx)) hnodup
          refine ⟨fun slug p hp => ?_, fun id other hother => ?_⟩
          · rw [hheld]
            have hget := get_dropOldest hp
            rw [get_inject] at hget
            exact writes_mono h.injected pages slug p hget
          · dsimp only at hother
            rw [Assoc.get_del] at hother
            split at hother
            · cases hother
            · next hid =>
              obtain ⟨hn, packet', hpacket', hmatch'⟩ := h.pending id other hother
              refine ⟨hn, packet', hpacket', hmatch'.imp fun change x _ hl hx => ?_⟩
              rw [Assoc.get_foldl_del] at hx
              split at hx
              · cases hx
              · next hnot =>
                rw [hheld, writes_other hnot]
                exact hl hx

theorem Tracks.reset (contextId : String) :
    Tracks t ((.reset contextId, .reset) :: tr) (c.reset contextId) :=
  ⟨fun slug p hp => (by cases hp), fun id pages hpages => (by cases hpages)⟩

theorem step_tracks (ht : t.Transform) (h : Tracks t tr c) (call : ContextCall) :
    Tracks t ((call, (contextStep t c call).1) :: tr) (contextStep t c call).2 := by
  cases call with
  | prepare s slugs maxChars => exact h.prepare ht s slugs maxChars
  | acknowledge packetId room contextId => exact h.acknowledge packetId room contextId
  | reset contextId => exact Tracks.reset contextId

end Steps

/-! ## Every run -/

theorem run_tracks {t : ContextTools} (ht : t.Transform) {ok : WikiPageContext → ContextCall → Prop}
    {tr : List (ContextCall × ContextAnswer)} {c : WikiPageContext} (r : Sys.Run (contextMachine t) ok tr c) :
    Tracks t tr c := by
  induction r with
  | nil hinit =>
      obtain ⟨room, contextId, maxPages, hnew⟩ := hinit
      unfold WikiPageContext.new at hnew
      split at hnew
      · obtain rfl := Option.some.inj hnew
        exact ⟨fun slug p hp => (by cases hp), fun id pages hpages => (by cases hpages)⟩
      · cases hnew
  | snoc call _ _ ih => exact step_tracks ht ih call

/-- A packet that can still be acknowledged. -/
def WikiPageContext.CanAcknowledge (c : WikiPageContext) (packetId : String) : Prop :=
  ∃ room contextId, (c.acknowledgeInjection packetId room contextId).1 = true

theorem canAcknowledge_pages {c : WikiPageContext} {packetId : String} (h : c.CanAcknowledge packetId) :
    ∃ pages, c.pending.get packetId = some pages ∧ ∀ x ∈ pages, c.latest.get x.1 = some packetId := by
  obtain ⟨room, contextId, h⟩ := h
  unfold WikiPageContext.acknowledgeInjection at h
  split at h
  · cases h
  · cases hpages : c.pending.get packetId with
    | none =>
        rw [hpages] at h
        cases h
    | some pages =>
        rw [hpages] at h
        dsimp only at h
        split at h
        · cases h
        · next hall => exact ⟨pages, rfl, by simpa using hall⟩

/-- A delta that leads from the page held to the page offered. -/
def DeltaFits (t : ContextTools) (before : Option WikiPage) (d : PageDelta) (offered : Option WikiPage) :
    Prop :=
  ∃ base page, before = some base ∧ offered = some page ∧ d.baseHash = t.digest base ∧
    patched d.sections base.body = page.body ∧
    d.title = page.title ∧ d.sources = page.sources ∧ d.revision = page.revision

theorem Carries.deltaFits {t : ContextTools} {before offered : Option WikiPage} {d : PageDelta}
    (h : Carries t before (.delta d) offered) : DeltaFits t before d offered := by
  obtain ⟨base, rfl, hhash⟩ := h.based _ rfl
  exact ⟨base, _, rfl, h.applies.symm, hhash, rfl, rfl, rfl, rfl⟩

/-- In every run: what is injected is what the model holds; a packet that can still be
acknowledged leads from what the model holds to the pages offered; and a call of `prepare` that
raises or offers nothing changes nothing. -/
theorem page_context_tracks {t : ContextTools} (ht : t.Transform)
    {tr : List (ContextCall × ContextAnswer)} {c : WikiPageContext}
    (r : Sys.Run (contextMachine t) (fun _ _ => True) tr c) :
    (∀ slug p, c.injectedPages.get slug = some p → held tr slug = some p) ∧
      (∀ id, c.CanAcknowledge id → ∃ packet pages, offeredAs id tr = some packet ∧
        c.pending.get id = some pages ∧ ∀ d, .delta d ∈ packet.pages →
          ∃ offered, (d.slug, offered) ∈ pages ∧ DeltaFits t (held tr d.slug) d offered) ∧
      ∀ s slugs maxChars, (∀ o, (c.prepare t s slugs maxChars).1 ≠ .ok (some o)) →
        (c.prepare t s slugs maxChars).2 = c := by
  have h := run_tracks ht r
  refine ⟨h.injected, fun id hcan => ?_, fun s slugs maxChars hnone => ?_⟩
  · obtain ⟨pages, hpages, hlatest⟩ := canAcknowledge_pages hcan
    obtain ⟨-, packet, hpacket, hmatch⟩ := h.pending id pages hpages
    refine ⟨packet, pages, hpacket, hpages, fun d hd => ?_⟩
    obtain ⟨⟨slug, offered⟩, hx, hslug, hl⟩ := hmatch.of_mem hd
    obtain rfl : d.slug = slug := hslug
    exact ⟨offered, hx, (hl (hlatest _ hx)).deltaFits⟩
  · unfold WikiPageContext.prepare at hnone ⊢
    split
    · rfl
    · rfl
    · next offer offered hd =>
      rw [hd] at hnone
      exact absurd rfl (hnone offer)

/-! ## A run -/

def deployPage (revision : Nat) (body : String) : WikiPage := ⟨"deploy", "Deploy", body, [1], revision⟩

def deploySnapshot (revision : Nat) (body : String) : ContextSnapshot :=
  ⟨some "a", revision, [⟨"deploy", "Deploy", body, [1], some revision⟩], []⟩

def oldRule : String := "old rule\nunchanged\n"

def newRule : String := "new rule\nunchanged\n"

/-- The digests of the texts of this run, which a few characters tell apart, and its one comparison. -/
def deployTools : ContextTools where
  sha256 text :=
    if text[2]? = some 'b' then
      if text[10]? = some 'o' then "c1977a4e4e1e278de1fbfbc8890a899db16cfe2d3795ca68b2342d858e18e9d3"
      else "f6573e7a44bedbc182f2ee87b197c26d715c5308261e66c9984a3289346224da"
    else if text[58]? = some 'o' then
      "cd2c0d9462b30b0b7f9a292d7f00e204872eea6dd90f6ded35abdf37cfd7046c"
    else "eae672f9ac03ed769c39abe2fe4def66f016712b32e26ed2d0454a8966fa43bf"
  opcodes old new :=
    if old = bodyLines oldRule ∧ new = bodyLines newRule then
      [⟨.replace, 0, 1, 0, 1⟩, ⟨.equal, 1, 2, 1, 2⟩]
    else [⟨.replace, 0, old.length, 0, new.length⟩]

theorem deployTools_transform : deployTools.Transform := by
  intro old new
  show Script.Transforms old new 0 0 (if _ then _ else _)
  split
  · next h =>
    obtain ⟨rfl, rfl⟩ := h
    refine .cons (o := ⟨.replace, 0, 1, 0, 1⟩) (by decide) (by decide) (by decide) ?_
    refine .cons (o := ⟨.equal, 1, 2, 1, 2⟩) (by decide) (by decide) (fun _ => by decide) ?_
    exact .nil
  · exact .cons (o := ⟨.replace, 0, old.length, 0, new.length⟩) (Nat.zero_le _) (Nat.zero_le _)
      (fun h => by cases h) .nil

def deployCalls : List ContextCall :=
  [.prepare (deploySnapshot 1 oldRule) ["deploy"] 8000,
    .acknowledge "cd2c0d9462b30b0b7f9a292d7f00e204872eea6dd90f6ded35abdf37cfd7046c" "a" "t",
    .prepare (deploySnapshot 2 newRule) ["deploy"] 8000]

def deployContext : WikiPageContext := ⟨"a", "t", 64, ∅, ∅, ∅, 0⟩

/-- The state after the calls, and what was answered. -/
def deployRun : List (ContextCall × ContextAnswer) × WikiPageContext :=
  (contextMachine deployTools).exec deployCalls [] deployContext

theorem deployRun_run :
    Sys.Run (contextMachine deployTools) (fun _ _ => True) deployRun.1 deployRun.2 := by
  have hinit : (contextMachine deployTools).init deployContext := ⟨"a", "t", 64, rfl⟩
  have hstart : Sys.Run (contextMachine deployTools) (fun _ _ => True) [] deployContext := .nil hinit
  exact Sys.Run.exec deployCalls (Sys.Machine.admits_of_all (fun _ _ => trivial) _ _) hstart

/-- The packet of the second snapshot. -/
def deployDelta : String := "eae672f9ac03ed769c39abe2fe4def66f016712b32e26ed2d0454a8966fa43bf"

theorem deploy_tracks :
    held deployRun.1 "deploy" = some (deployPage 1 oldRule) ∧
      ∃ packet pages, offeredAs deployDelta deployRun.1 = some packet ∧
        deployRun.2.pending.get deployDelta = some pages ∧
        packet.pages.length = 1 ∧ ∀ d, .delta d ∈ packet.pages →
          ∃ offered, (d.slug, offered) ∈ pages ∧
            DeltaFits deployTools (held deployRun.1 d.slug) d offered := by
  obtain ⟨hpage, hone, hcan⟩ : deployRun.2.injectedPages.get "deploy" = some (deployPage 1 oldRule) ∧
      (offeredAs deployDelta deployRun.1).map (fun p => p.pages.length) = some 1 ∧
      (deployRun.2.acknowledgeInjection deployDelta "a" "t").1 = true := by
    decide +kernel
  obtain ⟨hinjected, hpending, -⟩ := page_context_tracks deployTools_transform deployRun_run
  obtain ⟨packet, pages, hpacket, hpages, hdelta⟩ := hpending deployDelta ⟨"a", "t", hcan⟩
  rw [hpacket] at hone
  exact ⟨hinjected "deploy" _ hpage, packet, pages, hpacket, hpages, Option.some.inj hone, hdelta⟩

end Loca
