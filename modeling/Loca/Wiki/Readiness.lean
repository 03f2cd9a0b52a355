/-
# `Loca.Wiki.Readiness` — a wiki works for an editor that answers

`Hub::configure_wiki` looks for a recent report of the editor's runtime, and then writes the configuration in a call of
its own.  So an enabled wiki has an enabling configuration in its past, and before that a report not older than two
minutes; no other call changes an editor or enables a wiki.  The batches go to that editor alone
(`enabled_editor_was_ready`).
-/
import Loca.Wiki.Selection

namespace Loca

open Check Table

/-- The wiki is configured through the hub's gate. -/
def ThroughHub (_ : ContextState) : ContextInput → Prop
  | .wiki (.call _ (.configure _ _ _ _)) => False
  | _ => True

/-! ## Editors -/

/-- The editor of a room's wiki, and whether the wiki is enabled. -/
def WikiRow.desk (w : WikiRow) : String × String × Bool := (w.room, w.editorPrincipal, w.enabled)

/-- No desk is new. -/
def KeepsDesks (t t' : WikiTables) : Prop := ∀ w' ∈ t'.wiki, ∃ w ∈ t.wiki, w.desk = w'.desk

theorem KeepsDesks.of_eq {t t' : WikiTables} (h : t'.wiki = t.wiki) : KeepsDesks t t' :=
  fun w hw => ⟨w, h ▸ hw, rfl⟩

theorem KeepsDesks.update {t t' : WikiTables} {p : WikiRow → Bool} {f : WikiRow → WikiRow}
    (hw : t'.wiki = updateWhere p f t.wiki) (hf : ∀ w, (f w).desk = w.desk) : KeepsDesks t t' := by
  intro w' hw'
  rw [hw] at hw'
  obtain ⟨w, hm, rfl⟩ := mem_updateWhere.mp hw'
  refine ⟨w, hm, ?_⟩
  split
  · exact (hf w).symm
  · rfl

theorem commit_keepsDesks {messages : List MessageRow} {R principal : String} {update : WikiCommit} {now n : Nat}
    {lease : Option WikiLease} {human : Bool} {t t' : WikiTables}
    (h : commitWikiChecked messages R principal update now lease human t = .ok (n, t')) : KeepsDesks t t' := by
  obtain ⟨-, w, -, -, -, ⟨l, r, -, -, -, -, -, rfl⟩ | ⟨changed, hp, -⟩⟩ := commitWikiChecked_ok h
  · exact .of_eq rfl
  · exact .update hp.wiki fun _ => rfl

/-- A call leaves the desks alone, or configures one. -/
theorem run_desks {messages : List MessageRow} {c : WikiCall} {a : WikiAnswer} {t t' : WikiTables}
    (hs : c.run messages t = .ok (a, t')) :
    KeepsDesks t t' ∨ ∃ R editor enabled interval, c = .configure R editor enabled interval ∧ a = .done ∧
      ∀ w' ∈ t'.wiki, w'.desk = (R, editor, enabled) ∨ ∃ w ∈ t.wiki, w.desk = w'.desk := by
  cases c with
  | configure R editor enabled interval =>
      obtain ⟨u, hc, ha⟩ := answer_ok.mp hs
      obtain ⟨-, -, -, rfl⟩ := configureWiki_ok hc
      refine .inr ⟨R, editor, enabled, interval, rfl, ha.symm, fun w' hw' => ?_⟩
      have hw' : w' ∈ insertOrUpdate WikiRow.room
        { room := R, editorPrincipal := editor, enabled, intervalMessages := interval, revision := 0,
          reviewedThrough := 0, reviewedAt := none, editedAt := none }
        (fun w => { w with editorPrincipal := editor, enabled, intervalMessages := interval }) t.wiki := hw'
      unfold insertOrUpdate at hw'
      split at hw'
      · obtain ⟨w, hm, rfl⟩ := mem_updateWhere.mp hw'
        split
        · next hr => exact .inl (by rw [← (by simpa using hr : w.room = R)]; rfl)
        · exact .inr ⟨w, hm, rfl⟩
      · rcases List.mem_append.mp hw' with hm | hm
        · exact .inr ⟨w', hm, rfl⟩
        · rw [List.mem_singleton.mp hm]
          exact .inl rfl
  | schedule R now =>
      obtain ⟨u, hc, -⟩ := answer_ok.mp hs
      obtain ⟨-, rfl⟩ | ⟨-, w, reason, through, -, -, -, -, -, rfl⟩ := scheduleWikiReview_ok hc
      · exact .inl (.of_eq rfl)
      · exact .inl (.of_eq rfl)
  | claim R principal now =>
      obtain ⟨u, hc, -⟩ := answer_ok.mp hs
      obtain ⟨w, -, -, ⟨-, rfl | rfl⟩ | ⟨-, b, -, -, -, -, -, rfl⟩⟩ := claimWikiReview_ok hc
      · exact .inl (.of_eq rfl)
      · exact .inl (.of_eq rfl)
      · exact .inl (.of_eq rfl)
  | renew R principal l now =>
      obtain ⟨u, hc, -⟩ := answer_ok.mp hs
      obtain ⟨-, lease, b, -, -, -, rfl⟩ := renewWikiReview_ok hc
      exact .inl (.of_eq rfl)
  | finish R principal update l now =>
      obtain ⟨u, hc, -⟩ := answer_ok.mp hs
      exact .inl (commit_keepsDesks hc)
  | commit R principal update now =>
      obtain ⟨u, hc, -⟩ := answer_ok.mp hs
      exact .inl (commit_keepsDesks hc)
  | edit R actor slug page cursor now =>
      obtain ⟨u, hc, -⟩ := answer_ok.mp hs
      exact .inl (commit_keepsDesks hc)
  | remove R principal slug removal now =>
      obtain ⟨u, hc, -⟩ := answer_ok.mp hs
      obtain ⟨-, -, w, page, hist, -, -, rfl, -, -, -, -, -, rfl⟩ := removeWikiPage_ok hc
      exact .inl (.update rfl fun _ => rfl)
  | cancel R =>
      obtain ⟨u, hc, -⟩ := answer_ok.mp hs
      simp only [cancelWikiReview, pure_ok, Prod.mk.injEq] at hc
      obtain ⟨-, rfl⟩ := hc
      exact .inl (.of_eq rfl)

/-! ## Reports -/

/-- A runtime of this agent has reported in this room, within two minutes of `now`. -/
def Announced (tr : ContextTrace) (room principal : String) (now : Nat) : Prop :=
  ∃ f runtime time, (ContextInput.ready f room principal runtime time, Except.ok ContextReply.done) ∈ tr ∧
    (runtime = "codex" ∨ runtime = "claude") ∧ time ≤ now ∧ now ≤ time + 120000

/-- The wiki was enabled for this agent, which had announced itself. -/
def EnabledFor (tr : ContextTrace) (room principal : String) : Prop :=
  ∃ earlier f interval now,
    (ContextInput.configure f room principal true interval now, Except.ok (ContextReply.wiki .done)) :: earlier <:+ tr ∧
    Announced earlier room principal now

theorem EnabledFor.later {tr : ContextTrace} {room principal : String} (h : EnabledFor tr room principal)
    (e : ContextInput × Except WikiError ContextReply) : EnabledFor (e :: tr) room principal := by
  obtain ⟨earlier, f, interval, now, hsuffix, hann⟩ := h
  exact ⟨earlier, f, interval, now, hsuffix.trans (List.suffix_cons e tr), hann⟩

/-- Each row of the runtimes is a report. -/
theorem run_reported {ok : ContextState → ContextInput → Prop} {tr : ContextTrace} {s : ContextState}
    (r : Sys.Run contextWikiMachine ok tr s) :
    ∀ x ∈ s.context.runtimes, (x.runtime = "codex" ∨ x.runtime = "claude") ∧
      ∃ f, (ContextInput.ready f x.room x.principal x.runtime x.readyAt, Except.ok ContextReply.done) ∈ tr := by
  refine Sys.Run.induction (P := fun tr s => ∀ x ∈ s.context.runtimes, (x.runtime = "codex" ∨ x.runtime = "claude") ∧
    ∃ f, (ContextInput.ready f x.room x.principal x.runtime x.readyAt, Except.ok ContextReply.done) ∈ tr) ?_ ?_ r
  · rintro s ⟨-, -, -, hr⟩ x hx
    rw [hr] at hx
    cases hx
  · intro tr s i _ h _
    have hkeep : ∀ x ∈ s.context.runtimes, (x.runtime = "codex" ∨ x.runtime = "claude") ∧
        ∃ f, (ContextInput.ready f x.room x.principal x.runtime x.readyAt, Except.ok ContextReply.done) ∈
          (i, (s.step i).1) :: tr :=
      fun x hx => ⟨(h x hx).1, (h x hx).2.imp fun _ hm => List.mem_cons_of_mem _ hm⟩
    show ∀ x ∈ (s.step i).2.context.runtimes, _
    rcases context_cases s i with hs | ⟨j, hs⟩ | ⟨c, hs, ⟨f, R, P, selection, now, -, hc⟩ |
      ⟨f, R, P, runtime, now, hi, hc⟩ | ⟨f, R, P, ack, now, -, hc⟩⟩
    · rw [hs]; exact hkeep
    · rw [hs]; exact hkeep
    · rw [hs]
      rw [show ({ s with context := c } : ContextState).context.runtimes = s.context.runtimes from (select_receipts hc).2]
      exact hkeep
    · have hknown := ready_known hc
      have hreply : (i, (s.step i).1) = (ContextInput.ready f R P runtime now, Except.ok ContextReply.done) := by
        rw [hs, hi]
      have hreport : ∀ y : WikiRuntimeRow, y.key = WikiRuntimeRow.key ⟨R, P, runtime, now⟩ →
          { y with runtime, readyAt := now } = (⟨R, P, runtime, now⟩ : WikiRuntimeRow) := by
        intro y hy
        obtain ⟨hR, hP⟩ := Prod.mk.inj hy
        simp [hR, hP]
      intro x hx
      rw [hs, ready_ok hc] at hx
      rcases (mem_insertOrUpdate hreport).mp hx with ⟨hx, -⟩ | rfl
      · exact hkeep x hx
      · exact ⟨hknown, f, hreply ▸ List.mem_cons_self⟩
    · rw [hs]
      rcases accept_ok hc with ⟨x, -, -, rfl⟩ | ⟨-, -, -, rfl⟩
      · exact hkeep
      · exact hkeep

/-- The gate of `Hub::configure_wiki`. -/
theorem announced_of_ready {ok : ContextState → ContextInput → Prop} {tr : ContextTrace} {s : ContextState}
    (r : Sys.Run contextWikiMachine ok tr s) {room principal : String} {now : Nat}
    (h : wikiEditorRuntimeReady s.context room principal now = true) : Announced tr room principal now := by
  obtain ⟨x, hx, hrow⟩ := List.any_eq_true.mp h
  obtain ⟨⟨hkey, hle⟩, hge⟩ : (x.key = (room, principal) ∧ x.readyAt ≤ now) ∧ now - readyMs ≤ x.readyAt := by
    simpa using hrow
  obtain ⟨hknown, f, hm⟩ := run_reported r x hx
  obtain ⟨rfl, rfl⟩ := Prod.mk.inj hkey
  refine ⟨f, x.runtime, x.readyAt, hm, hknown, hle, ?_⟩
  unfold readyMs at hge
  omega

/-! ## Whole runs -/

/-- Where the wiki moves within a gated step, either no desk is new, or the gate was passed. -/
theorem step_desks {s : ContextState} {i : ContextInput} (hi : ThroughHub s i) :
    KeepsDesks s.wiki.tables (s.step i).2.wiki.tables ∨
    ∃ f R editor enabled interval now, i = .configure f R editor enabled interval now ∧
      (s.step i).1 = .ok (.wiki .done) ∧ (enabled = true → wikiEditorRuntimeReady s.context R editor now = true) ∧
      ∀ w' ∈ (s.step i).2.wiki.tables.wiki,
        w'.desk = (R, editor, enabled) ∨ ∃ w ∈ s.wiki.tables.wiki, w.desk = w'.desk := by
  have hwiki : ∀ j, (∀ f R editor enabled interval, j ≠ .call f (.configure R editor enabled interval)) →
      KeepsDesks s.wiki.tables (wikiStep s.wiki j).2.tables := by
    intro j hj
    rcases wikiStep_cases s.wiki j with hs | ⟨m, -, -, hs⟩ | ⟨c, a, t, hc, hrun, hs⟩
    · rw [hs]; exact .of_eq rfl
    · rw [hs]; exact .of_eq rfl
    · rw [hs]
      rcases run_desks hrun with h | ⟨R, editor, enabled, interval, rfl, -⟩
      · exact h
      · exact absurd hc (hj false R editor enabled interval)
  cases i with
  | wiki j =>
      refine .inl (hwiki j ?_)
      rintro f R editor enabled interval rfl
      exact hi
  | configure failed R editor enabled interval now =>
      simp only [ContextState.step]
      split
      · next hgate =>
        rcases wikiStep_cases s.wiki (.call failed (.configure R editor enabled interval)) with
          hs | ⟨m, hm, -⟩ | ⟨c, a, t, hc, hrun, hs⟩
        · exact .inl (.of_eq (by simp only [ContextState.passes, hs]))
        · cases hm
        · injection hc with _ hc
          subst hc
          rcases run_desks hrun with h | ⟨R', editor', enabled', interval', he, rfl, hdesks⟩
          · refine .inl ?_
            simp only [ContextState.passes, hs]
            exact h
          · injection he with hR heditor henabled _
            subst hR heditor henabled
            refine .inr ⟨failed, R, editor, enabled, interval, now, rfl, ?_, hgate, ?_⟩
            · simp only [ContextState.passes, hs]
              rfl
            · simp only [ContextState.passes, hs]
              exact hdesks
      · exact .inl (.of_eq rfl)
  | ready failed R P runtime now => exact .inl (.of_eq (calls_wiki s failed _))
  | select failed R P selection now => exact .inl (.of_eq (calls_wiki s failed _))
  | read R P => exact .inl (.of_eq rfl)
  | accept failed R P ack now => exact .inl (.of_eq (calls_wiki s failed _))

theorem run_enabled {tr : ContextTrace} {s : ContextState} (r : Sys.Run contextWikiMachine ThroughHub tr s) :
    ∀ w ∈ s.wiki.tables.wiki, w.enabled = true → EnabledFor tr w.room w.editorPrincipal := by
  refine Sys.Run.induction (P := fun tr s => ∀ w ∈ s.wiki.tables.wiki, w.enabled = true →
    EnabledFor tr w.room w.editorPrincipal) ?_ ?_ r
  · rintro s ⟨⟨-, -, ht, -⟩, -⟩ w hw
    rw [ht] at hw
    cases hw
  · intro tr s i hr h hi w' hw' henabled
    have hkeep : ∀ w ∈ s.wiki.tables.wiki, w.desk = w'.desk →
        EnabledFor ((i, (s.step i).1) :: tr) w'.room w'.editorPrincipal := by
      intro w hw hd
      simp only [WikiRow.desk, Prod.mk.injEq] at hd
      have hwas := (h w hw (hd.2.2.trans henabled)).later (i, (s.step i).1)
      rwa [hd.1, hd.2.1] at hwas
    rcases step_desks hi with hkept | ⟨f, R, editor, enabled, interval, now, rfl, hreply, hgate, hdesks⟩
    · obtain ⟨w, hw, hd⟩ := hkept w' hw'
      exact hkeep w hw hd
    · rcases hdesks w' hw' with hd | ⟨w, hw, hd⟩
      · simp only [WikiRow.desk, Prod.mk.injEq] at hd
        obtain ⟨hR, heditor, hen⟩ := hd
        have hen : enabled = true := hen.symm.trans henabled
        rw [hR, heditor]
        have hlast : (ContextInput.configure f R editor true interval now, Except.ok (ContextReply.wiki .done)) =
            (ContextInput.configure f R editor enabled interval now,
              (s.step (.configure f R editor enabled interval now)).1) := by rw [hreply, hen]
        exact ⟨tr, f, interval, now, ⟨[], congrArg (· :: tr) hlast⟩, announced_of_ready hr (hgate hen)⟩
      · exact hkeep w hw hd

/-- In every run through the hub, an enabled wiki was enabled for its editor after a report of a runtime of that agent,
not two minutes old; and a batch is given to such an agent only. -/
theorem enabled_editor_was_ready {tr : ContextTrace} {s : ContextState}
    (r : Sys.Run contextWikiMachine ThroughHub tr s) :
    (∀ w ∈ s.wiki.tables.wiki, w.enabled = true → EnabledFor tr w.room w.editorPrincipal) ∧
    (∀ f R P now batch, (ContextInput.wiki (.call f (.claim R P now)),
      Except.ok (ContextReply.wiki (.claimed (some batch)))) ∈ tr → EnabledFor tr R P) := by
  refine ⟨run_enabled r, ?_⟩
  refine Sys.Run.induction (P := fun tr _ => ∀ f R P now batch, (ContextInput.wiki (.call f (.claim R P now)),
    Except.ok (ContextReply.wiki (.claimed (some batch)))) ∈ tr → EnabledFor tr R P) ?_ ?_ r
  · rintro s - f R P now batch hm
    cases hm
  · intro tr s i hr h _ f R P now batch hm
    show EnabledFor ((i, (s.step i).1) :: tr) R P
    rcases List.mem_cons.mp hm with he | hm
    · obtain ⟨rfl, ho⟩ := Prod.mk.inj he
      have ho : Except.ok (ContextReply.wiki (.claimed (some batch))) =
        (wikiStep s.wiki (.call f (.claim R P now))).1.map ContextReply.wiki := ho
      cases hstep : (wikiStep s.wiki (.call f (.claim R P now))).1 with
      | error e => rw [hstep] at ho; cases ho
      | ok a =>
          rw [hstep] at ho
          simp only [Except.map, Except.ok.injEq, ContextReply.wiki.injEq] at ho
          subst ho
          obtain ⟨t, hrun, -⟩ := wikiStep_ok hstep
          obtain ⟨u, hc, ha⟩ := answer_ok.mp hrun
          injection ha with ha
          subst ha
          obtain ⟨w, hw, heditor, ⟨hno, -⟩ | ⟨henabled, -⟩⟩ := claimWikiReview_ok hc
          · cases hno
          · obtain ⟨hmem, hroom⟩ := WikiTables.row_some hw
            have hwas := (run_enabled hr w hmem henabled).later
              (ContextInput.wiki (.call f (.claim R P now)), (s.step (.wiki (.call f (.claim R P now)))).1)
            rwa [hroom, heditor] at hwas
    · exact (h f R P now batch hm).later _

theorem enabled_editor_was_ready_sample : EnabledFor sampleContextRun.1 "a" "editor" := by
  have hrun : Sys.Run contextWikiMachine ThroughHub sampleContextRun.1 sampleContextRun.2 :=
    Sys.Run.exec sampleContext ⟨trivial, trivial, trivial, trivial, trivial, trivial, trivial, trivial, trivial, trivial, trivial⟩
      (.nil ⟨⟨List.nodup_nil, by simp, rfl, rfl, rfl⟩, rfl, rfl, rfl⟩)
  exact (enabled_editor_was_ready hrun).1 ⟨"a", "editor", true, 1, 1, 1, some 6, some 6⟩ (by decide) rfl

end Loca
