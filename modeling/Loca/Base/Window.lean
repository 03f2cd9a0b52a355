/-
# `Base.Window` — at most so many in any stretch of time

A log of the moments at which something was let through, oldest first.  What is let through at
`now` counts against the limit as long as `now < t + width`; `recent` is the part of the log
that still counts.  `Paced` says that each entry of the log met fewer than `limit` that counted.

Everything about a sliding window follows from the log alone: no stretch of the width holds more
than the limit (`Paced.stretch`), and a caller who waits until the oldest entry that counts has
run out meets fewer than the limit again (`Paced.recent_lt`).  `Window` connects a limiter that
keeps only a suffix of the log: after it has dropped what ran out, it holds exactly `recent`.
-/
import Mathlib.Data.List.TakeWhile

namespace Pace

/-- What still counts at a moment. -/
def recent (width now : Nat) (log : List Nat) : List Nat :=
  log.filter fun t => now < t + width

/-- What falls into the stretch of the given width from `start` on. -/
def within (width start : Nat) (log : List Nat) : List Nat :=
  log.filter fun t => start ≤ t ∧ t < start + width

/-- Each entry met fewer than `limit` that counted. -/
inductive Paced (limit width : Nat) : List Nat → Prop
  | nil : Paced limit width []
  | snoc {log : List Nat} {t : Nat} :
      Paced limit width log → (recent width t log).length < limit → Paced limit width (log ++ [t])

theorem mem_recent {width now t : Nat} {log : List Nat} :
    t ∈ recent width now log ↔ t ∈ log ∧ now < t + width := by
  simp [recent]

/-- What counts later counted before. -/
theorem recent_recent {width now later : Nat} (h : now ≤ later) (log : List Nat) :
    recent width later (recent width now log) = recent width later log := by
  unfold recent
  rw [List.filter_filter]
  refine List.filter_congr fun t _ => ?_
  have hboth : (later < t + width ∧ now < t + width) ↔ later < t + width := by omega
  rw [← Bool.decide_and, decide_eq_decide]
  exact hboth

/-- No stretch of the width holds more than the limit. -/
theorem Paced.stretch {limit width : Nat} {log : List Nat} (h : Paced limit width log) (start : Nat) :
    (within width start log).length ≤ limit := by
  induction h with
  | nil => exact Nat.zero_le _
  | @snoc log t _ hroom ih =>
      unfold within at ih ⊢
      rw [List.filter_append, List.length_append]
      by_cases ht : start ≤ t ∧ t < start + width
      · -- whatever of the log falls into the stretch still counts at `t`
        have hsub : (log.filter fun x => start ≤ x ∧ x < start + width).length ≤
            (recent width t log).length := by
          unfold recent
          rw [← List.countP_eq_length_filter, ← List.countP_eq_length_filter]
          refine List.countP_mono_left fun x _ hx => ?_
          simp only [decide_eq_true_eq] at hx ⊢
          omega
        rw [List.filter_cons_of_pos (by simpa using ht), List.filter_nil, List.length_singleton]
        omega
      · rw [List.filter_cons_of_neg (by simpa using ht), List.filter_nil, List.length_nil]
        exact ih

/-- At most the limit counts at any moment that the log lies before. -/
theorem Paced.recent_le {limit width now : Nat} {log : List Nat} (h : Paced limit width log)
    (hpast : ∀ t ∈ log, t ≤ now) : (recent width now log).length ≤ limit := by
  -- an entry that counts lies in the last stretch
  have hlast : within width (now + 1 - width) (recent width now log) = recent width now log := by
    refine List.filter_eq_self.mpr fun t ht => ?_
    obtain ⟨hmem, hcounts⟩ := mem_recent.mp ht
    have := hpast t hmem
    simp only [decide_eq_true_eq]
    omega
  refine Nat.le_trans (List.Sublist.length_le ?_) (h.stretch (now + 1 - width))
  rw [← hlast]
  exact List.Sublist.filter _ List.filter_sublist

/-- Once the oldest entry that counted has run out, fewer than the limit count. -/
theorem Paced.recent_lt {limit width now later t : Nat} {log rest : List Nat}
    (h : Paced limit width log) (hpast : ∀ t ∈ log, t ≤ now)
    (hfront : recent width now log = t :: rest) (hlater : t + width ≤ later) :
    (recent width later log).length < limit := by
  have hnow : now < t + width := by
    have ht : t ∈ recent width now log := by rw [hfront]; exact List.mem_cons_self
    exact (mem_recent.mp ht).2
  have hle := h.recent_le hpast
  rw [← recent_recent (Nat.le_trans (Nat.le_of_lt hnow) hlater), hfront]
  rw [hfront, List.length_cons] at hle
  unfold recent
  rw [List.filter_cons_of_neg (by simpa using hlater)]
  exact Nat.lt_of_le_of_lt (List.length_filter_le _ rest) hle

/-! ## A limiter that forgets -/

/-- The stamps a limiter keeps: the log but for a part that no longer counts. -/
structure Window (limit width clock : Nat) (log stamps : List Nat) : Prop where
  suffix : ∃ dropped, log = dropped ++ stamps ∧ ∀ t ∈ dropped, t + width ≤ clock
  sorted : log.Pairwise (· ≤ ·)
  past : ∀ t ∈ log, t ≤ clock
  paced : Paced limit width log

namespace Window

variable {limit width clock clock' : Nat} {log stamps : List Nat}

theorem empty (limit width clock : Nat) : Window limit width clock [] [] :=
  ⟨⟨[], rfl, by simp⟩, .nil, by simp, .nil⟩

theorem later (h : Window limit width clock log stamps) (hle : clock ≤ clock') :
    Window limit width clock' log stamps := by
  obtain ⟨dropped, hlog, hd⟩ := h.suffix
  exact ⟨⟨dropped, hlog, fun t ht => Nat.le_trans (hd t ht) hle⟩, h.sorted,
    fun t ht => Nat.le_trans (h.past t ht) hle, h.paced⟩

/-- From the front of an ordered list, what has run out goes and the rest stays. -/
theorem dropWhile_eq {p : Nat → Bool} (hsorted : stamps.Pairwise (· ≤ ·))
    (hp : ∀ t ∈ stamps, p t = true ↔ t + width ≤ clock) :
    stamps.dropWhile p = recent width clock stamps := by
  induction stamps with
  | nil => rfl
  | cons t stamps ih =>
      obtain ⟨hfirst, hrest⟩ := List.pairwise_cons.mp hsorted
      have ht := hp t List.mem_cons_self
      have htail : ∀ s ∈ stamps, p s = true ↔ s + width ≤ clock := fun s hs =>
        hp s (List.mem_cons_of_mem _ hs)
      unfold recent
      by_cases hout : t + width ≤ clock
      · rw [List.dropWhile_cons_of_pos (ht.mpr hout), List.filter_cons_of_neg (by simpa using hout)]
        exact ih hrest htail
      · rw [List.dropWhile_cons_of_neg (fun h => hout (ht.mp h)), eq_comm, List.filter_eq_self]
        intro s hs
        have : t ≤ s := by
          rcases List.mem_cons.mp hs with rfl | hs
          · exact Nat.le_refl _
          · exact hfirst s hs
        simp only [decide_eq_true_eq]
        omega

/-- After the stamps that ran out are dropped, the limiter holds what counts of the log. -/
theorem live (h : Window limit width clock log stamps) {p : Nat → Bool}
    (hp : ∀ t ∈ stamps, p t = true ↔ t + width ≤ clock) :
    stamps.dropWhile p = recent width clock log := by
  obtain ⟨dropped, rfl, hd⟩ := h.suffix
  have hgone : recent width clock dropped = [] := by
    refine List.filter_eq_nil_iff.mpr fun t ht => ?_
    have := hd t ht
    simp only [decide_eq_true_eq]
    omega
  rw [dropWhile_eq (List.pairwise_append.mp h.sorted).2.1 hp]
  unfold recent at hgone ⊢
  rw [List.filter_append, hgone, List.nil_append]

theorem expire (h : Window limit width clock log stamps) {p : Nat → Bool}
    (hp : ∀ t ∈ stamps, p t = true ↔ t + width ≤ clock) :
    Window limit width clock log (stamps.dropWhile p) := by
  obtain ⟨dropped, hlog, hd⟩ := h.suffix
  refine ⟨⟨dropped ++ stamps.takeWhile p, ?_, ?_⟩, h.sorted, h.past, h.paced⟩
  · rw [List.append_assoc, List.takeWhile_append_dropWhile, hlog]
  · intro t ht
    rcases List.mem_append.mp ht with ht | ht
    · exact hd t ht
    · exact (hp t (List.takeWhile_subset p ht)).mp (List.mem_takeWhile_imp ht)

/-- What is let through is stamped. -/
theorem push (h : Window limit width clock log stamps)
    (hroom : (recent width clock log).length < limit) :
    Window limit width clock (log ++ [clock]) (stamps ++ [clock]) := by
  obtain ⟨dropped, hlog, hd⟩ := h.suffix
  refine ⟨⟨dropped, by rw [hlog, List.append_assoc], hd⟩, ?_, ?_, h.paced.snoc hroom⟩
  · refine List.pairwise_append.mpr ⟨h.sorted, List.pairwise_singleton _ _, fun t ht s hs => ?_⟩
    rw [List.mem_singleton.mp hs]
    exact h.past t ht
  · intro t ht
    rcases List.mem_append.mp ht with ht | ht
    · exact h.past t ht
    · exact Nat.le_of_eq (List.mem_singleton.mp ht)

end Window

end Pace
