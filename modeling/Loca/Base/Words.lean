/-
# `Base.Words` — cutting a text into words

A list is cut at every element a test singles out.  A stretch that holds no such element, and
that the list's ends or such elements delimit, is one of the words (`mem_splitOnP_between`);
and every word stands in the list (`infix_of_mem_splitOnP`).

The Latin letters, digits and signs of the first 128 code points are few enough that a rule
about them is checked by going through them (`ascii_rule`).
-/
import Mathlib.Data.List.Infix

namespace Words

variable {α : Type}

/-- Nothing but elements that pass the test stands next to what is between the two parts. -/
structure Delimits (p : α → Bool) (before after : List α) : Prop where
  left : ∀ c ∈ before.getLast?, p c = true
  right : ∀ c ∈ after.head?, p c = true

theorem Delimits.mono {p q : α → Bool} {before after : List α} (h : Delimits p before after)
    (hpq : ∀ c, p c = true → q c = true) : Delimits q before after :=
  ⟨fun c hc => hpq c (h.left c hc), fun c hc => hpq c (h.right c hc)⟩

/-- A part that ends where it is delimited is empty or ends in a separator. -/
theorem eq_nil_or_concat_of_last {p : α → Bool} {l : List α} (h : ∀ c ∈ l.getLast?, p c = true) :
    l = [] ∨ ∃ rest c, l = rest ++ [c] ∧ p c = true := by
  cases l using List.reverseRecOn with
  | nil => exact .inl rfl
  | append_singleton rest c => exact .inr ⟨rest, c, rfl, h c (by simp)⟩

theorem eq_nil_or_cons_of_head {p : α → Bool} {l : List α} (h : ∀ c ∈ l.head?, p c = true) :
    l = [] ∨ ∃ c rest, l = c :: rest ∧ p c = true := by
  cases l with
  | nil => exact .inl rfl
  | cons c rest => exact .inr ⟨c, rest, rfl, h c (by simp)⟩

theorem mem_splitOnP_between {p : α → Bool} {before word after : List α}
    (hw : ∀ c ∈ word, p c = false) (h : Delimits p before after) :
    word ∈ (before ++ word ++ after).splitOnP p := by
  -- the word is all there is up to the first separator after it
  have hfirst : word ∈ (word ++ after).splitOnP p := by
    rcases eq_nil_or_cons_of_head h.right with rfl | ⟨c, rest, rfl, hc⟩
    · rw [List.append_nil, List.splitOnP_eq_singleton hw]
      exact List.mem_singleton_self word
    · rw [List.splitOnP_append_cons_of_forall_mem hw c hc rest]
      exact List.mem_cons_self
  rcases eq_nil_or_concat_of_last h.left with rfl | ⟨rest, c, rfl, hc⟩
  · exact hfirst
  · have hcut : rest ++ [c] ++ word ++ after = rest ++ c :: (word ++ after) := by simp
    rw [hcut, List.splitOnP_append_cons rest _ hc]
    exact List.mem_append_right _ hfirst

theorem infix_of_mem_splitOnP {p : α → Bool} {word l : List α} (h : word ∈ l.splitOnP p) :
    word <:+: l := by
  -- the first word is a prefix, and the others stand further on
  suffices hboth : (∀ first ∈ (l.splitOnP p).head?, first <+: l) ∧
      ∀ w ∈ (l.splitOnP p).tail, w <:+: l by
    cases hl : l.splitOnP p with
    | nil => exact absurd hl (List.splitOnP_ne_nil p l)
    | cons first rest =>
        rw [hl] at h hboth
        rcases List.mem_cons.mp h with rfl | hrest
        · exact (hboth.1 word (by simp)).isInfix
        · exact hboth.2 word hrest
  clear h
  induction l with
  | nil => simp
  | cons x l ih =>
      obtain ⟨hhead, htail⟩ := ih
      rw [List.splitOnP_cons_eq_if_modifyHead]
      cases hl : l.splitOnP p with
      | nil => exact absurd hl (List.splitOnP_ne_nil p l)
      | cons first rest =>
          rw [hl] at hhead htail
          have hfirst : first <+: l := hhead first (by simp)
          split
          · refine ⟨by simp, fun w hw => ?_⟩
            rcases List.mem_cons.mp hw with rfl | hw
            · exact hfirst.isInfix.trans (List.suffix_cons x l).isInfix
            · exact (htail w hw).trans (List.suffix_cons x l).isInfix
          · refine ⟨fun w hw => ?_, fun w hw => (htail w hw).trans (List.suffix_cons x l).isInfix⟩
            obtain rfl : x :: first = w := by simpa using hw
            exact (List.prefix_cons_inj x).mpr hfirst

/-- What holds of the first 128 code points, one by one. -/
theorem ascii_rule {P : Char → Prop} (h : ∀ n < 128, P (Char.ofNat n)) {c : Char}
    (hc : c.toNat < 128) : P c := by
  have := h c.toNat hc
  rwa [Char.ofNat_toNat] at this

end Words
