/-
# `Base.Buffer` — reading from a stream that comes in chunks

A reader has some bytes already and gets more in chunks, whose borders mean nothing.  It reads on
until it has as many as it needs (`fill`) and then looks at slices of what it has.  `fill_ok` is the
rule: as long as the stream is long enough and no chunk is empty, the reader gets there, and what it
has and what is still to come are the same bytes as before.  So a slice of the buffer is the slice of
the whole stream (`slice_buf`), wherever the chunks were cut.

The second part is the big-endian numerals that a header is made of.
-/
import Mathlib.Algebra.Ring.Nat
import Mathlib.Data.List.Basic

namespace Buffer

variable {α : Type}

/-- What was received and not used yet, and what will be received. -/
structure Stream (α : Type) where
  buf : List α
  chunks : List (List α)

/-- All that is before the reader. -/
def Stream.bytes (s : Stream α) : List α := s.buf ++ s.chunks.flatten

/-- An empty chunk is the end of a stream; a live stream has none. -/
def Stream.Live (s : Stream α) : Prop := ∀ chunk ∈ s.chunks, chunk ≠ []

/-- Receive until there are `n`; a stream that ends before that is `none`. -/
def fillFrom (n : Nat) (buf : List α) : List (List α) → Option (Stream α)
  | [] => if n ≤ buf.length then some ⟨buf, []⟩ else none
  | chunk :: chunks =>
    if n ≤ buf.length then some ⟨buf, chunk :: chunks⟩
    else if chunk.isEmpty then none
    else fillFrom n (buf ++ chunk) chunks

def Stream.fill (n : Nat) (s : Stream α) : Option (Stream α) := fillFrom n s.buf s.chunks

/-- `buf[i:j]`. -/
def slice (i j : Nat) (l : List α) : List α := (l.drop i).take (j - i)

/-- Drop what is in the buffer up to `n`. -/
def Stream.advance (n : Nat) (s : Stream α) : Stream α := { s with buf := s.buf.drop n }

theorem fillFrom_some {n : Nat} {buf : List α} {chunks : List (List α)} {s : Stream α}
    (h : fillFrom n buf chunks = some s) :
    s.bytes = buf ++ chunks.flatten ∧ n ≤ s.buf.length ∧ s.chunks <:+ chunks := by
  induction chunks generalizing buf with
  | nil =>
      unfold fillFrom at h
      rw [Option.ite_none_right_eq_some] at h
      obtain ⟨hn, hs⟩ := h
      cases hs
      exact ⟨rfl, hn, List.suffix_refl _⟩
  | cons chunk chunks ih =>
      unfold fillFrom at h
      split at h
      · next hn =>
        cases h
        exact ⟨rfl, hn, List.suffix_refl _⟩
      · split at h
        · cases h
        · obtain ⟨hbytes, hn, hsuffix⟩ := ih h
          refine ⟨?_, hn, hsuffix.trans (List.suffix_cons _ _)⟩
          rw [hbytes, List.flatten_cons, List.append_assoc]

theorem fillFrom_isSome {n : Nat} {buf : List α} {chunks : List (List α)}
    (hlive : ∀ chunk ∈ chunks, chunk ≠ []) (hn : n ≤ (buf ++ chunks.flatten).length) :
    ∃ s, fillFrom n buf chunks = some s := by
  induction chunks generalizing buf with
  | nil =>
      rw [List.flatten_nil, List.append_nil] at hn
      exact ⟨_, if_pos hn⟩
  | cons chunk chunks ih =>
      unfold fillFrom
      split
      · exact ⟨_, rfl⟩
      · have hne : chunk.isEmpty = false := by
          simpa using hlive chunk List.mem_cons_self
        rw [hne]
        refine ih (fun c hc => hlive c (List.mem_cons_of_mem _ hc)) ?_
        rw [List.append_assoc]
        exact hn

/-- A live stream that is long enough is read as far as it is needed. -/
theorem Stream.fill_ok {s : Stream α} {n : Nat} (hlive : s.Live) (hn : n ≤ s.bytes.length) :
    ∃ s', s.fill n = some s' ∧ s'.bytes = s.bytes ∧ n ≤ s'.buf.length ∧ s'.Live := by
  obtain ⟨s', hs'⟩ := fillFrom_isSome hlive hn
  obtain ⟨hbytes, hle, hsuffix⟩ := fillFrom_some hs'
  exact ⟨s', hs', hbytes, hle, fun chunk hc => hlive chunk (hsuffix.subset hc)⟩

theorem Stream.fill_some {s s' : Stream α} {n : Nat} (h : s.fill n = some s') :
    s'.bytes = s.bytes ∧ n ≤ s'.buf.length :=
  ⟨(fillFrom_some h).1, (fillFrom_some h).2.1⟩

/-- What lies in the buffer is what lies in the stream. -/
theorem Stream.slice_buf {s : Stream α} {j : Nat} (i : Nat) (h : j ≤ s.buf.length) :
    slice i j s.buf = slice i j s.bytes := by
  unfold slice Stream.bytes
  rcases Nat.le_total i s.buf.length with hi | hi
  · rw [List.drop_append_of_le_length hi, List.take_append_of_le_length]
    rw [List.length_drop]
    omega
  · have hz : j - i = 0 := by omega
    rw [hz, List.take_zero, List.take_zero]

theorem Stream.getElem?_buf {s : Stream α} {i : Nat} (h : i < s.buf.length) :
    s.buf[i]? = s.bytes[i]? :=
  (List.getElem?_append_left h).symm

theorem Stream.bytes_advance {s : Stream α} {n : Nat} (h : n ≤ s.buf.length) :
    (s.advance n).bytes = s.bytes.drop n := by
  unfold Stream.advance Stream.bytes
  rw [List.drop_append_of_le_length h]

/-! ## Slices of what was put together -/

theorem slice_append (a b c : List α) : slice a.length (a.length + b.length) (a ++ (b ++ c)) = b := by
  unfold slice
  rw [List.drop_left, Nat.add_sub_cancel_left, List.take_left]

/-! ## Big-endian numerals -/

/-- `k` bytes of a number, the greatest first. -/
def bigEndian : Nat → Nat → List UInt8
  | 0, _ => []
  | k + 1, n => bigEndian k (n / 256) ++ [UInt8.ofNat n]

def ofBigEndian (bytes : List UInt8) : Nat := bytes.foldl (fun n b => n * 256 + b.toNat) 0

@[simp] theorem length_bigEndian (k n : Nat) : (bigEndian k n).length = k := by
  induction k generalizing n with
  | zero => rfl
  | succ k ih => simp [bigEndian, ih]

theorem ofBigEndian_bigEndian {k n : Nat} (h : n < 256 ^ k) : ofBigEndian (bigEndian k n) = n := by
  induction k generalizing n with
  | zero =>
      rw [Nat.pow_zero] at h
      show 0 = n
      omega
  | succ k ih =>
      have hdiv : n / 256 < 256 ^ k := by
        rw [Nat.pow_succ] at h
        exact Nat.div_lt_of_lt_mul (by omega)
      have hlast : (UInt8.ofNat n).toNat = n % 256 := UInt8.toNat_ofNat'
      have hrest : ofBigEndian (bigEndian (k + 1) n) =
          ofBigEndian (bigEndian k (n / 256)) * 256 + (UInt8.ofNat n).toNat := by
        simp [ofBigEndian, bigEndian, List.foldl_append]
      rw [hrest, ih hdiv, hlast]
      omega

end Buffer
