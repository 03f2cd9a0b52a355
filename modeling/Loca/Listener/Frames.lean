/-
# `Loca.Listener.Frames` — the frames of a socket

`frames` of `listen.py` and the control frames it sends.  The generator owns a buffer; `recv` gives
it chunks whose borders mean nothing, and an empty chunk when the peer is gone.  `readFrame` is the
part of the loop that takes one frame off the buffer, `frames` the loop with what it does: a text
that is yielded, a pong that is sent.

`decode` is `payload.decode("utf-8", "replace")`, which sees whole payloads only, and `urandom` the
masks that the system gives for the control frames, in order.

`frames_whatever_the_chunks` says that what happens is a function of the frames alone.  One frame is
`readFrame_encode`: on any live stream that begins with the encoding of a frame, that frame is read
and the rest of the stream is left.  A ping longer than a control frame may be has no pong: there
the generator ends with the `ValueError` of `send_control_frame`.
-/
import Mathlib.Data.List.TakeWhile
import Loca.Base.Buffer
import Loca.Base.Check

namespace Loca.WebSocket

open Buffer Check

inductive SocketFault
  | closed
  | controlTooLarge
  deriving DecidableEq, Repr

def SocketFault.message : SocketFault → String
  | closed => "WebSocket closed"
  | controlTooLarge => "WebSocket control payload is too large"

/-- Four bytes. -/
structure Mask where
  first : UInt8
  second : UInt8
  third : UInt8
  fourth : UInt8
  deriving DecidableEq, Repr

def Mask.bytes (m : Mask) : List UInt8 := [m.first, m.second, m.third, m.fourth]

/-- `payload[i] ^= mask[i % 4]`. -/
def unmask (mask payload : List UInt8) : List UInt8 :=
  payload.mapIdx fun i b => b ^^^ mask.getD (i % 4) 0

/-- `send_control_frame`: the bytes of one masked control frame. -/
def sendControlFrame (mask : Mask) (opcode : UInt8) (payload : List UInt8) :
    Except SocketFault (List UInt8) :=
  if 125 < payload.length then .error .controlTooLarge
  else .ok ([0x80 ||| opcode, 0x80 ||| UInt8.ofNat payload.length] ++ mask.bytes ++
    unmask mask.bytes payload)

/-! ## The loop -/

def received (s : Option (Stream UInt8)) : Except SocketFault (Stream UInt8) :=
  match s with
  | some s => .ok s
  | none => .error .closed

/-- The length of the payload and where the header goes on, once the first two bytes are there. -/
def readLength (b1 : UInt8) (s : Stream UInt8) : Except SocketFault (Nat × Nat × Stream UInt8) :=
  let ln := (b1 &&& 0x7F).toNat
  if ln = 126 then do
    let s ← received (s.fill 4)
    pure (ofBigEndian (slice 2 4 s.buf), 4, s)
  else if ln = 127 then do
    let s ← received (s.fill 10)
    pure (ofBigEndian (slice 2 10 s.buf), 10, s)
  else pure (ln, 2, s)

def readMask (b1 : UInt8) (idx : Nat) (s : Stream UInt8) :
    Except SocketFault (List UInt8 × Nat × Stream UInt8) :=
  if b1 &&& 0x80 ≠ 0 then do
    let s ← received (s.fill (idx + 4))
    pure (slice idx (idx + 4) s.buf, idx + 4, s)
  else pure ([], idx, s)

/-- One frame off the buffer: its opcode and its payload. -/
def readFrame (s : Stream UInt8) : Except SocketFault (UInt8 × List UInt8 × Stream UInt8) := do
  let s ← received (s.fill 2)
  let b0 := s.buf.getD 0 0
  let b1 := s.buf.getD 1 0
  let (ln, idx, s) ← readLength b1 s
  let (mask, idx, s) ← readMask b1 idx s
  let s ← received (s.fill (idx + ln))
  let payload := slice idx (idx + ln) s.buf
  pure (b0 &&& 0x0F, if b1 &&& 0x80 ≠ 0 then unmask mask payload else payload, s.advance (idx + ln))

/-! The loop ends: every frame takes bytes off the stream. -/

theorem received_ok {o : Option (Stream UInt8)} {s : Stream UInt8} :
    received o = .ok s ↔ o = some s := by
  cases o with
  | none => simp [received]
  | some s' => simp [received]

theorem readLength_ok {b1 : UInt8} {s s' : Stream UInt8} {ln idx : Nat}
    (h : readLength b1 s = .ok (ln, idx, s')) : s'.bytes = s.bytes ∧ 2 ≤ idx := by
  unfold readLength at h
  dsimp only at h
  split at h
  · simp only [bind_ok, received_ok, pure_ok, Prod.mk.injEq] at h
    obtain ⟨t, ht, -, rfl, rfl⟩ := h
    exact ⟨(Stream.fill_some ht).1, by omega⟩
  · split at h
    · simp only [bind_ok, received_ok, pure_ok, Prod.mk.injEq] at h
      obtain ⟨t, ht, -, rfl, rfl⟩ := h
      exact ⟨(Stream.fill_some ht).1, by omega⟩
    · simp only [pure_ok, Prod.mk.injEq] at h
      obtain ⟨-, rfl, rfl⟩ := h
      exact ⟨rfl, Nat.le_refl _⟩

theorem readMask_ok {b1 : UInt8} {s s' : Stream UInt8} {mask : List UInt8} {idx idx' : Nat}
    (h : readMask b1 idx s = .ok (mask, idx', s')) : s'.bytes = s.bytes ∧ idx ≤ idx' := by
  unfold readMask at h
  split at h
  · simp only [bind_ok, received_ok, pure_ok, Prod.mk.injEq] at h
    obtain ⟨t, ht, -, rfl, rfl⟩ := h
    exact ⟨(Stream.fill_some ht).1, by omega⟩
  · simp only [pure_ok, Prod.mk.injEq] at h
    obtain ⟨-, rfl, rfl⟩ := h
    exact ⟨rfl, Nat.le_refl _⟩

theorem readFrame_shrinks {s s' : Stream UInt8} {opcode : UInt8} {payload : List UInt8}
    (h : readFrame s = .ok (opcode, payload, s')) : s'.bytes.length < s.bytes.length := by
  simp only [readFrame, bind_ok, received_ok, pure_ok, Prod.exists, Prod.mk.injEq] at h
  obtain ⟨t, ht, ln, idx, t₁, hlength, mask, idx', t₂, hmask, t₃, hfill, -, -, rfl⟩ := h
  obtain ⟨hbytes₁, hidx⟩ := readLength_ok hlength
  obtain ⟨hbytes₂, hidx'⟩ := readMask_ok hmask
  obtain ⟨hbytes₃, hle⟩ := Stream.fill_some hfill
  have hsame : t₃.bytes = s.bytes := by
    rw [hbytes₃, hbytes₂, hbytes₁, (Stream.fill_some ht).1]
  rw [Stream.bytes_advance hle, hsame, List.length_drop]
  have hlen : t₃.buf.length ≤ s.bytes.length := by
    rw [← hsame]
    exact (List.sublist_append_left _ _).length_le
  omega

inductive Output
  | yielded (text : String)
  | sent (bytes : List UInt8)
  deriving DecidableEq, Repr

/-- `frames`, when this many control frames have been sent: what it does, and how it ends. -/
def frames (decode : List UInt8 → String) (urandom : Nat → Mask) (sent : Nat) (s : Stream UInt8) :
    List Output × Except SocketFault Unit :=
  match _hread : readFrame s with
  | .error e => ([], .error e)
  | .ok (opcode, payload, s') =>
    if opcode = 0x8 then ([], .ok ())
    else if opcode = 0x9 then
      match sendControlFrame (urandom sent) 0xA payload with
      | .error e => ([], .error e)
      | .ok bytes =>
        let (rest, result) := frames decode urandom (sent + 1) s'
        (.sent bytes :: rest, result)
    else if opcode = 0x1 ∨ opcode = 0x2 then
      let (rest, result) := frames decode urandom sent s'
      (.yielded (decode payload) :: rest, result)
    else frames decode urandom sent s'
termination_by s.bytes.length
decreasing_by all_goals exact readFrame_shrinks ‹_›

/-! ## Frames and their encoding -/

inductive Kind
  | text | binary | ping | pong | close
  deriving DecidableEq, Repr

def Kind.opcode : Kind → UInt8
  | text => 0x1
  | binary => 0x2
  | ping => 0x9
  | pong => 0xA
  | close => 0x8

/-- In 7 bits, in 16 or in 64. -/
inductive LengthForm
  | seven | sixteen | sixtyFour
  deriving DecidableEq, Repr

def LengthForm.bound : LengthForm → Nat
  | seven => 126
  | sixteen => 2 ^ 16
  | sixtyFour => 2 ^ 64

/-- The seven bits of the second byte. -/
def LengthForm.code (len : Nat) : LengthForm → Nat
  | seven => len
  | sixteen => 126
  | sixtyFour => 127

def LengthForm.extended (len : Nat) : LengthForm → List UInt8
  | seven => []
  | sixteen => bigEndian 2 len
  | sixtyFour => bigEndian 8 len

/-- An unfragmented frame; its length fits the form it is written in. -/
structure Frame where
  kind : Kind
  mask : Option Mask
  form : LengthForm
  payload : List UInt8
  fits : payload.length < form.bound

namespace Frame

def maskBytes (f : Frame) : List UInt8 := f.mask.elim [] Mask.bytes

/-- The payload as it is sent. -/
def body (f : Frame) : List UInt8 := f.mask.elim f.payload fun m => unmask m.bytes f.payload

def maskBit (f : Frame) : UInt8 := if f.mask.isSome then 0x80 else 0

def encode (f : Frame) : List UInt8 :=
  [0x80 ||| f.kind.opcode, f.maskBit ||| UInt8.ofNat (f.form.code f.payload.length)] ++
    f.form.extended f.payload.length ++ f.maskBytes ++ f.body

/-- A pong is sent for a ping that a control frame can answer. -/
def Answerable (f : Frame) : Prop := f.kind = .ping → f.payload.length ≤ 125

instance (f : Frame) : Decidable f.Answerable := inferInstanceAs (Decidable (_ → _))

end Frame

/-- The pong of a ping. -/
def pong (mask : Mask) (payload : List UInt8) (h : payload.length ≤ 125) : Frame :=
  ⟨.pong, some mask, .seven, payload, Nat.lt_succ_of_le h⟩

/-- What frames give rise to: payloads of text and binary frames, pongs for pings. -/
def replies (decode : List UInt8 → String) (urandom : Nat → Mask) : Nat → List Frame → List Output
  | _, [] => []
  | sent, f :: fs =>
    match f.kind with
    | .text | .binary => .yielded (decode f.payload) :: replies decode urandom sent fs
    | .ping =>
      if h : f.payload.length ≤ 125 then
        .sent (pong (urandom sent) f.payload h).encode :: replies decode urandom (sent + 1) fs
      else []
    | .pong => replies decode urandom sent fs
    | .close => []

/-! ## Bytes -/

theorem first_byte (k : Kind) : (0x80 ||| k.opcode) &&& 0x0F = k.opcode := by
  cases k <;> decide

theorem second_byte : ∀ n < 128, ∀ masked : Bool,
    ((((if masked then 0x80 else 0) ||| UInt8.ofNat n) &&& 0x7F).toNat = n) ∧
      (((if masked then 0x80 else 0) ||| UInt8.ofNat n) &&& 0x80 ≠ 0 ↔ masked = true) := by
  decide +kernel

theorem unmask_unmask (mask payload : List UInt8) : unmask mask (unmask mask payload) = payload := by
  unfold unmask
  refine List.ext_getElem (by simp) fun i h _ => ?_
  simp [UInt8.xor_assoc]

@[simp] theorem length_unmask (mask payload : List UInt8) : (unmask mask payload).length = payload.length := by
  simp [unmask]

theorem sendControlFrame_pong (mask : Mask) {payload : List UInt8} (h : payload.length ≤ 125) :
    sendControlFrame mask 0xA payload = .ok (pong mask payload h).encode := by
  unfold sendControlFrame
  rw [if_neg (by omega)]
  simp [pong, Frame.encode, Frame.maskBit, Frame.maskBytes, Frame.body, Kind.opcode, LengthForm.code,
    LengthForm.extended]

namespace Frame

theorem code_lt (f : Frame) : f.form.code f.payload.length < 128 := by
  have hfits := f.fits
  cases hform : f.form with
  | seven =>
      rw [hform] at hfits
      exact Nat.lt_of_lt_of_le hfits (by decide)
  | sixteen => exact (by decide : 126 < 128)
  | sixtyFour => exact (by decide : 127 < 128)

/-- The second byte of the header. -/
def secondByte (f : Frame) : UInt8 := f.maskBit ||| UInt8.ofNat (f.form.code f.payload.length)

theorem secondByte_length (f : Frame) : (f.secondByte &&& 0x7F).toNat = f.form.code f.payload.length :=
  (second_byte _ f.code_lt f.mask.isSome).1

theorem secondByte_mask (f : Frame) : f.secondByte &&& 0x80 ≠ 0 ↔ f.mask.isSome = true :=
  (second_byte _ f.code_lt f.mask.isSome).2

/-- The parts of an encoding, with what follows it. -/
theorem encode_append (f : Frame) (rest : List UInt8) : f.encode ++ rest =
    [0x80 ||| f.kind.opcode, f.secondByte] ++
      (f.form.extended f.payload.length ++ (f.maskBytes ++ (f.body ++ rest))) := by
  simp [encode, secondByte]

@[simp] theorem length_body (f : Frame) : f.body.length = f.payload.length := by
  unfold body
  cases f.mask <;> simp

end Frame

/-! ## One frame -/

section Reading

variable {f : Frame} {rest : List UInt8} {s : Stream UInt8}

theorem readLength_encode (hlive : s.Live) (hbytes : s.bytes = f.encode ++ rest) :
    ∃ s', readLength f.secondByte s =
        .ok (f.payload.length, 2 + (f.form.extended f.payload.length).length, s') ∧
      s'.bytes = s.bytes ∧ s'.Live := by
  have hcode := f.secondByte_length
  have hfits := f.fits
  rw [Frame.encode_append] at hbytes
  -- the two long forms: as many bytes of the length as the form says
  have hlong : ∀ k, f.form.extended f.payload.length = bigEndian k f.payload.length →
      f.payload.length < 256 ^ k → ∃ s', s.fill (2 + k) = some s' ∧
        ofBigEndian (slice 2 (2 + k) s'.buf) = f.payload.length ∧ s'.bytes = s.bytes ∧ s'.Live := by
    intro k hext hlt
    obtain ⟨s', hs', hsame, hle, hlive'⟩ := @Stream.fill_ok _ s (2 + k) hlive (by
      rw [hbytes, hext]
      simp only [List.length_append, length_bigEndian, List.length_cons, List.length_nil]
      omega)
    refine ⟨s', hs', ?_, hsame, hlive'⟩
    have hslice := slice_append [0x80 ||| f.kind.opcode, f.secondByte] (bigEndian k f.payload.length)
      (f.maskBytes ++ (f.body ++ rest))
    rw [length_bigEndian] at hslice
    rw [Stream.slice_buf 2 hle, hsame, hbytes, hext]
    exact (congrArg ofBigEndian hslice).trans (ofBigEndian_bigEndian hlt)
  unfold readLength
  dsimp only
  rw [hcode]
  cases hform : f.form with
  | seven =>
      rw [hform] at hfits
      have hlt : f.payload.length < 126 := hfits
      refine ⟨s, ?_, rfl, hlive⟩
      rw [LengthForm.code, if_neg (by omega), if_neg (by omega)]
      rfl
  | sixteen =>
      rw [hform] at hfits hlong
      obtain ⟨s', hs', hlen, hsame, hlive'⟩ := hlong 2 rfl hfits
      refine ⟨s', ?_, hsame, hlive'⟩
      rw [LengthForm.code, if_pos rfl, received_ok.mpr hs', ok_bind, hlen]
      rfl
  | sixtyFour =>
      rw [hform] at hfits hlong
      obtain ⟨s', hs', hlen, hsame, hlive'⟩ := hlong 8 rfl hfits
      refine ⟨s', ?_, hsame, hlive'⟩
      rw [LengthForm.code, if_neg (by decide), if_pos rfl, received_ok.mpr hs', ok_bind, hlen]
      rfl

theorem readMask_encode (hlive : s.Live) (hbytes : s.bytes = f.encode ++ rest) :
    ∃ s', readMask f.secondByte (2 + (f.form.extended f.payload.length).length) s =
        .ok (f.maskBytes, 2 + (f.form.extended f.payload.length).length + f.maskBytes.length, s') ∧
      s'.bytes = s.bytes ∧ s'.Live := by
  rw [Frame.encode_append, ← List.append_assoc] at hbytes
  unfold readMask
  cases hmask : f.mask with
  | none =>
      have hbit : ¬ f.secondByte &&& 0x80 ≠ 0 := fun h => by
        have := f.secondByte_mask.mp h
        rw [hmask] at this
        cases this
      rw [if_neg hbit]
      exact ⟨s, by simp [Frame.maskBytes, hmask, pure, Except.pure], rfl, hlive⟩
  | some m =>
      have hbit : f.secondByte &&& 0x80 ≠ 0 := f.secondByte_mask.mpr (by rw [hmask]; rfl)
      have hm : f.maskBytes = m.bytes := by simp [Frame.maskBytes, hmask]
      have hhead : ([0x80 ||| f.kind.opcode, f.secondByte] ++ f.form.extended f.payload.length).length =
          2 + (f.form.extended f.payload.length).length := by
        rw [List.length_append]
        rfl
      rw [if_pos hbit, hm]
      rw [hm] at hbytes
      obtain ⟨s', hs', hsame, hle, hlive'⟩ :=
        @Stream.fill_ok _ s (2 + (f.form.extended f.payload.length).length + 4) hlive (by
          rw [hbytes, List.length_append, hhead]
          simp [Mask.bytes])
      refine ⟨s', ?_, hsame, hlive'⟩
      have hslice := slice_append ([0x80 ||| f.kind.opcode, f.secondByte] ++ f.form.extended f.payload.length)
        m.bytes (f.body ++ rest)
      rw [hhead, ← hbytes, ← hsame, show m.bytes.length = 4 from rfl, ← Stream.slice_buf _ hle] at hslice
      rw [received_ok.mpr hs', ok_bind, hslice]
      rfl

/-- A stream that begins with a frame: the frame is read, and the rest of the stream is left. -/
theorem readFrame_encode (hlive : s.Live) (hbytes : s.bytes = f.encode ++ rest) :
    ∃ s', readFrame s = .ok (f.kind.opcode, f.payload, s') ∧ s'.bytes = rest ∧ s'.Live := by
  have hparts := hbytes.trans (Frame.encode_append f rest)
  obtain ⟨t, ht, hsame, hle, hlive₁⟩ := @Stream.fill_ok _ s 2 hlive (by
    rw [hparts, List.length_append]
    simp)
  have hb0 : t.buf.getD 0 0 = 0x80 ||| f.kind.opcode := by
    rw [List.getD_eq_getElem?_getD, Stream.getElem?_buf (by omega), hsame, hparts]
    rfl
  have hb1 : t.buf.getD 1 0 = f.secondByte := by
    rw [List.getD_eq_getElem?_getD, Stream.getElem?_buf (by omega), hsame, hparts]
    rfl
  obtain ⟨t₁, hlength, hsame₁, hlive₂⟩ := readLength_encode hlive₁ (hsame.trans hbytes)
  obtain ⟨t₂, hmask, hsame₂, hlive₃⟩ := readMask_encode hlive₂ (hsame₁.trans (hsame.trans hbytes))
  have hbytes₂ : t₂.bytes = s.bytes := hsame₂.trans (hsame₁.trans hsame)
  -- everything before the payload
  generalize hhead : [0x80 ||| f.kind.opcode, f.secondByte] ++ f.form.extended f.payload.length ++ f.maskBytes = head
  have hparts' : s.bytes = head ++ (f.body ++ rest) := by
    rw [hparts, ← hhead]
    simp only [List.append_assoc]
  have hidx : 2 + (f.form.extended f.payload.length).length + f.maskBytes.length = head.length := by
    rw [← hhead, List.length_append, List.length_append]
    rfl
  rw [hidx] at hmask
  obtain ⟨t₃, hfill, hsame₃, hle₃, hlive₄⟩ := @Stream.fill_ok _ t₂ (head.length + f.payload.length) hlive₃ (by
    rw [hbytes₂, hparts']
    simp only [List.length_append, Frame.length_body]
    omega)
  have hslice : slice head.length (head.length + f.payload.length) t₃.buf = f.body := by
    rw [Stream.slice_buf _ hle₃, hsame₃, hbytes₂, hparts', ← Frame.length_body f]
    exact slice_append head f.body rest
  refine ⟨t₃.advance (head.length + f.payload.length), ?_, ?_, hlive₄⟩
  · unfold readFrame
    rw [received_ok.mpr ht, ok_bind]
    dsimp only
    rw [hb0, hb1, hlength, ok_bind]
    dsimp only
    rw [hmask, ok_bind]
    dsimp only
    rw [received_ok.mpr hfill, ok_bind, hslice, first_byte]
    congr 3
    unfold Frame.body
    cases hm : f.mask with
    | none =>
        rw [if_neg fun h => by
          have := f.secondByte_mask.mp h
          rw [hm] at this
          cases this]
        rfl
    | some m =>
        rw [if_pos (f.secondByte_mask.mpr (by rw [hm]; rfl))]
        simp only [Frame.maskBytes, hm, Option.elim_some]
        exact unmask_unmask _ _
  · rw [Stream.bytes_advance hle₃, hsame₃, hbytes₂, hparts', ← Frame.length_body f, ← List.append_assoc,
      ← List.length_append, List.drop_left]

end Reading

/-! ## All frames -/

section Frames

variable (decode : List UInt8 → String) (urandom : Nat → Mask)

/-- What happens before the first ping that cannot be answered, and how the generator ends. -/
theorem frames_replies {fs : List Frame} {close : Frame} (hclose : close.kind = .close)
    (hopen : ∀ f ∈ fs, f.kind ≠ .close) {s : Stream UInt8} (hlive : s.Live)
    (hbytes : s.bytes = (fs ++ [close]).flatMap Frame.encode) (sent : Nat) :
    frames decode urandom sent s =
      (replies decode urandom sent (fs.takeWhile fun f => decide f.Answerable),
        if ∀ f ∈ fs, f.Answerable then .ok () else .error .controlTooLarge) := by
  induction fs generalizing s sent with
  | nil =>
      have hone : s.bytes = close.encode ++ [] := by simpa using hbytes
      obtain ⟨s', hread, -, -⟩ := readFrame_encode hlive hone
      rw [frames]
      split
      · next e he =>
        rw [hread] at he
        cases he
      · next opcode payload t ht =>
        rw [hread] at ht
        cases ht
        rw [hclose, if_pos (show Kind.close.opcode = 0x8 from rfl), if_pos (fun f hf => (nomatch hf))]
        rfl
  | cons f fs ih =>
      have hcons : s.bytes = f.encode ++ (fs ++ [close]).flatMap Frame.encode := by
        simpa using hbytes
      obtain ⟨s', hread, hrest, hlive'⟩ := readFrame_encode hlive hcons
      have hgo := fun sent => ih (fun g hg => hopen g (List.mem_cons_of_mem _ hg)) hlive' hrest sent
      rw [frames]
      split
      · next e he =>
        rw [hread] at he
        cases he
      · next opcode payload t ht =>
        rw [hread] at ht
        cases ht
        cases hkind : f.kind with
        | close => exact absurd hkind (hopen f List.mem_cons_self)
        | text =>
            have hans : f.Answerable := fun h => by rw [hkind] at h; cases h
            rw [List.takeWhile_cons_of_pos (by simpa using hans)]
            simp only [Kind.opcode, hgo sent, replies, hkind, List.forall_mem_cons, hans, true_and]
            rfl
        | binary =>
            have hans : f.Answerable := fun h => by rw [hkind] at h; cases h
            rw [List.takeWhile_cons_of_pos (by simpa using hans)]
            simp only [Kind.opcode, hgo sent, replies, hkind, List.forall_mem_cons, hans, true_and]
            rfl
        | pong =>
            have hans : f.Answerable := fun h => by rw [hkind] at h; cases h
            rw [List.takeWhile_cons_of_pos (by simpa using hans)]
            simp only [Kind.opcode, hgo sent, replies, hkind, List.forall_mem_cons, hans, true_and]
            rfl
        | ping =>
            by_cases hlen : f.payload.length ≤ 125
            · have hans : f.Answerable := fun _ => hlen
              rw [List.takeWhile_cons_of_pos (by simpa using hans)]
              simp only [Kind.opcode, sendControlFrame_pong _ hlen, hgo (sent + 1), replies, hkind, hlen,
                List.forall_mem_cons, hans, true_and]
              rfl
            · have hans : ¬ f.Answerable := fun h => hlen (h hkind)
              rw [List.takeWhile_cons_of_neg (by simpa using hans)]
              simp only [Kind.opcode, sendControlFrame, if_pos (Nat.lt_of_not_le hlen),
                List.forall_mem_cons, hans, false_and]
              rfl

end Frames

def Output.text? : Output → Option String
  | yielded text => some text
  | sent _ => none

def Output.bytes? : Output → Option (List UInt8)
  | yielded _ => none
  | sent bytes => some bytes

def Frame.isData (f : Frame) : Bool := f.kind = .text || f.kind = .binary

def Frame.isPing (f : Frame) : Bool := f.kind = .ping

theorem replies_texts (decode : List UInt8 → String) (urandom : Nat → Mask) {fs : List Frame}
    (hopen : ∀ f ∈ fs, f.kind ≠ .close) (hans : ∀ f ∈ fs, f.Answerable) (sent : Nat) :
    (replies decode urandom sent fs).filterMap Output.text? =
      (fs.filter Frame.isData).map fun f => decode f.payload := by
  induction fs generalizing sent with
  | nil => rfl
  | cons f fs ih =>
      have hgo := ih (fun g hg => hopen g (List.mem_cons_of_mem _ hg))
        (fun g hg => hans g (List.mem_cons_of_mem _ hg))
      cases hkind : f.kind with
      | close => exact absurd hkind (hopen f List.mem_cons_self)
      | text => simp [replies, hkind, Frame.isData, Output.text?, hgo]
      | binary => simp [replies, hkind, Frame.isData, Output.text?, hgo]
      | pong => simp [replies, hkind, Frame.isData, hgo]
      | ping =>
          simp only [replies, hkind, hans f List.mem_cons_self hkind, dite_true, Output.text?,
            List.filterMap_cons, hgo (sent + 1)]
          simp [Frame.isData, hkind]

theorem replies_pongs (decode : List UInt8 → String) (urandom : Nat → Mask) {fs : List Frame}
    (hopen : ∀ f ∈ fs, f.kind ≠ .close) (hans : ∀ f ∈ fs, f.Answerable) (sent : Nat) :
    ((replies decode urandom sent fs).filterMap Output.bytes?).map Except.ok =
      (fs.filter Frame.isPing).mapIdx fun k f => sendControlFrame (urandom (sent + k)) 0xA f.payload := by
  induction fs generalizing sent with
  | nil => rfl
  | cons f fs ih =>
      have hgo := ih (fun g hg => hopen g (List.mem_cons_of_mem _ hg))
        (fun g hg => hans g (List.mem_cons_of_mem _ hg))
      cases hkind : f.kind with
      | close => exact absurd hkind (hopen f List.mem_cons_self)
      | text => simpa [replies, hkind, Frame.isPing, Output.bytes?, List.filterMap_cons] using hgo sent
      | binary => simpa [replies, hkind, Frame.isPing, Output.bytes?, List.filterMap_cons] using hgo sent
      | pong => simpa [replies, hkind, Frame.isPing] using hgo sent
      | ping =>
          have hlen := hans f List.mem_cons_self hkind
          simp only [replies, hkind, hlen, dite_true, Output.bytes?, List.filterMap_cons, List.map_cons,
            Frame.isPing, List.filter_cons, decide_true, if_true, List.mapIdx_cons, Nat.add_zero]
          rw [sendControlFrame_pong _ hlen, hgo (sent + 1)]
          simp only [Nat.add_assoc, Nat.add_comm 1]

/-- Whatever the bytes are cut into: the texts are those of the text and binary frames before the first
ping that is too long for a control frame, what is sent are the pongs of the pings before it, and
unless there is one the generator goes on to the close frame. -/
theorem frames_whatever_the_chunks (decode : List UInt8 → String) (urandom : Nat → Mask) {fs : List Frame}
    {close : Frame} (hclose : close.kind = .close) (hopen : ∀ f ∈ fs, f.kind ≠ .close)
    {leftover : List UInt8} {chunks : List (List UInt8)} (hlive : ∀ chunk ∈ chunks, chunk ≠ [])
    (hbytes : leftover ++ chunks.flatten = (fs ++ [close]).flatMap Frame.encode) :
    let before := fs.takeWhile fun f => decide f.Answerable
    let run := frames decode urandom 0 ⟨leftover, chunks⟩
    run.1 = replies decode urandom 0 before ∧
      run.1.filterMap Output.text? = (before.filter Frame.isData).map (fun f => decode f.payload) ∧
      (run.1.filterMap Output.bytes?).map Except.ok =
        (before.filter Frame.isPing).mapIdx (fun k f => sendControlFrame (urandom k) 0xA f.payload) ∧
      run.2 = (if ∀ f ∈ fs, f.Answerable then .ok () else .error .controlTooLarge) ∧
      ((∀ f ∈ fs, f.Answerable) → before = fs) := by
  dsimp only
  have hrun := frames_replies decode urandom hclose hopen
    (show Stream.Live ⟨leftover, chunks⟩ from hlive) hbytes 0
  have hsub : ∀ f ∈ fs.takeWhile (fun f => decide f.Answerable), f ∈ fs ∧ f.Answerable := by
    intro f hf
    exact ⟨(List.takeWhile_sublist _).subset hf, by simpa using List.mem_takeWhile_imp hf⟩
  have hopen' : ∀ f ∈ fs.takeWhile (fun f => decide f.Answerable), f.kind ≠ .close :=
    fun f hf => hopen f (hsub f hf).1
  rw [hrun]
  refine ⟨rfl, ?_, ?_, rfl, fun hall => ?_⟩
  · exact replies_texts decode urandom hopen' (fun f hf => (hsub f hf).2) 0
  · simpa using replies_pongs decode urandom hopen' (fun f hf => (hsub f hf).2) 0
  · exact List.takeWhile_eq_self_iff.mpr fun f hf => by simpa using hall f hf

/-! A text after a ping that is too long is not yielded. -/

def longPing : Frame := ⟨.ping, none, .sixteen, List.replicate 126 0, by rw [List.length_replicate]; decide⟩

def shortText : Frame := ⟨.text, some ⟨1, 2, 3, 4⟩, .seven, [104, 105], by decide⟩

def closing : Frame := ⟨.close, none, .seven, [], by decide⟩

theorem long_ping_ends_frames : ¬ ∀ (decode : List UInt8 → String) (urandom : Nat → Mask) (fs : List Frame)
    (close : Frame) (leftover : List UInt8) (chunks : List (List UInt8)), close.kind = .close →
    (∀ f ∈ fs, f.kind ≠ .close) → (∀ chunk ∈ chunks, chunk ≠ []) →
    leftover ++ chunks.flatten = (fs ++ [close]).flatMap Frame.encode →
    (frames decode urandom 0 ⟨leftover, chunks⟩).1.filterMap Output.text? =
        (fs.filter Frame.isData).map (fun f => decode f.payload) ∧
      (frames decode urandom 0 ⟨leftover, chunks⟩).2 = .ok () := by
  intro h
  have hopen : ∀ f ∈ [longPing, shortText], f.kind ≠ .close := by
    simp [longPing, shortText]
  obtain ⟨-, hend⟩ := h (fun _ => "") (fun _ => ⟨0, 0, 0, 0⟩) [longPing, shortText] closing
    (([longPing, shortText] ++ [closing]).flatMap Frame.encode) [] rfl hopen (fun _ hc => (nomatch hc))
    (List.append_nil _)
  rw [@frames_replies _ _ [longPing, shortText] closing rfl hopen
    ⟨([longPing, shortText] ++ [closing]).flatMap Frame.encode, []⟩ (fun _ hc => (nomatch hc)) (List.append_nil _) 0] at hend
  have hnot : ¬ ∀ f ∈ [longPing, shortText], f.Answerable := fun hall =>
    absurd (hall longPing List.mem_cons_self rfl) (by simp [longPing])
  rw [if_neg hnot] at hend
  cases hend

/-- One byte at a time. -/
theorem frames_byte_by_byte :
    (frames (fun _ => "hi") (fun _ => ⟨0, 0, 0, 0⟩) 0
      ⟨[], (([shortText] ++ [closing]).flatMap Frame.encode).map fun b => [b]⟩).1 = [.yielded "hi"] := by
  have hopen : ∀ f ∈ [shortText], f.kind ≠ .close := by simp [shortText]
  generalize hall : ([shortText] ++ [closing]).flatMap Frame.encode = all
  have hlive : ∀ chunk ∈ all.map fun b => [b], chunk ≠ [] := by simp
  have hcut : [] ++ (all.map fun b => [b]).flatten = ([shortText] ++ [closing]).flatMap Frame.encode := by
    rw [hall, List.nil_append, ← List.flatMap_def, List.flatMap_singleton']
  exact (@frames_whatever_the_chunks (fun _ => "hi") (fun _ => ⟨0, 0, 0, 0⟩) [shortText] closing rfl hopen []
    _ hlive hcut).1

end Loca.WebSocket
