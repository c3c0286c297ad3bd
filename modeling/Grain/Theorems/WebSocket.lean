import Grain.WebSocket

/-!
# Receiving web socket frames

The server looks at what has arrived as if it were one frame, passes a message on after every read and empties its whole buffer
after a text frame. So it delivers the frames of a client exactly if every read brings one of them, whole and alone
(`frames_received`).
-/

namespace Grain

open Framing

/-! ## What a client sends -/

/-- The three encodings of a length. -/
inductive LengthForm
  | short
  | medium
  | long
  deriving DecidableEq

/-- The lengths that a form can state. -/
def LengthForm.Fits : LengthForm → Nat → Prop
  | .short, n => n ≤ 125
  | .medium, n => n < 2 ^ 16
  | .long, n => n < 2 ^ 63

/-- A text frame of a client: it is the last of its message, and masked. -/
structure ClientFrame where
  form : LengthForm
  mask : Fin 4 → UInt8
  payload : List UInt8
  fits : form.Fits payload.length

/-- `n` bytes of a number, most significant first. -/
def bytesOf : (n : Nat) → Nat → List UInt8
  | 0, _ => []
  | n + 1, x => bytesOf n (x / 256) ++ [UInt8.ofNat x]

namespace ClientFrame

/-- The opcode of a text frame and the length. -/
def header (f : ClientFrame) : List UInt8 :=
  match f.form with
  | .short => [0x81, 0x80 ||| UInt8.ofNat f.payload.length]
  | .medium => 0x81 :: 0xFE :: bytesOf 2 f.payload.length
  | .long => 0x81 :: 0xFF :: bytesOf 8 f.payload.length

/-- The payload, masked. -/
def masked (f : ClientFrame) : List UInt8 :=
  f.payload.mapIdx fun i x => x ^^^ f.mask ⟨i % 4, Nat.mod_lt i (by decide)⟩

/-- The bytes of a frame. -/
def encode (f : ClientFrame) : List UInt8 := f.header ++ List.ofFn f.mask ++ f.masked

end ClientFrame

/-- The frames of a client and the pieces in which their stream arrives. -/
structure Transfer where
  frames : List ClientFrame
  chunks : List (List UInt8)
  cut : chunks.flatten = frames.flatMap ClientFrame.encode

/-- The text of a message event. -/
def HttpEvent.message? : HttpEvent → Option (List UInt8)
  | .wsTextMessage _ msg => some msg
  | _ => none

/-- A read as the receiver's users see it: the messages it passes on. -/
def readFrames (c : HttpContext) (r : StreamRead) : List (List UInt8) × HttpContext :=
  ((onStreamRead c r).1.filterMap HttpEvent.message?, (onStreamRead c r).2)

/-- The frames are delivered, one message for each in order and an incomplete one kept, whatever is behind the buffer. -/
def Transfer.Received (x : Transfer) (c : HttpContext) : Prop :=
  ∀ rs : List StreamRead, rs.map StreamRead.data = x.chunks →
    Delivers ClientFrame.encode ClientFrame.payload StreamRead.data readFrames HttpContext.websocketBuffer
      { c with websocketBuffer := [] } x.frames rs

/-! ## Numbers -/

theorem wrap32_eq_ite (n : Int) : wrap32 n = if n % 2 ^ 32 < 2 ^ 31 then n % 2 ^ 32 else n % 2 ^ 32 - 2 ^ 32 := by
  unfold wrap32
  rw [Int.bmod_eq_emod]
  split <;> split <;> omega

theorem wrap32_of_lt {n : Nat} (h : n < 2 ^ 31) : wrap32 n = n := by
  rw [wrap32_eq_ite]
  split <;> omega

theorem wrap32_lt (n : Int) : wrap32 n < 2 ^ 31 := by
  rw [wrap32_eq_ite]
  split <;> omega

theorem length_bytesOf (n x : Nat) : (bytesOf n x).length = n := by
  induction n generalizing x with
  | zero => rfl
  | succ n ih => simp [bytesOf, ih]

namespace Memory

variable {m : Memory}

theorem get_of_getElem? {i : Nat} {x : UInt8} (h : m.bytes[i]? = some x) : m.get i = x := by
  unfold get
  rw [h]
  rfl

theorem bigEndian_two (i : Nat) : m.bigEndian i 2 = (m.get i).toNat * 256 + (m.get (i + 1)).toNat := by
  simp [bigEndian, List.range_succ]

theorem bigEndian_succ (i n : Nat) : m.bigEndian i (n + 1) = m.bigEndian i n * 256 + (m.get (i + n)).toNat := by
  unfold bigEndian
  rw [List.range_succ, List.foldl_append]
  rfl

/-- Eight bytes are a negative `int` exactly if the fifth of them is at least 128. -/
theorem bigEndian_neg (i : Nat) : wrap32 (m.bigEndian i 8) < 0 ↔ 128 ≤ (m.get (i + 4)).toNat := by
  have h4 := (m.get (i + 4)).toNat_lt
  have h5 := (m.get (i + 5)).toNat_lt
  have h6 := (m.get (i + 6)).toNat_lt
  have h7 := (m.get (i + 7)).toNat_lt
  rw [bigEndian_succ, bigEndian_succ, bigEndian_succ, bigEndian_succ, wrap32_eq_ite]
  push_cast
  split <;> omega

/-- The bytes of a number are read back. -/
theorem bigEndian_bytesOf (i n x : Nat) (h : ∀ j y, (bytesOf n x)[j]? = some y → m.get (i + j) = y) :
    m.bigEndian i n = x % 256 ^ n := by
  induction n generalizing x with
  | zero => simp [bigEndian, Nat.mod_one]
  | succ n ih =>
    have hlast : m.get (i + n) = UInt8.ofNat x := by
      refine h n _ ?_
      simp [bytesOf, length_bytesOf]
    have hinit : m.bigEndian i n = x / 256 % 256 ^ n := by
      refine ih (x / 256) fun j y hy => h j y ?_
      obtain ⟨hj, -⟩ := List.getElem?_eq_some_iff.1 hy
      rw [bytesOf, List.getElem?_append_left hj, hy]
    have hmod : x % 256 ^ (n + 1) = x % 256 + 256 * (x / 256 % 256 ^ n) := by
      rw [pow_succ', Nat.mod_mul]
    rw [bigEndian_succ, hinit, hlast, UInt8.toNat_ofNat', hmod]
    omega

end Memory

/-! ## A whole frame -/

namespace ClientFrame

variable (f : ClientFrame)

/-- The bytes of the header. -/
def headerLength (f : ClientFrame) : Nat :=
  match f.form with
  | .short => 2
  | .medium => 4
  | .long => 10

theorem length_header : f.header.length = f.headerLength := by
  unfold header headerLength
  cases f.form <;> simp [length_bytesOf]

theorem length_masked : f.masked.length = f.payload.length := by
  unfold masked
  exact List.length_mapIdx

theorem length_encode : f.encode.length = f.headerLength + 4 + f.payload.length := by
  unfold encode
  rw [List.length_append, List.length_append, length_header, List.length_ofFn, length_masked]

theorem headerLength_bounds : 2 ≤ f.headerLength ∧ f.headerLength ≤ 10 := by
  unfold headerLength
  cases f.form <;> simp

theorem encode_ne_nil : f.encode ≠ [] := by
  intro h
  have hlen := f.length_encode
  have hb := f.headerLength_bounds
  rw [h, List.length_nil] at hlen
  omega

/-- Every frame begins with the opcode of text and the bit of a last frame. -/
theorem encode_eq : ∃ l, f.encode = 0x81 :: l := by
  unfold encode header
  cases f.form <;> exact ⟨_, rfl⟩

variable {f} {m : Memory}

theorem get_header (hm : m.bytes = f.encode) {i : Nat} {x : UInt8} (hx : f.header[i]? = some x) : m.get i = x := by
  obtain ⟨hi, -⟩ := List.getElem?_eq_some_iff.1 hx
  refine Memory.get_of_getElem? ?_
  rw [hm, encode, List.append_assoc, List.getElem?_append_left hi, hx]

theorem get_mask (hm : m.bytes = f.encode) (j : Fin 4) : m.get (f.headerLength + j) = f.mask j := by
  have hj : f.headerLength + j < (f.header ++ List.ofFn f.mask).length := by
    rw [List.length_append, length_header, List.length_ofFn]
    omega
  refine Memory.get_of_getElem? ?_
  rw [hm, encode, List.getElem?_append_left hj, List.getElem?_append_right (by rw [length_header]; omega), length_header,
    Nat.add_sub_cancel_left, List.getElem?_ofFn, dif_pos j.isLt]

theorem get_masked (hm : m.bytes = f.encode) {i : Nat} (hi : i < f.payload.length) :
    m.get (f.headerLength + 4 + i) = f.payload[i] ^^^ f.mask ⟨i % 4, Nat.mod_lt i (by decide)⟩ := by
  have hlen : (f.header ++ List.ofFn f.mask).length = f.headerLength + 4 := by
    rw [List.length_append, length_header, List.length_ofFn]
  refine Memory.get_of_getElem? ?_
  rw [hm, encode, List.getElem?_append_right (by omega), hlen, Nat.add_sub_cancel_left, masked]
  simp [hi]

/-- Unmasking gives the payload. -/
theorem unmasked_eq (hm : m.bytes = f.encode) {i : Nat} (hi : i < f.payload.length) :
    m.unmasked (f.headerLength + 4) i = f.payload[i] := by
  unfold Memory.unmasked
  have hmask := get_mask hm ⟨i % 4, Nat.mod_lt i (by decide)⟩
  rw [get_masked hm hi, Nat.add_sub_cancel, hmask, UInt8.xor_assoc, UInt8.xor_self, UInt8.xor_zero]

theorem map_unmasked (hm : m.bytes = f.encode) :
    (List.range f.payload.length).map (m.unmasked (f.headerLength + 4)) = f.payload := by
  refine List.ext_getElem (by simp) ?_
  intro i h1 h2
  rw [List.getElem_map, List.getElem_range, unmasked_eq hm h2]

/-- The second byte of a header without the mask bit: the length, or the form it is written in. -/
def lengthField (f : ClientFrame) : Nat :=
  match f.form with
  | .short => f.payload.length
  | .medium => 126
  | .long => 127

/-- A short length with the mask bit. -/
theorem short_bits : ∀ n : Fin 126, ((0x80 ||| UInt8.ofNat n) >>> 7) &&& 0x01 = 1 ∧ ((0x80 ||| UInt8.ofNat n) &&& 0x7F).toNat = n := by
  decide

theorem get_one (hm : m.bytes = f.encode) : (m.get 1 >>> 7) &&& 0x01 = 1 ∧ ((m.get 1) &&& 0x7F).toNat = f.lengthField := by
  have hfits := f.fits
  have hget : ∀ x, f.header[1]? = some x → m.get 1 = x := fun x hx => get_header hm hx
  unfold header at hget
  unfold lengthField
  cases hform : f.form with
  | short =>
    rw [hform] at hfits
    rw [hget (0x80 ||| UInt8.ofNat f.payload.length) (by rw [hform]; rfl)]
    exact short_bits ⟨f.payload.length, Nat.lt_succ_of_le hfits⟩
  | medium =>
    rw [hget 0xFE (by rw [hform]; rfl)]
    exact ⟨rfl, rfl⟩
  | long =>
    rw [hget 0xFF (by rw [hform]; rfl)]
    exact ⟨rfl, rfl⟩

/-- The bytes of a length that is written out are read back. -/
theorem bigEndian_length (hm : m.bytes = f.encode) {a b : UInt8} {n : Nat} (hh : f.header = a :: b :: bytesOf n f.payload.length) :
    m.bigEndian 2 n = f.payload.length % 256 ^ n := by
  refine Memory.bigEndian_bytesOf 2 n f.payload.length fun j y hy => get_header hm ?_
  rw [hh, Nat.add_comm]
  exact hy

/-- The length that the header states. -/
theorem payloadLength_eq (hm : m.bytes = f.encode) (hlen : f.payload.length < 2 ^ 31) :
    m.payloadLength = ((f.payload.length : Int), f.headerLength) := by
  have hfits := f.fits
  have hone := (get_one hm).2
  unfold Memory.payloadLength
  simp only [hone]
  cases hform : f.form with
  | short =>
    rw [hform] at hfits
    have hle : f.payload.length ≤ 125 := hfits
    simp [lengthField, headerLength, hform, hle]
  | medium =>
    rw [hform] at hfits
    have hlt : f.payload.length < 65536 := hfits
    have hbig := bigEndian_length (n := 2) hm (by unfold header; rw [hform])
    simp only [lengthField, headerLength, hform, hbig]
    norm_num
    omega
  | long =>
    have hbig := bigEndian_length (n := 8) hm (by unfold header; rw [hform])
    have hmod : f.payload.length % 256 ^ 8 = f.payload.length := Nat.mod_eq_of_lt (by omega)
    rw [hmod] at hbig
    simp only [lengthField, headerLength, hform, hbig]
    norm_num
    exact wrap32_of_lt hlen

/-- A whole frame that is short enough is read as it was sent. -/
theorem getFrame_encode (hm : m.bytes = f.encode) (hlen : f.encode.length < 2 ^ 31) :
    ∃ buffer, webSocketGetFrame m = some ⟨.textFrame, f.payload, buffer⟩ := by
  have hl := f.length_encode
  have hb := f.headerLength_bounds
  have hp : f.payload.length < 2 ^ 31 := by omega
  have h0 : m.get 0 = 0x81 := by
    obtain ⟨l, he⟩ := f.encode_eq
    exact Memory.get_of_getElem? (by rw [hm, he]; rfl)
  have hin : wrap32 (m.bytes.length : Int) = f.encode.length := by rw [hm, wrap32_of_lt hlen]
  have hpos : wrap32 ((f.payload.length : Int) + f.headerLength) = f.payload.length + f.headerLength := by
    have := wrap32_of_lt (n := f.payload.length + f.headerLength) (by omega)
    push_cast at this
    exact this
  have hone := (get_one hm).1
  unfold webSocketGetFrame
  simp only [hin, payloadLength_eq hm hp, hpos, h0, hone]
  rw [if_neg (by omega), if_neg (by omega), if_neg (by omega), if_pos trivial, Int.toNat_natCast, map_unmasked hm]
  exact ⟨_, rfl⟩

end ClientFrame

/-! ## What a read does -/

section Read

variable {m : Memory}

/-- A buffer that does not begin with another opcode: reading a frame raises, finds it incomplete, or takes it for a whole text
frame, of a length that is its stated one. -/
theorem getFrame_cases (h0 : m.bytes = [] ∨ m.get 0 = 0x81) :
    (webSocketGetFrame m = none ∧ 2 ≤ wrap32 m.bytes.length ∧ m.payloadLength.1 < 0) ∨
    webSocketGetFrame m = some ⟨.incompleteFrame, [], m.bytes⟩ ∨
    ∃ p buffer, webSocketGetFrame m = some ⟨.textFrame, p, buffer⟩ ∧ 2 ≤ wrap32 m.bytes.length ∧
      0 ≤ m.payloadLength.1 ∧ p.length = m.payloadLength.1.toNat := by
  unfold webSocketGetFrame
  by_cases h1 : wrap32 m.bytes.length < 2
  · right; left
    simp only [h1, if_true]
  have hget : m.get 0 = 0x81 := by
    rcases h0 with h0 | h0
    · rw [h0] at h1
      exact absurd (by decide) h1
    · exact h0
  simp only [h1, if_false]
  split
  · exact .inr (.inl rfl)
  · split
    · rename_i hneg
      exact .inl ⟨rfl, by omega, hneg⟩
    · rename_i hneg
      right; right
      rw [hget]
      split
      · exact ⟨_, _, rfl, by omega, by omega, by simp⟩
      · exact ⟨_, _, rfl, by omega, by omega, by simp⟩

/-- A negative length is seen once the fifth byte of a long form has arrived. -/
def Negative (m : Memory) : Prop := 7 ≤ m.bytes.length ∧ m.get 0 = 0x81 ∧ ((m.get 1) &&& 0x7F).toNat = 127 ∧ 128 ≤ (m.get 6).toNat

theorem Negative.payloadLength (h : Negative m) : m.payloadLength.1 < 0 := by
  obtain ⟨-, -, h1, h6⟩ := h
  unfold Memory.payloadLength
  simp only [h1]
  norm_num
  exact (Memory.bigEndian_neg 2).2 h6

/-- With nothing but zeros behind the buffer, a negative length has arrived. -/
theorem negative_of_payloadLength (h0 : m.get 0 = 0x81) (hz : ∀ i, m.beyond i = 0) (h : m.payloadLength.1 < 0) : Negative m := by
  unfold Memory.payloadLength at h
  dsimp only at h
  split at h
  · omega
  · split at h
    · omega
    · have hlt := (m.get 1 &&& 0x7F).toNat_lt
      have hand : ((m.get 1) &&& 0x7F).toNat ≤ 127 := by
        rw [UInt8.toNat_and]
        exact Nat.and_le_right
      dsimp only at h
      have h6 := (Memory.bigEndian_neg 2).1 h
      refine ⟨?_, h0, by omega, h6⟩
      by_contra hlen
      have hnone : m.bytes[6]? = none := List.getElem?_eq_none_iff.2 (by omega)
      unfold Memory.get at h6
      rw [hnone] at h6
      simp [hz] at h6

/-- More bytes behind do not change what has arrived. -/
theorem Negative.append (h : Negative m) (l : List UInt8) (beyond : Nat → UInt8) : Negative ⟨m.bytes ++ l, beyond⟩ := by
  obtain ⟨hlen, h0, h1, h6⟩ := h
  have hget : ∀ i < 7, Memory.get ⟨m.bytes ++ l, beyond⟩ i = m.get i := by
    intro i hi
    have hi' : i < m.bytes.length := by omega
    refine Memory.get_of_getElem? ?_
    rw [List.getElem?_append_left hi', List.getElem?_eq_getElem hi',
      Memory.get_of_getElem? (List.getElem?_eq_getElem hi')]
  refine ⟨?_, ?_, ?_, ?_⟩
  · rw [List.length_append]
    omega
  · rw [hget 0 (by omega), h0]
  · rw [hget 1 (by omega), h1]
  · rw [hget 6 (by omega)]
    exact h6

end Read

/-! ## A run of reads -/

variable {c : HttpContext} {r : StreamRead}

/-- The reads by what is found in the buffer. -/
theorem readFrames_none (h : webSocketGetFrame ⟨c.websocketBuffer ++ r.data, r.beyond⟩ = none) :
    readFrames c r = ([], { c with websocketBuffer := c.websocketBuffer ++ r.data }) := by
  unfold readFrames onStreamRead
  rw [h]
  rfl

theorem readFrames_incomplete {p buffer : List UInt8}
    (h : webSocketGetFrame ⟨c.websocketBuffer ++ r.data, r.beyond⟩ = some ⟨.incompleteFrame, p, buffer⟩) :
    readFrames c r = ([p], { c with websocketBuffer := buffer }) := by
  unfold readFrames onStreamRead
  rw [h]
  rfl

theorem readFrames_text {p buffer : List UInt8}
    (h : webSocketGetFrame ⟨c.websocketBuffer ++ r.data, r.beyond⟩ = some ⟨.textFrame, p, buffer⟩) :
    readFrames c r = ([p], { c with websocketBuffer := [] }) := by
  unfold readFrames onStreamRead
  rw [h]
  rfl

/-- A read of a buffer with a negative length keeps everything. -/
theorem readFrames_negative {b : Nat → UInt8} (h : Negative ⟨c.websocketBuffer, b⟩) :
    (readFrames c r).2.websocketBuffer = c.websocketBuffer ++ r.data := by
  have hneg := h.append r.data r.beyond
  rcases getFrame_cases (.inr hneg.2.1) with ⟨he, -, -⟩ | he | ⟨p, buffer, -, -, hpos, -⟩
  · rw [readFrames_none he]
  · rw [readFrames_incomplete he]
  · exact absurd hneg.payloadLength (by omega)

/-- From a negative length on the buffer only grows. -/
theorem run_negative (rs : List StreamRead) {c : HttpContext} {b : Nat → UInt8} (h : Negative ⟨c.websocketBuffer, b⟩) :
    (run readFrames c rs).2.websocketBuffer = c.websocketBuffer ++ rs.flatMap StreamRead.data := by
  induction rs generalizing c b with
  | nil => simp
  | cons r rs ih =>
    have hr := readFrames_negative (r := r) h
    have hnext := h.append r.data b
    rw [run_cons, List.flatMap_cons, ← List.append_assoc, ← hr]
    exact ih (c := (readFrames c r).2) (b := b) (by rw [hr]; exact hnext)

/-- A read that brings one whole frame. -/
theorem readFrames_encode {f : ClientFrame} (hc : c.websocketBuffer = []) (hr : r.data = f.encode)
    (hlen : f.encode.length < 2 ^ 31) : readFrames c r = ([f.payload], { c with websocketBuffer := [] }) := by
  have hm : c.websocketBuffer ++ r.data = f.encode := by rw [hc, hr, List.nil_append]
  obtain ⟨buffer, hg⟩ := ClientFrame.getFrame_encode (m := ⟨c.websocketBuffer ++ r.data, r.beyond⟩) hm hlen
  exact readFrames_text hg

/-- The first byte of a part of the stream. -/
theorem get_zero {fs : List ClientFrame} {l rest : List UInt8} (h : l ++ rest = fs.flatMap ClientFrame.encode)
    (beyond : Nat → UInt8) : l = [] ∨ Memory.get ⟨l, beyond⟩ 0 = 0x81 := by
  cases l with
  | nil => exact .inl rfl
  | cons x l =>
    right
    cases fs with
    | nil => cases h
    | cons f fs =>
      obtain ⟨l', he⟩ := f.encode_eq
      rw [List.flatMap_cons, he] at h
      exact Memory.get_of_getElem? (congrArg some (List.cons.inj h).1)

/-- A negative length in the buffer is never got rid of. -/
theorem not_all_of_negative {fs : List ClientFrame} {l : List UInt8} {rs : List StreamRead} (hc : c.websocketBuffer = [])
    (hr : r.data = l) (he : webSocketGetFrame ⟨l, r.beyond⟩ = none) (hN : Negative ⟨l, r.beyond⟩)
    (hcut : (r :: rs).flatMap StreamRead.data = fs.flatMap ClientFrame.encode) :
    ¬ Delivers ClientFrame.encode ClientFrame.payload StreamRead.data readFrames HttpContext.websocketBuffer c fs (r :: rs) := by
  intro h
  have hrec : (readFrames c r).2.websocketBuffer = l := by
    rw [readFrames_none (by rw [hc, List.nil_append, hr]; exact he), hc, List.nil_append, hr]
  have hall := (h.all hcut).2
  have hrun := run_negative rs (c := (readFrames c r).2) (b := r.beyond) (by rw [hrec]; exact hN)
  rw [run_cons] at hall
  rw [hall, hrec] at hrun
  have hlen := hN.1
  rw [(List.append_eq_nil_iff.1 hrun.symm).1] at hlen
  exact absurd hlen (by simp)

/-- The size of a frame whose payload is read back from a whole buffer. -/
theorem short_of_text {f : ClientFrame} {m : Memory} (hm : m.bytes = f.encode) (hin : 2 ≤ wrap32 m.bytes.length)
    (hpos : 0 ≤ m.payloadLength.1) (hlen : f.payload.length = m.payloadLength.1.toNat) : f.encode.length < 2 ^ 31 := by
  have hl := f.length_encode
  have hb := f.headerLength_bounds
  have hp : m.payloadLength.1 < 2 ^ 31 := by
    unfold Memory.payloadLength
    dsimp only
    split
    · dsimp only
      omega
    · split
      · rw [Memory.bigEndian_two]
        have h2 := (m.get 2).toNat_lt
        have h3 := (m.get (2 + 1)).toNat_lt
        dsimp only
        omega
      · dsimp only
        exact wrap32_lt _
  rw [hm, wrap32_eq_ite] at hin
  split at hin <;> omega

/-- If the frames are delivered with nothing but zeros behind the buffer, every read brings a whole one. -/
theorem whole_of_delivers {fs : List ClientFrame} {chunks : List (List UInt8)} {c : HttpContext} (hc : c.websocketBuffer = [])
    (hcut : chunks.flatten = fs.flatMap ClientFrame.encode)
    (h : Delivers ClientFrame.encode ClientFrame.payload StreamRead.data readFrames HttpContext.websocketBuffer c fs
      (chunks.map fun l => { data := l })) :
    chunks = fs.map ClientFrame.encode ∧ ∀ f ∈ fs, f.encode.length < 2 ^ 31 := by
  induction chunks generalizing fs c with
  | nil =>
    cases fs with
    | nil => exact ⟨rfl, nofun⟩
    | cons f fs =>
      rw [List.flatMap_cons] at hcut
      exact absurd (List.append_eq_nil_iff.1 hcut.symm).1 f.encode_ne_nil
  | cons l chunks ih =>
    have hdata : ∀ ls : List (List UInt8), (ls.map fun l => ({ data := l } : StreamRead)).flatMap StreamRead.data = ls.flatten := by
      intro ls
      induction ls with
      | nil => rfl
      | cons l ls ih => rw [List.map_cons, List.flatMap_cons, ih, List.flatten_cons]
    rw [List.map_cons] at h
    obtain ⟨done, harr, hmsg⟩ := h [{ data := l }] (chunks.map fun l => { data := l }) rfl
    rw [run_singleton] at harr hmsg
    rw [show [({ data := l } : StreamRead)].flatMap StreamRead.data = l by simp] at harr
    have hcut' : l ++ chunks.flatten = fs.flatMap ClientFrame.encode := by rw [← hcut, List.flatten_cons]
    have h0 := get_zero hcut' fun _ => 0
    rcases getFrame_cases (m := ⟨l, fun _ => 0⟩) h0 with ⟨he, hin, hneg⟩ | he | ⟨p, buffer, he, hin, hpos, hplen⟩
    · -- the length is negative, so nothing is ever passed on, although everything arrives
      exfalso
      have hget : Memory.get ⟨l, fun _ => 0⟩ 0 = 0x81 := by
        rcases h0 with rfl | h0
        · exact absurd hin (by decide)
        · exact h0
      have hN := negative_of_payloadLength hget (fun _ => rfl) hneg
      refine not_all_of_negative (r := { data := l }) hc rfl he hN ?_ h
      rw [List.flatMap_cons, hdata]
      exact hcut'
    · -- a message for an incomplete frame
      exfalso
      rw [readFrames_incomplete (by rw [hc, List.nil_append]; exact he)] at harr hmsg
      cases done with
      | nil => cases hmsg
      | cons f done =>
        have hlen := congrArg List.length harr.bytes
        have hf := List.length_pos_of_ne_nil f.encode_ne_nil
        rw [List.flatMap_cons, List.length_append, List.length_append] at hlen
        dsimp only at hlen
        omega
    · have hrec : readFrames c { data := l } = ([p], { c with websocketBuffer := [] }) :=
        readFrames_text (by rw [hc, List.nil_append]; exact he)
      rw [hrec] at harr hmsg
      obtain ⟨f, rfl, rfl⟩ : ∃ f, done = [f] ∧ f.payload = p := by
        cases done with
        | nil => cases hmsg
        | cons f done =>
          obtain ⟨h1, h2⟩ := List.cons.inj hmsg
          obtain rfl := List.map_eq_nil_iff.1 h2.symm
          exact ⟨f, rfl, h1.symm⟩
      have hl : l = f.encode := by simpa using harr.bytes
      obtain ⟨todo, hfs, -⟩ := harr.split
      rw [List.singleton_append] at hfs
      subst hfs
      have hshort : f.encode.length < 2 ^ 31 := short_of_text (m := ⟨l, fun _ => 0⟩) hl hin hpos hplen
      have htail := h.tail hl (by rw [hrec])
      rw [hrec] at htail
      rw [List.flatMap_cons, hl] at hcut'
      obtain ⟨h1, h2⟩ := ih rfl (List.append_cancel_left hcut') htail
      refine ⟨by rw [List.map_cons, hl, h1], ?_⟩
      intro g hg
      rcases List.mem_cons.1 hg with rfl | hg
      · exact hshort
      · exact h2 g hg

/-- The frames of a client are received exactly if every read brings one of them, whole and alone, of less than `2 ^ 31` bytes. -/
theorem frames_received (x : Transfer) (c : HttpContext) :
    x.Received c ↔ x.chunks = x.frames.map ClientFrame.encode ∧ ∀ f ∈ x.frames, f.encode.length < 2 ^ 31 := by
  constructor
  · intro h
    refine whole_of_delivers (c := { c with websocketBuffer := [] }) rfl x.cut (h _ ?_)
    rw [List.map_map]
    exact List.map_id _
  · rintro ⟨hchunks, hshort⟩ rs hrs
    rw [hchunks] at hrs
    clear hchunks
    generalize x.frames = fs at hrs hshort
    induction fs generalizing rs with
    | nil =>
      obtain rfl := List.map_eq_nil_iff.1 hrs
      intro pre post hsplit
      obtain ⟨rfl, -⟩ := List.append_eq_nil_iff.1 hsplit.symm
      exact ⟨[], Arrived.nil ClientFrame.encode_ne_nil, rfl⟩
    | cons f fs ih =>
      cases rs with
      | nil => cases hrs
      | cons r rs =>
        obtain ⟨hr, hrest⟩ := List.cons.inj hrs
        have hrec := readFrames_encode (c := { c with websocketBuffer := [] }) rfl hr (hshort f List.mem_cons_self)
        refine Delivers.cons ClientFrame.encode_ne_nil hr (by rw [hrec]) rfl ?_
        rw [hrec]
        exact ih rs hrest fun g hg => hshort g (List.mem_cons_of_mem _ hg)

/-- The text `hi` in a frame whose first byte arrives alone. -/
def cutTransfer : Transfer where
  frames := [{ form := .short, mask := fun _ => 0, payload := [104, 105], fits := by unfold LengthForm.Fits; decide }]
  chunks := [[0x81], [0x82, 0, 0, 0, 0, 104, 105]]
  cut := by decide

/-- A message is passed on although only a part of the frame has arrived. -/
theorem frames_received_false : ¬ ∀ (x : Transfer) (c : HttpContext), x.Received c := by
  intro h
  have hdel := h cutTransfer {} [{ data := [0x81] }, { data := [0x82, 0, 0, 0, 0, 104, 105] }] rfl
  obtain ⟨done, harr, hmsg⟩ := hdel [{ data := [0x81] }] _ rfl
  have hget : webSocketGetFrame ⟨[0x81], fun _ => 0⟩ = some ⟨.incompleteFrame, [], [0x81]⟩ := by
    have hin : wrap32 (([0x81] : List UInt8).length : Int) < 2 := by decide
    unfold webSocketGetFrame
    dsimp only
    rw [if_pos hin]
  have hrec := readFrames_incomplete (c := { ({} : HttpContext) with websocketBuffer := [] }) (r := { data := [0x81] }) hget
  rw [run_singleton, hrec] at harr hmsg
  cases done with
  | nil => cases hmsg
  | cons f done =>
    have hbytes : [0x81] = (f :: done).flatMap ClientFrame.encode ++ [0x81] := harr.bytes
    have hlen := congrArg List.length hbytes
    rw [List.flatMap_cons, List.length_append, List.length_append, f.length_encode] at hlen
    simp at hlen

end Grain
