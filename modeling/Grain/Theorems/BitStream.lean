import Grain.BitStream
import Grain.Theorems.IoBuffer

/-!
# Bit streams come back

What was written comes back, read for write at the same position, exactly if every unsigned number is below `2 ^ 63`, no signed
number is negative, every string is shorter than `2 ^ 31`, and no bit field goes past the allocated bytes
(`bitsRecovered_iff`). The number operators start at bit 56, and so leave bit 63 out.
-/

namespace Grain

open Bits

/-- Every read gives what was written and ends where the write ended. -/
def BitsRecovered (memory : Nat → Char) (items : List BitItem) : Prop :=
  ∃ ps data, writeStream memory items = .ok (ps, data) ∧
    (InBitStream.new data).readAll (items.map BitItem.kind) = some (items.zip ps)

/-- What a write needs: bit 63 is not set, the length of a string is an `int`, and a field that reaches into a byte more than
`adjust` looks for does not meet the end of the allocated bytes. -/
def BitItem.Kept (o : OutBitStream) : BitItem → Prop
  | .bits bitcount _ => ¬(o.mPos.pos + bitcount / 8 + 1 = o.bufsize ∧ o.mPos.bitsRemainsInByte < bitcount % 8)
  | .unsigned n => n < 2 ^ 63
  | .signed n => 0 ≤ n
  | .str s => s.length < 2 ^ 31
  | .tlv _ => True

/-- Every write has what it needs in the state before it. -/
def OutBitStream.Keeps (o : OutBitStream) : List BitItem → Prop
  | [] => True
  | x :: l => x.Kept o ∧ ∀ o', o.write x = .ok o' → o'.Keeps l

/-! ## Positions -/

/-- The position after `n` bits. -/
def BitsPosition.ofBits (n : Nat) : BitsPosition := ⟨n / 8, 8 - n % 8⟩

namespace BitsPosition

theorem next_ofBits (n : Nat) : (ofBits n).next = ofBits (n + 1) := by
  rw [next, ofBits, ofBits]
  by_cases h : n % 8 = 7
  · have h1 : (n + 1) / 8 = n / 8 + 1 := by omega
    have h2 : (n + 1) % 8 = 0 := by omega
    rw [if_pos (by dsimp only; omega), h1, h2]
  · have h1 : (n + 1) / 8 = n / 8 := by omega
    have h2 : 8 - (n + 1) % 8 = 8 - n % 8 - 1 := by omega
    rw [if_neg (by dsimp only; omega), h1, h2]

theorem ofBits_mul (k : Nat) : ofBits (8 * k) = ⟨k, 8⟩ := by
  rw [ofBits]
  congr 1 <;> omega

theorem aligned_iff (n : Nat) : (ofBits n).bitsRemainsInByte = 8 ↔ n % 8 = 0 := by
  rw [ofBits]
  dsimp only
  omega

theorem eq_of_aligned {n : Nat} (h : (ofBits n).bitsRemainsInByte = 8) : ∃ k, n = 8 * k ∧ ofBits n = ⟨k, 8⟩ := by
  obtain ⟨k, rfl⟩ := Nat.dvd_of_mod_eq_zero ((aligned_iff n).1 h)
  exact ⟨k, rfl, ofBits_mul k⟩

end BitsPosition

open BitsPosition (ofBits)

/-! ## Writing -/

namespace OutBitStream

/-- The bits a stream holds: its full bytes, then the low end of the byte it is in. -/
def bits (o : OutBitStream) : List Bool :=
  ofBytes ((List.range o.mPos.pos).map o.buffer) ++ bitsOf (8 - o.mPos.bitsRemainsInByte) (o.buffer o.mPos.pos).toNat

/-- The stream holds these bits and no more. -/
structure Holds (o : OutBitStream) (l : List Bool) : Prop where
  position : o.mPos = ofBits l.length
  bits : o.bits = l
  bytes : ∀ i < o.mPos.pos, (o.buffer i).toNat < 256

theorem holds_new (memory : Nat → Char) : (new memory).Holds [] where
  position := rfl
  bits := rfl
  bytes i hi := absurd hi (Nat.not_lt_zero i)

@[simp]
theorem adjust_mPos (o : OutBitStream) (n : Nat) : (o.adjust n).mPos = o.mPos := by
  unfold adjust
  split <;> rfl

@[simp]
theorem adjust_buffer (o : OutBitStream) (n : Nat) : (o.adjust n).buffer = o.buffer := by
  unfold adjust
  split <;> rfl

/-- After `adjust` the bytes asked for are there, and if it had to allocate there are many more. -/
theorem adjust_bufsize (o : OutBitStream) (n : Nat) :
    o.mPos.pos + n < o.bufsize ∧ (o.adjust n).bufsize = o.bufsize ∨
      o.bufsize ≤ o.mPos.pos + n ∧ (o.adjust n).bufsize = o.mPos.pos + n + 1024 := by
  unfold adjust
  split
  · exact .inr ⟨by assumption, rfl⟩
  · exact .inl ⟨by omega, rfl⟩

theorem lt_adjust_bufsize (o : OutBitStream) (n : Nat) : o.mPos.pos + n < (o.adjust n).bufsize := by
  rcases o.adjust_bufsize n with h | h <;> omega

theorem Holds.adjust {o : OutBitStream} {l : List Bool} (h : o.Holds l) (n : Nat) : (o.adjust n).Holds l where
  position := by rw [adjust_mPos, h.position]
  bits := by rw [OutBitStream.bits, adjust_mPos, adjust_buffer]; exact h.bits
  bytes := by rw [adjust_mPos, adjust_buffer]; exact h.bytes

/-- What is written at the position does not touch the full bytes. -/
theorem map_update (buffer : Nat → Char) (pos : Nat) (c : Char) :
    (List.range pos).map (Function.update buffer pos c) = (List.range pos).map buffer := by
  refine List.map_congr_left ?_
  intro i hi
  exact Function.update_of_ne (Nat.ne_of_lt (List.mem_range.1 hi)) _ _

theorem bytes_update {buffer : Nat → Char} {pos : Nat} {c : Char} (h : ∀ i < pos, (buffer i).toNat < 256) (hc : c.toNat < 256) :
    ∀ i < pos + 1, (Function.update buffer pos c i).toNat < 256 := by
  intro i hi
  by_cases hip : i = pos
  · rw [hip, Function.update_self]
    exact hc
  · rw [Function.update_of_ne hip]
    exact h i (by omega)

theorem putBit_holds {o : OutBitStream} {l : List Bool} (h : o.Holds l) (hlt : o.mPos.pos < o.bufsize) (b : Bool) :
    ∃ o', o.putBit b = .ok o' ∧ o'.Holds (l ++ [b]) ∧ o'.bufsize = o.bufsize := by
  obtain ⟨hpos, hbits, hbytes⟩ := h
  have hrem : o.mPos.bitsRemainsInByte = 8 - l.length % 8 := by rw [hpos, ofBits]
  generalize hx : (o.buffer o.mPos.pos).toNat = x at *
  have hc : (Char.ofNat (x * 2 % 256 + b.toNat)).toNat = x % 2 ^ 7 * 2 + b.toNat := by
    have hb : b.toNat ≤ 1 := Bool.toNat_le b
    rw [toNat_ofNat (by omega)]
    omega
  have hput : o.putBit b = .ok { o with
      buffer := Function.update o.buffer o.mPos.pos (Char.ofNat (x * 2 % 256 + b.toNat)), mPos := o.mPos.next } := by
    rw [putBit, if_neg (by omega), hx]
  refine ⟨_, hput, ⟨?_, ?_, ?_⟩, rfl⟩
  · dsimp only
    rw [hpos, BitsPosition.next_ofBits, List.length_append, List.length_singleton]
  · rw [← hbits]
    unfold bits
    rw [hx, List.append_assoc]
    dsimp only
    by_cases hlast : o.mPos.bitsRemainsInByte = 1
    · rw [BitsPosition.next, if_pos hlast, List.range_succ, List.map_append, map_update, ofBytes_append, hlast]
      rw [List.map_singleton, Function.update_self, ofBytes_singleton, hc, bitsOf_shift 7, bitsOf_mod (Nat.le_refl 7),
        Nat.sub_self, bitsOf_zero, List.append_nil]
    · have hw : 8 - (o.mPos.bitsRemainsInByte - 1) = 8 - o.mPos.bitsRemainsInByte + 1 := by omega
      rw [BitsPosition.next, if_neg hlast]
      dsimp only
      rw [map_update, Function.update_self, hc, hw, bitsOf_shift, bitsOf_mod (by omega)]
  · have hle : (o.mPos.next).pos ≤ o.mPos.pos + 1 := by
      rw [BitsPosition.next]
      split <;> simp
    intro i hi
    refine bytes_update hbytes ?_ i (Nat.lt_of_lt_of_le hi hle)
    have hb : b.toNat ≤ 1 := Bool.toNat_le b
    omega

/-- A bit is written only inside the allocated bytes. -/
theorem lt_of_putBit {o o' : OutBitStream} {b : Bool} (h : o.putBit b = .ok o') : o.mPos.pos < o.bufsize := by
  unfold putBit at h
  split at h
  · cases h
  · omega

theorem putBitsLoop_holds {o : OutBitStream} {l : List Bool} {w : Nat} (h : o.Holds l) (hlen : l.length + w ≤ 8 * o.bufsize)
    (val : Nat) : ∃ o', o.putBitsLoop val w = .ok o' ∧ o'.Holds (l ++ bitsOf w val) := by
  induction w generalizing o l with
  | zero => exact ⟨o, rfl, by rw [bitsOf, List.append_nil]; exact h⟩
  | succ w ih =>
    have hpos : o.mPos.pos = l.length / 8 := by rw [h.position, ofBits]
    obtain ⟨o1, hput, h1, hsize⟩ := putBit_holds h (by omega) (val.testBit w)
    obtain ⟨o2, hloop, h2⟩ := ih h1 (by rw [List.length_append, List.length_singleton, hsize]; omega)
    refine ⟨o2, ?_, ?_⟩
    · rw [putBitsLoop, hput]
      exact hloop
    · rw [List.append_assoc] at h2
      exact h2

/-- The loop succeeds only inside the allocated bytes. -/
theorem putBitsLoop_inside {o o' : OutBitStream} {l : List Bool} {val w : Nat} (h : o.Holds l)
    (hloop : o.putBitsLoop val w = .ok o') : w = 0 ∨ l.length + w ≤ 8 * o.bufsize := by
  induction w generalizing o l with
  | zero => exact .inl rfl
  | succ w ih =>
    have hpos : o.mPos.pos = l.length / 8 := by rw [h.position, ofBits]
    rw [putBitsLoop] at hloop
    cases hput : o.putBit (val.testBit w) with
    | error e =>
      rw [hput] at hloop
      cases hloop
    | ok o1 =>
      have hlt := lt_of_putBit hput
      obtain ⟨o1', hput', h1, hsize⟩ := putBit_holds h hlt (val.testBit w)
      rw [hput] at hput'
      cases hput'
      rw [hput] at hloop
      have hlen := ih h1 hloop
      rw [List.length_append, List.length_singleton, hsize] at hlen
      omega

/-- A bit field is written, unless it meets the end of the allocated bytes. -/
theorem putBits_iff {o : OutBitStream} {l : List Bool} (h : o.Holds l) (val w : Nat) :
    (∃ o', o.putBits val w = .ok o') ↔
      ¬(o.mPos.pos + w / 8 + 1 = o.bufsize ∧ o.mPos.bitsRemainsInByte < w % 8) := by
  have hpos : o.mPos.pos = l.length / 8 := by rw [h.position, ofBits]
  have hrem : o.mPos.bitsRemainsInByte = 8 - l.length % 8 := by rw [h.position, ofBits]
  rw [putBits, if_neg (by omega)]
  have hsize := o.adjust_bufsize (w / 8)
  constructor
  · rintro ⟨o', hloop⟩
    have := putBitsLoop_inside (h.adjust _) hloop
    omega
  · intro hin
    obtain ⟨o', hloop, -⟩ := putBitsLoop_holds (h.adjust (w / 8)) (w := w) (by omega) val
    exact ⟨o', hloop⟩

theorem holds_of_putBits {o o' : OutBitStream} {l : List Bool} {val w : Nat} (h : o.Holds l) (hput : o.putBits val w = .ok o') :
    o'.Holds (l ++ bitsOf w val) := by
  have hrem : o.mPos.bitsRemainsInByte = 8 - l.length % 8 := by rw [h.position, ofBits]
  rw [putBits, if_neg (by omega)] at hput
  rcases putBitsLoop_inside (h.adjust _) hput with hw | hlen
  · rw [hw] at hput ⊢
    cases hput
    rw [bitsOf, List.append_nil]
    exact h.adjust _
  · obtain ⟨o2, hloop, h2⟩ := putBitsLoop_holds (h.adjust (w / 8)) hlen val
    rw [hput] at hloop
    cases hloop
    exact h2

/-- A field whose odd bits go into the byte that the stream is in. -/
theorem putBits_holds {o : OutBitStream} {l : List Bool} (h : o.Holds l) (val : Nat) {w : Nat} (hw : w % 8 ≤ 8 - l.length % 8) :
    ∃ o', o.putBits val w = .ok o' ∧ o'.Holds (l ++ bitsOf w val) := by
  have hrem : o.mPos.bitsRemainsInByte = 8 - l.length % 8 := by rw [h.position, ofBits]
  obtain ⟨o', hput⟩ := (putBits_iff h val w).2 (by omega)
  exact ⟨o', hput, holds_of_putBits h hput⟩

/-! ### AllBytes -/

theorem put8_holds {o : OutBitStream} {l : List Bool} (h : o.Holds l) (halign : l.length % 8 = 0) (hlt : o.mPos.pos < o.bufsize)
    {c : Char} (hc : c.toNat < 256) :
    ∃ o', o.put8 c = .ok o' ∧ o'.Holds (l ++ bitsOf 8 c.toNat) ∧ o'.bufsize = o.bufsize ∧ o'.mPos.pos = o.mPos.pos + 1 := by
  obtain ⟨hpos, hbits, hbytes⟩ := h
  have hrem : o.mPos.bitsRemainsInByte = 8 := by
    rw [hpos]
    exact (BitsPosition.aligned_iff _).2 halign
  have hp : o.mPos.pos = l.length / 8 := by rw [hpos, ofBits]
  have hput : o.put8 c = .ok { o with buffer := Function.update o.buffer o.mPos.pos c, mPos := ⟨o.mPos.pos + 1, 8⟩ } := by
    rw [put8, if_neg (not_not.2 hrem), if_neg (by omega)]
  refine ⟨_, hput, ⟨?_, ?_, ?_⟩, rfl, rfl⟩
  · dsimp only
    rw [List.length_append, length_bitsOf, ofBits]
    congr 1 <;> omega
  · rw [bits, hrem, Nat.sub_self, bitsOf, List.append_nil] at hbits
    rw [← hbits, bits]
    dsimp only
    rw [List.range_succ, List.map_append, map_update, ofBytes_append, Nat.sub_self, bitsOf_zero, List.append_nil,
      List.map_singleton, Function.update_self, ofBytes_singleton]
  · exact bytes_update hbytes hc

theorem put8s_holds {o : OutBitStream} {l : List Bool} {m : Buffer} (h : o.Holds l) (halign : l.length % 8 = 0)
    (hlen : o.mPos.pos + m.length ≤ o.bufsize) (hm : AllBytes m) :
    ∃ o', o.put8s m = .ok o' ∧ o'.Holds (l ++ ofBytes m) ∧ o'.bufsize = o.bufsize := by
  induction m generalizing o l with
  | nil => exact ⟨o, rfl, by rw [ofBytes, List.flatMap_nil, List.append_nil]; exact h, rfl⟩
  | cons c m ih =>
    rw [List.length_cons] at hlen
    obtain ⟨o1, hput, h1, hsize, hpos⟩ := put8_holds h halign (by omega) (hm c List.mem_cons_self)
    obtain ⟨o2, hputs, h2, hsize2⟩ := ih h1 (by rw [List.length_append, length_bitsOf]; omega) (by omega)
      fun a ha => hm a (List.mem_cons_of_mem _ ha)
    refine ⟨o2, ?_, ?_, by omega⟩
    · rw [put8s, hput]
      exact hputs
    · rw [ofBytes_cons, ← List.append_assoc]
      exact h2

/-- No byte goes into the middle of a byte. -/
theorem put8s_boundary {o : OutBitStream} (h : o.mPos.bitsRemainsInByte ≠ 8) {m : Buffer} (hm : 0 < m.length) :
    o.put8s m = .error .boundary := by
  cases m with
  | nil => cases hm
  | cons c m =>
    rw [put8s, put8, if_pos h]
    rfl

end OutBitStream

/-! ### Numbers -/

theorem bytes_putGroups (n k : Nat) : AllBytes (putGroups n k) := by
  induction k with
  | zero =>
    intro c hc
    rw [List.mem_singleton.1 hc, toNat_ofNat (by omega)]
    omega
  | succ k ih =>
    intro c hc
    rcases List.mem_cons.1 hc with rfl | hc
    · rw [toNat_ofNat (by omega)]
      omega
    · exact ih c hc

theorem bytes_skipGroups (n k : Nat) : AllBytes (skipGroups n k) := by
  induction k with
  | zero => exact bytes_putGroups n 0
  | succ k ih =>
    rw [skipGroups]
    split
    · exact bytes_putGroups n (k + 1)
    · exact ih

theorem length_skipGroups (n k : Nat) : 0 < (skipGroups n k).length ∧ (skipGroups n k).length ≤ k + 1 := by
  induction k with
  | zero =>
    rw [skipGroups, length_putGroups]
    omega
  | succ k ih =>
    rw [skipGroups]
    split
    · rw [length_putGroups]
      omega
    · omega

/-- A number below `128 ^ j` takes at most `j` bytes. -/
theorem length_skipGroups_le {n j : Nat} (hj : 0 < j) (h : n < 128 ^ j) (k : Nat) : (skipGroups n k).length ≤ j := by
  induction k with
  | zero => exact Nat.le_trans (length_skipGroups n 0).2 hj
  | succ k ih =>
    rw [skipGroups]
    split
    · rename_i hne
      rw [length_putGroups]
      by_contra hlt
      have hpow : 128 ^ j ≤ 128 ^ (k + 1) := Nat.pow_le_pow_right (by decide) (by omega)
      rw [Nat.div_eq_of_lt (Nat.lt_of_lt_of_le h hpow)] at hne
      exact hne rfl
    · exact ih

namespace OutBitStream

theorem put8s_numbers {o : OutBitStream} {l : List Bool} (h : o.Holds l) (halign : o.mPos.bitsRemainsInByte = 8) (n : Nat) :
    ∃ o', (o.adjust 10).put8s (skipGroups n 8) = .ok o' ∧ o'.Holds (l ++ ofBytes (skipGroups n 8)) ∧
      o.bufsize ≤ o'.bufsize := by
  have hlen := (length_skipGroups n 8).2
  have hroom := o.lt_adjust_bufsize 10
  have hsize := o.adjust_bufsize 10
  rw [h.position, BitsPosition.aligned_iff] at halign
  obtain ⟨o', hput, h', hsize'⟩ := put8s_holds (h.adjust 10) halign (by rw [adjust_mPos]; omega) (bytes_skipGroups n 8)
  exact ⟨o', hput, h', by omega⟩

theorem numbers_boundary {o : OutBitStream} (h : o.mPos.bitsRemainsInByte ≠ 8) (n : Nat) :
    (o.adjust 10).put8s (skipGroups n 8) = .error .boundary := by
  refine put8s_boundary ?_ (length_skipGroups n 8).1
  rw [adjust_mPos]
  exact h

/-! ### Strings -/

theorem map_copy (buffer : Nat → Char) (pos : Nat) (l : Buffer) :
    (List.range (pos + l.length)).map (copy buffer pos l) = (List.range pos).map buffer ++ l := by
  rw [List.range_add, List.map_append, List.map_map]
  congr 1
  · refine List.map_congr_left ?_
    intro i hi
    rw [copy, if_pos (List.mem_range.1 hi)]
  · refine List.ext_getElem (by rw [List.length_map, List.length_range]) ?_
    intro i hi hl
    rw [List.getElem_map, List.getElem_range, Function.comp_apply, copy, if_neg (by omega), Nat.add_sub_cancel_left,
      List.getElem?_eq_getElem hl, Option.getD_some]

theorem bytes_copy {buffer : Nat → Char} {pos : Nat} {l : Buffer} (h : ∀ i < pos, (buffer i).toNat < 256) (hl : AllBytes l) :
    ∀ i < pos + l.length, (copy buffer pos l i).toNat < 256 := by
  intro i hi
  rw [copy]
  split
  · rename_i hlt
    exact h i hlt
  · rw [List.getElem?_eq_getElem (by omega), Option.getD_some]
    exact hl _ (List.getElem_mem _)

/-- A string whose length is an `int` is written. -/
theorem pack_holds {o : OutBitStream} {l : List Bool} {s : String} (h : o.Holds l) (halign : o.mPos.bitsRemainsInByte = 8)
    (hs : AllBytes s.toList) (hlen : s.length < 2 ^ 31) (hroom : o.mPos.pos + s.length ≤ o.bufsize) :
    ∃ o', o.pack s = .ok o' ∧ o'.Holds (l ++ ofBytes s.toList) := by
  have hint : wrap32 s.length = s.length := by
    rw [wrap32, Int.bmod]
    omega
  have hsize : s.toList.length = s.length := String.length_toList
  have hput : o.pack s =
      .ok { o with buffer := copy o.buffer o.mPos.pos s.toList, mPos := ⟨o.mPos.pos + s.toList.length, 8⟩ } := by
    have hnat : ((o.mPos.pos : Int) + s.length).toNat = o.mPos.pos + s.length := by omega
    rw [pack, if_neg (not_not.2 halign), if_neg (by omega), hint, if_neg (by omega), hsize, hnat]
  obtain ⟨hpos, hbits, hbytes⟩ := h
  refine ⟨_, hput, ⟨?_, ?_, ?_⟩⟩
  · have hp : o.mPos.pos = l.length / 8 := by rw [hpos, ofBits]
    rw [hpos, BitsPosition.aligned_iff] at halign
    have hdiv : (l.length + 8 * s.toList.length) / 8 = o.mPos.pos + s.toList.length := by omega
    have hmod : 8 - (l.length + 8 * s.toList.length) % 8 = 8 := by omega
    rw [List.length_append, length_ofBytes, ofBits, hdiv, hmod]
  · rw [bits, halign, Nat.sub_self, bitsOf_zero, List.append_nil] at hbits
    rw [← hbits, bits]
    dsimp only
    rw [map_copy, ofBytes_append, Nat.sub_self, bitsOf_zero, List.append_nil]
  · exact bytes_copy hbytes hs

theorem putPSTR_holds {o : OutBitStream} {l : List Bool} {s : String} (h : o.Holds l) (halign : o.mPos.bitsRemainsInByte = 8)
    (hs : AllBytes s.toList) (hlen : s.length < 2 ^ 31) :
    ∃ o', o.putPSTR s = .ok o' ∧ o'.Holds (l ++ (ofBytes (skipGroups s.length 8) ++ ofBytes s.toList)) := by
  have hroom := o.lt_adjust_bufsize (5 + s.length)
  have hgroups : (skipGroups s.length 8).length ≤ 5 := length_skipGroups_le (by decide) (by omega) 8
  have hpos : o.mPos.pos = l.length / 8 := by rw [h.position, ofBits]
  obtain ⟨o1, hnum, h1, hsize⟩ :=
    put8s_numbers (h.adjust (5 + s.length)) (by rw [adjust_mPos]; exact halign) s.length
  have hpos1 : o1.mPos.pos = (l ++ ofBytes (skipGroups s.length 8)).length / 8 := by rw [h1.position, ofBits]
  have halign1 : o1.mPos.bitsRemainsInByte = 8 := by
    rw [h.position, BitsPosition.aligned_iff] at halign
    rw [h1.position, BitsPosition.aligned_iff, List.length_append, length_ofBytes]
    omega
  rw [List.length_append, length_ofBytes] at hpos1
  obtain ⟨o2, hpack, h2⟩ := pack_holds h1 halign1 hs hlen (by omega)
  refine ⟨o2, ?_, ?_⟩
  · rw [putPSTR, putPN, hnum]
    exact hpack
  · rw [← List.append_assoc]
    exact h2

end OutBitStream

/-! ### Items -/

/-- The bits of a TLV length. -/
def tlvBits (len : Nat) : List Bool :=
  if len < 128 then bitsOf 1 0 ++ bitsOf 7 len
  else bitsOf 1 1 ++
    if len < 0x10000 then bitsOf 7 2 ++ bitsOf 16 len
    else if len < 0x1000000 then bitsOf 7 3 ++ bitsOf 24 len
    else bitsOf 7 4 ++ bitsOf 32 len

/-- The bits that a write leaves. -/
def BitItem.stored : BitItem → List Bool
  | .bits bitcount val => bitsOf bitcount val
  | .unsigned n => ofBytes (skipGroups n 8)
  | .signed n => ofBytes (skipGroups (n % 2 ^ 64).toNat 8)
  | .str s => ofBytes (skipGroups s.length 8) ++ ofBytes s.toList
  | .tlv len => tlvBits len

namespace OutBitStream

/-- A field that begins a byte, and another one after it. -/
theorem putBits_two {o : OutBitStream} {l : List Bool} (h : o.Holds l) {w1 w2 : Nat} (v1 v2 : Nat)
    (h1 : w1 % 8 ≤ 8 - l.length % 8) (h2 : w2 % 8 ≤ 8 - (l.length + w1) % 8) :
    ∃ o1 o2, o.putBits v1 w1 = .ok o1 ∧ o1.putBits v2 w2 = .ok o2 ∧ o2.Holds (l ++ (bitsOf w1 v1 ++ bitsOf w2 v2)) := by
  obtain ⟨o1, hput1, hh1⟩ := putBits_holds h v1 h1
  obtain ⟨o2, hput2, hh2⟩ := putBits_holds hh1 v2 (w := w2) (by rw [List.length_append, length_bitsOf]; exact h2)
  refine ⟨o1, o2, hput1, hput2, ?_⟩
  rw [← List.append_assoc]
  exact hh2

theorem putTLVLength_holds {o : OutBitStream} {l : List Bool} {len : Nat} (h : o.Holds l)
    (halign : o.mPos.bitsRemainsInByte = 8) (hlen : len < 2 ^ 32) :
    ∃ o', o.putTLVLength len = .ok o' ∧ o'.Holds (l ++ tlvBits len) := by
  have hl := halign
  rw [h.position, BitsPosition.aligned_iff] at hl
  rw [putTLVLength, if_neg (not_not.2 halign), Nat.mod_eq_of_lt hlen, tlvBits]
  by_cases h128 : len < 128
  · obtain ⟨o1, o2, hput1, hput2, h2⟩ := @putBits_two _ _ h 1 7 0 len (by omega) (by omega)
    rw [if_pos h128, if_pos h128, hput1]
    exact ⟨o2, hput2, h2⟩
  · obtain ⟨o1, hput1, h1⟩ := putBits_holds h 1 (w := 1) (by omega)
    have hwide (k w : Nat) (hw : w % 8 = 0) : ∃ o', (do
        let o ← o1.putBits k 7
        o.putBits len w) = .ok o' ∧ o'.Holds (l ++ (bitsOf 1 1 ++ (bitsOf 7 k ++ bitsOf w len))) := by
      have hl1 : (l ++ bitsOf 1 1).length = l.length + 1 := by rw [List.length_append, length_bitsOf]
      obtain ⟨o2, o3, hput2, hput3, h3⟩ := @putBits_two _ _ h1 7 w k len (by omega) (by omega)
      refine ⟨o3, ?_, ?_⟩
      · rw [hput2]
        exact hput3
      · rw [← List.append_assoc]
        exact h3
    rw [if_neg h128, if_neg h128, hput1]
    dsimp only [bind, Except.bind]
    by_cases h16 : len < 0x10000
    · rw [if_pos h16, if_pos h16]
      exact hwide 2 16 rfl
    · rw [if_neg h16, if_neg h16]
      by_cases h24 : len < 0x1000000
      · rw [if_pos h24, if_pos h24]
        exact hwide 3 24 rfl
      · rw [if_neg h24, if_neg h24]
        exact hwide 4 32 rfl

/-- A write that has what it needs adds its bits, unless a check stops it. -/
theorem write_holds {o : OutBitStream} {l : List Bool} {x : BitItem} (h : o.Holds l) (hfits : x.Fits) (hkept : x.Kept o) :
    o.write x = .error .boundary ∨ ∃ o', o.write x = .ok o' ∧ o'.Holds (l ++ x.stored) := by
  cases x with
  | bits w v =>
    obtain ⟨o', hput⟩ := (putBits_iff h v w).2 hkept
    exact .inr ⟨o', hput, holds_of_putBits h hput⟩
  | unsigned n =>
    by_cases halign : o.mPos.bitsRemainsInByte = 8
    · obtain ⟨o', hput, h', -⟩ := put8s_numbers h halign n
      exact .inr ⟨o', hput, h'⟩
    · exact .inl (numbers_boundary halign n)
  | signed n =>
    by_cases halign : o.mPos.bitsRemainsInByte = 8
    · obtain ⟨o', hput, h', -⟩ := put8s_numbers h halign (n % 2 ^ 64).toNat
      exact .inr ⟨o', hput, h'⟩
    · exact .inl (numbers_boundary halign _)
  | str s =>
    by_cases halign : o.mPos.bitsRemainsInByte = 8
    · exact .inr (putPSTR_holds h halign hfits.2 hkept)
    · refine .inl ?_
      have hnum : ((o.adjust (5 + s.length)).putPN s.length) = .error .boundary :=
        numbers_boundary (by rw [adjust_mPos]; exact halign) _
      rw [write, putPSTR, hnum]
      rfl
  | tlv len =>
    by_cases halign : o.mPos.bitsRemainsInByte = 8
    · exact .inr (putTLVLength_holds h halign hfits)
    · exact .inl (by rw [write, putTLVLength, if_pos halign])

end OutBitStream

/-! ## Reading -/

namespace InBitStream

theorem drop_after {d a c : List Bool} {n : Nat} (h : d.drop n = a ++ c) : d.drop (n + a.length) = c := by
  rw [← List.drop_drop, h, List.drop_left]

theorem getBit_ofBits {data : Buffer} {n : Nat} {b : Bool} {r : List Bool} (h : (ofBytes data).drop n = b :: r) :
    getBit ⟨data, ofBits n⟩ = some (b, ⟨data, ofBits (n + 1)⟩) := by
  have hget : (ofBytes data)[n]? = some b := by
    rw [← List.head?_drop, h, List.head?_cons]
  rw [getElem?_ofBytes, Option.map_eq_some_iff] at hget
  obtain ⟨c, hc, hbit⟩ := hget
  have hrem : 8 - n % 8 - 1 = 7 - n % 8 := by omega
  rw [← BitsPosition.next_ofBits, ← hbit, ← hrem]
  unfold getBit
  dsimp only [ofBits]
  rw [hc]

/-- Bits that do not overflow the `int` go into it one after the other. -/
theorem getBitsLoop_ofBits {data : Buffer} {n w acc v : Nat} {r : List Bool} (hacc : (acc + 1) * 2 ^ w ≤ 2 ^ 32)
    (h : (ofBytes data).drop n = bitsOf w v ++ r) :
    getBitsLoop ⟨data, ofBits n⟩ acc w = some (value acc (bitsOf w v), ⟨data, ofBits (n + w)⟩) := by
  induction w generalizing n acc with
  | zero => rfl
  | succ w ih =>
    have hbit : (v.testBit w).toNat ≤ 1 := Bool.toNat_le _
    have hpow : 0 < 2 ^ w := Nat.two_pow_pos w
    rw [Nat.pow_succ, Nat.mul_comm (2 ^ w), ← Nat.mul_assoc] at hacc
    have hle : (acc + 1) * 2 ≤ 2 ^ 32 := Nat.le_trans (Nat.le_mul_of_pos_right _ hpow) hacc
    have hstep : (acc * 2 + (v.testBit w).toNat + 1) * 2 ^ w ≤ 2 ^ 32 :=
      Nat.le_trans (Nat.mul_le_mul_right _ (by omega)) hacc
    rw [bitsOf, List.cons_append] at h
    have hrest : (ofBytes data).drop (n + 1) = bitsOf w v ++ r := @drop_after _ [v.testBit w] _ _ h
    rw [getBitsLoop, getBit_ofBits h, bitsOf, value]
    dsimp only [bind, Option.bind]
    rw [Nat.mod_eq_of_lt (by omega), ih hstep hrest, Nat.add_assoc, Nat.add_comm 1 w]

theorem toUInt_wrap32 {v : Nat} (h : v < 2 ^ 32) : toUInt (wrap32 v) = v := by
  rw [toUInt, wrap32, Int.bmod]
  omega

theorem getBits_ofBits {data : Buffer} {n w v : Nat} {r : List Bool} (hw : w ≤ 32) (hv : v < 2 ^ w)
    (h : (ofBytes data).drop n = bitsOf w v ++ r) :
    getBits ⟨data, ofBits n⟩ w = some (wrap32 v, ⟨data, ofBits (n + w)⟩) := by
  have hpow : (0 + 1) * 2 ^ w ≤ 2 ^ 32 := by
    rw [Nat.zero_add, Nat.one_mul]
    exact Nat.pow_le_pow_right (by decide) hw
  rw [getBits, getBitsLoop_ofBits hpow h, value_bitsOf hv]
  rfl

/-- A field's value fits in 32 bits. -/
theorem lt_of_fits {w v : Nat} (hw : w ≤ 32) (hv : v < 2 ^ w) : v < 2 ^ 32 :=
  Nat.lt_of_lt_of_le hv (Nat.pow_le_pow_right (by decide) hw)

/-- From a byte's first bit on the bytes are there. -/
theorem drop_bytes {data m : Buffer} {k : Nat} {r : List Bool} (hdata : AllBytes data) (hm : AllBytes m)
    (h : (ofBytes data).drop (8 * k) = ofBytes m ++ r) : ∃ t, data.drop k = m ++ t ∧ ofBytes t = r := by
  rw [drop_ofBytes] at h
  exact ofBytes_prefix (fun c hc => hdata c (List.mem_of_mem_drop hc)) hm h

theorem getPN_ofBits {data : Buffer} {k v : Nat} {r : List Bool} (hdata : AllBytes data) (hv : v < 2 ^ 63)
    (h : (ofBytes data).drop (8 * k) = ofBytes (skipGroups v 8) ++ r) :
    getPN ⟨data, ofBits (8 * k)⟩ = some (v, ⟨data, ofBits (8 * k + (ofBytes (skipGroups v 8)).length)⟩) := by
  obtain ⟨t, hdrop, -⟩ := drop_bytes hdata (bytes_skipGroups v 8) h
  have hgroups : getGroups 0 (data.drop k) = some (v, t) := by
    rw [hdrop]
    exact getPN_skipGroups (by omega) (by omega) t
  obtain ⟨pos, hpos, hle, hlen, hend⟩ := InBuffer.getPNLoop_of_getGroups (b := ⟨data, k⟩) hgroups
  have h1 := congrArg List.length hdrop
  have h2 := congrArg List.length hend
  rw [List.length_drop, List.length_append] at h1
  rw [List.length_drop] at h2
  dsimp only at hle hlen h2
  have hmove : 8 * k + (ofBytes (skipGroups v 8)).length = 8 * pos := by
    rw [length_ofBytes]
    omega
  rw [hmove, BitsPosition.ofBits_mul, BitsPosition.ofBits_mul, getPN, if_neg (not_not.2 rfl), InBuffer.getPN, hpos]
  rfl

theorem getPSTR_ofBits {data : Buffer} {k : Nat} {s : String} {r : List Bool} (hdata : AllBytes data) (hs : AllBytes s.toList)
    (hlen : s.length < 2 ^ 63) (h : (ofBytes data).drop (8 * k) = ofBytes (skipGroups s.length 8) ++ ofBytes s.toList ++ r) :
    getPSTR ⟨data, ofBits (8 * k)⟩ =
      some (s, ⟨data, ofBits (8 * k + (ofBytes (skipGroups s.length 8) ++ ofBytes s.toList).length)⟩) := by
  rw [List.append_assoc] at h
  have hrest := drop_after h
  have hmove : 8 * k + (ofBytes (skipGroups s.length 8)).length = 8 * (k + (skipGroups s.length 8).length) := by
    rw [length_ofBytes, Nat.mul_add]
  rw [hmove] at hrest
  obtain ⟨t, hdrop, -⟩ := drop_bytes hdata hs hrest
  have hsize := congrArg List.length hdrop
  rw [List.length_drop, List.length_append, String.length_toList] at hsize
  have hend : 8 * k + (ofBytes (skipGroups s.length 8) ++ ofBytes s.toList).length =
      8 * (k + (skipGroups s.length 8).length + s.length) := by
    rw [List.length_append, length_ofBytes, length_ofBytes, String.length_toList]
    omega
  rw [getPSTR, getPN_ofBits hdata hlen h, hend, hmove, BitsPosition.ofBits_mul, BitsPosition.ofBits_mul,
    BitsPosition.ofBits_mul]
  dsimp only [bind, Option.bind]
  rw [if_neg (by omega), hdrop, ← String.length_toList, List.take_left, String.ofList_toList, String.length_toList]
  rfl

theorem wrap32_small {v : Nat} (h : v < 2 ^ 31) : wrap32 v = v := by
  rw [wrap32, Int.bmod]
  omega

/-- A length in one byte. -/
theorem getTlvLength_short {data : Buffer} {n len : Nat} {r : List Bool} (hlen : len < 128)
    (h : (ofBytes data).drop n = bitsOf 1 0 ++ bitsOf 7 len ++ r) :
    getTlvLength ⟨data, ofBits n⟩ = some (len, ⟨data, ofBits (n + (bitsOf 1 0 ++ bitsOf 7 len).length)⟩) := by
  rw [List.append_assoc] at h
  have hrest := drop_after h
  rw [length_bitsOf] at hrest
  have hbit : getBit ⟨data, ofBits n⟩ = some (false, ⟨data, ofBits (n + 1)⟩) := getBit_ofBits h
  have hval := getBits_ofBits (by decide) (show len < 2 ^ 7 by omega) hrest
  rw [getTlvLength, hbit]
  dsimp only [bind, Option.bind]
  rw [if_pos rfl, hval, List.length_append, length_bitsOf, length_bitsOf, ← Nat.add_assoc]
  dsimp only [pure]
  rw [toUInt_wrap32 (by omega)]

/-- A length in `k` bytes after their number. -/
theorem getTlvLength_long {data : Buffer} {n len k : Nat} {r : List Bool} (hk : k ≤ 4) (hlen : len < 2 ^ (8 * k))
    (h : (ofBytes data).drop n = bitsOf 1 1 ++ (bitsOf 7 k ++ bitsOf (8 * k) len) ++ r) :
    getTlvLength ⟨data, ofBits n⟩ =
      some (len, ⟨data, ofBits (n + (bitsOf 1 1 ++ (bitsOf 7 k ++ bitsOf (8 * k) len)).length)⟩) := by
  rw [List.append_assoc, List.append_assoc] at h
  have h1 := drop_after h
  rw [length_bitsOf] at h1
  have h2 := drop_after h1
  rw [length_bitsOf] at h2
  have hbit : getBit ⟨data, ofBits n⟩ = some (true, ⟨data, ofBits (n + 1)⟩) := getBit_ofBits h
  have hllen := getBits_ofBits (by decide) (show k < 2 ^ 7 by omega) h1
  have hval := getBits_ofBits (by omega) hlen h2
  have hk32 : wrap32 k = k := wrap32_small (by omega)
  have hbits : ((k : Int) * 8).toNat = 8 * k := by omega
  rw [hk32] at hllen
  rw [getTlvLength, hbit]
  dsimp only [bind, Option.bind]
  rw [if_neg Bool.noConfusion, hllen]
  dsimp only
  rw [if_neg (by omega), hbits, hval]
  dsimp only [pure]
  rw [toUInt_wrap32 (lt_of_fits (by omega) hlen), List.length_append, List.length_append, length_bitsOf, length_bitsOf,
    length_bitsOf, ← Nat.add_assoc, ← Nat.add_assoc]

theorem getTlvLength_ofBits {data : Buffer} {n len : Nat} {r : List Bool} (hlen : len < 2 ^ 32)
    (h : (ofBytes data).drop n = tlvBits len ++ r) :
    getTlvLength ⟨data, ofBits n⟩ = some (len, ⟨data, ofBits (n + (tlvBits len).length)⟩) := by
  rw [tlvBits] at h ⊢
  by_cases h128 : len < 128
  · rw [if_pos h128] at h ⊢
    exact getTlvLength_short h128 h
  · rw [if_neg h128] at h ⊢
    by_cases h16 : len < 0x10000
    · rw [if_pos h16] at h ⊢
      exact getTlvLength_long (k := 2) (by decide) (by omega) h
    · rw [if_neg h16] at h ⊢
      by_cases h24 : len < 0x1000000
      · rw [if_pos h24] at h ⊢
        exact getTlvLength_long (k := 3) (by decide) (by omega) h
      · rw [if_neg h24] at h ⊢
        exact getTlvLength_long (k := 4) (by decide) (by omega) h

end InBitStream

/-! ## What was written is read -/

theorem aligned_of_numbers {o o' : OutBitStream} {n : Nat} (h : (o.adjust 10).put8s (skipGroups n 8) = .ok o') :
    o.mPos.bitsRemainsInByte = 8 := by
  by_contra halign
  rw [OutBitStream.numbers_boundary halign] at h
  cases h

theorem aligned_of_putPSTR {o o' : OutBitStream} {s : String} (h : o.putPSTR s = .ok o') : o.mPos.bitsRemainsInByte = 8 := by
  rw [OutBitStream.putPSTR] at h
  cases hnum : (o.adjust (5 + s.length)).putPN s.length with
  | error e =>
    rw [hnum] at h
    cases h
  | ok o1 =>
    have := aligned_of_numbers hnum
    rwa [OutBitStream.adjust_mPos] at this

theorem aligned_of_putTLVLength {o o' : OutBitStream} {len : Nat} (h : o.putTLVLength len = .ok o') :
    o.mPos.bitsRemainsInByte = 8 := by
  by_contra halign
  rw [OutBitStream.putTLVLength, if_pos halign] at h
  cases h

/-- What a write left is read back from where it was written. -/
theorem read_of_write {o o' : OutBitStream} {l r : List Bool} {x : BitItem} {data : Buffer} (h : o.Holds l) (hfits : x.Fits)
    (hkept : x.Kept o) (hwrite : o.write x = .ok o') (h' : o'.Holds (l ++ x.stored)) (hdata : AllBytes data)
    (hbits : ofBytes data = l ++ x.stored ++ r) :
    InBitStream.read ⟨data, o.mPos⟩ x.kind = some (x, ⟨data, o'.mPos⟩) := by
  have hdrop : (ofBytes data).drop l.length = x.stored ++ r := by rw [hbits, List.append_assoc, List.drop_left]
  rw [h.position, h'.position, List.length_append]
  have halign : o.mPos.bitsRemainsInByte = 8 → ∃ k, l.length = 8 * k := by
    intro halign
    rw [h.position] at halign
    obtain ⟨k, hk, -⟩ := BitsPosition.eq_of_aligned halign
    exact ⟨k, hk⟩
  cases x with
  | bits w v =>
    rw [BitItem.kind, InBitStream.read, InBitStream.getBits_ofBits hfits.1 hfits.2 hdrop]
    dsimp only [bind, Option.bind, pure]
    rw [InBitStream.toUInt_wrap32 (InBitStream.lt_of_fits hfits.1 hfits.2), BitItem.stored, length_bitsOf]
  | unsigned n =>
    obtain ⟨k, hk⟩ := halign (aligned_of_numbers hwrite)
    rw [hk] at hdrop ⊢
    rw [BitItem.kind, InBitStream.read, InBitStream.getPN_ofBits hdata hkept hdrop]
    rfl
  | signed n =>
    obtain ⟨k, hk⟩ := halign (aligned_of_numbers hwrite)
    rw [hk] at hdrop ⊢
    have hn : 0 ≤ n ∧ n < 2 ^ 63 := ⟨hkept, hfits.2⟩
    have hwrap : wrap64 ((n % 2 ^ 64).toNat : Int) = n := by
      rw [Int.toNat_of_nonneg (by omega), wrap64, Int.bmod]
      omega
    rw [BitItem.kind, InBitStream.read, InBitStream.getPN_ofBits hdata (by omega) hdrop]
    dsimp only [bind, Option.bind, pure]
    rw [hwrap]
    rfl
  | str s =>
    obtain ⟨k, hk⟩ := halign (aligned_of_putPSTR hwrite)
    rw [hk] at hdrop ⊢
    have hlen : s.length < 2 ^ 31 := hkept
    rw [BitItem.kind, InBitStream.read, InBitStream.getPSTR_ofBits hdata hfits.2 (by omega) hdrop]
    rfl
  | tlv len =>
    rw [BitItem.kind, InBitStream.read, InBitStream.getTlvLength_ofBits hfits hdrop]
    rfl

/-- What was written to a stream in one run. -/
def storedAll (items : List BitItem) : List Bool := items.flatMap BitItem.stored

theorem storedAll_cons (x : BitItem) (l : List BitItem) : storedAll (x :: l) = x.stored ++ storedAll l := List.flatMap_cons

/-- A run of writes that have what they need adds their bits, unless a check stops it; and the reads give back what was written,
each up to the position where the write ended. -/
theorem writeAll_readAll {o : OutBitStream} {l : List Bool} {items : List BitItem} (h : o.Holds l) (hfits : ∀ x ∈ items, x.Fits)
    (hkeeps : o.Keeps items) :
    o.writeAll items = .error .boundary ∨ ∃ ps o', o.writeAll items = .ok (ps, o') ∧ o'.Holds (l ++ storedAll items) ∧
      ∀ data r, AllBytes data → ofBytes data = l ++ storedAll items ++ r →
        InBitStream.readAll ⟨data, o.mPos⟩ (items.map BitItem.kind) = some (items.zip ps) := by
  induction items generalizing o l with
  | nil =>
    refine .inr ⟨[], o, rfl, ?_, fun _ _ _ _ => rfl⟩
    rw [storedAll, List.flatMap_nil, List.append_nil]
    exact h
  | cons x items ih =>
    obtain ⟨hkept, hrest⟩ := hkeeps
    have hx := hfits x List.mem_cons_self
    rcases OutBitStream.write_holds h hx hkept with hbad | ⟨o1, hwrite, h1⟩
    · refine .inl ?_
      rw [OutBitStream.writeAll, hbad]
      rfl
    · have hfits' : ∀ y ∈ items, y.Fits := fun y hy => hfits y (List.mem_cons_of_mem _ hy)
      rcases ih h1 hfits' (hrest o1 hwrite) with hbad | ⟨ps, o2, hwrites, h2, hreads⟩
      · refine .inl ?_
        rw [OutBitStream.writeAll, hwrite]
        dsimp only [bind, Except.bind]
        rw [hbad]
      · have hsplit : l ++ storedAll (x :: items) = l ++ x.stored ++ storedAll items := by
          rw [storedAll_cons, List.append_assoc]
        refine .inr ⟨o1.mPos :: ps, o2, ?_, ?_, ?_⟩
        · rw [OutBitStream.writeAll, hwrite]
          dsimp only [bind, Except.bind]
          rw [hwrites]
          rfl
        · rw [hsplit]
          exact h2
        · intro data r hdata hbits
          rw [hsplit] at hbits
          have hread := read_of_write h hx hkept hwrite h1 hdata (hbits.trans (List.append_assoc _ _ _))
          rw [List.map_cons, InBitStream.readAll, hread]
          dsimp only [bind, Option.bind]
          rw [hreads data r hdata hbits]
          rfl

/-- The bytes that are taken from a stream are its bits. -/
theorem asString_holds {o : OutBitStream} {l : List Bool} (h : o.Holds l) :
    o.asString = .error .boundary ∨ ∃ data, o.asString = .ok data ∧ AllBytes data ∧ ofBytes data = l := by
  by_cases halign : o.mPos.bitsRemainsInByte = 8
  · refine .inr ⟨_, by rw [OutBitStream.asString, if_neg (not_not.2 halign)], ?_, ?_⟩
    · intro c hc
      obtain ⟨i, hi, rfl⟩ := List.mem_map.1 hc
      exact h.bytes i (List.mem_range.1 hi)
    · rw [← h.bits, OutBitStream.bits, halign, Nat.sub_self, bitsOf_zero, List.append_nil]
  · exact .inl (by rw [OutBitStream.asString, if_pos halign])

/-! ## What is read was kept -/

/-- A number that is read takes a byte at least, and has seven bits for every byte. -/
theorem getPNLoop_bound {nn n : Nat} {b b' : InBuffer} (h : InBuffer.getPNLoop nn b = some (n, b')) :
    ∃ d, 0 < d ∧ b'.outPos = b.outPos + d ∧ ∀ j, nn < 128 ^ j → n < 128 ^ (j + d) := by
  have hshift (c : Char) (j : Nat) (hj : nn < 128 ^ j) : InBuffer.shift nn c < 128 ^ (j + 1) := by
    rw [InBuffer.shift, Nat.pow_succ]
    omega
  induction hs : b.data.drop b.outPos generalizing nn b with
  | nil =>
    obtain ⟨hc, -⟩ | ⟨c, -, hdrop⟩ := b.drop_cases
    · rw [InBuffer.getPNLoop_end nn hc] at h
      cases h
    · rw [hs] at hdrop
      cases hdrop
  | cons a s ih =>
    obtain ⟨-, hdrop⟩ | ⟨c, hc, hdrop⟩ := b.drop_cases
    · rw [hs] at hdrop
      cases hdrop
    · rw [hdrop] at hs
      obtain ⟨-, hrest⟩ := List.cons.inj hs
      rw [InBuffer.getPNLoop_byte nn hc] at h
      split at h
      · cases h
        exact ⟨1, Nat.one_pos, rfl, hshift c⟩
      · obtain ⟨d, -, hpos, hlt⟩ := ih h (fun c j hj => by rw [InBuffer.shift, Nat.pow_succ]; omega) hrest
        refine ⟨1 + d, by omega, by rw [hpos]; exact Nat.add_assoc _ _ _, ?_⟩
        intro j hj
        rw [← Nat.add_assoc]
        exact hlt (j + 1) (hshift c j hj)

theorem getPN_bound {b b' : InBitStream} {n : Nat} (h : b.getPN = some (n, b')) :
    ∃ d, 0 < d ∧ b'.mPos.pos = b.mPos.pos + d ∧ n < 128 ^ d := by
  unfold InBitStream.getPN at h
  split at h
  · cases h
  · obtain ⟨r, hr, hpure⟩ := Option.bind_eq_some_iff.1 h
    cases hpure
    obtain ⟨d, hd, hpos, hlt⟩ := @getPNLoop_bound 0 r.1 _ r.2 hr
    refine ⟨d, hd, hpos, ?_⟩
    have := hlt 0 (by decide)
    rwa [Nat.zero_add] at this

theorem getPSTR_bound {b b' : InBitStream} {s : String} (h : b.getPSTR = some (s, b')) :
    b.mPos.pos + s.length < b'.mPos.pos := by
  obtain ⟨r, hr, hrest⟩ := Option.bind_eq_some_iff.1 h
  obtain ⟨d, hd, hpos, -⟩ := @getPN_bound b r.2 r.1 hr
  dsimp only at hrest
  split at hrest
  · cases hrest
  · cases hrest
    rw [String.length_ofList, List.length_take, List.length_drop]
    dsimp only
    omega

/-- A number that was written in its nine groups and is read up to the same position has 63 bits. -/
theorem lt_of_getPN {o o' : OutBitStream} {l : List Bool} {m n : Nat} {b' : InBitStream} {data : Buffer} (h : o.Holds l)
    (hput : (o.adjust 10).put8s (skipGroups m 8) = .ok o') (hread : InBitStream.getPN ⟨data, o.mPos⟩ = some (n, b'))
    (hpos : b'.mPos = o'.mPos) : n < 2 ^ 63 := by
  have halign := aligned_of_numbers hput
  obtain ⟨o1, hput1, h1, -⟩ := OutBitStream.put8s_numbers h halign m
  rw [hput] at hput1
  cases hput1
  obtain ⟨d, -, hmove, hlt⟩ := getPN_bound hread
  have hp : o.mPos.pos = l.length / 8 := by rw [h.position, ofBits]
  have hp' : o'.mPos.pos = (l.length + 8 * (skipGroups m 8).length) / 8 := by
    rw [h1.position, ofBits, List.length_append, length_ofBytes]
  have hlen := (length_skipGroups m 8).2
  rw [hpos] at hmove
  dsimp only at hmove
  have hpow : 128 ^ d ≤ 128 ^ 9 := Nat.pow_le_pow_right (by decide) (by omega)
  omega

theorem wrap64_nonneg {n : Nat} (h : n < 2 ^ 63) : 0 ≤ wrap64 n := by
  rw [wrap64, Int.bmod]
  omega

/-- A length that is about the same as an `int` is an `int`. -/
theorem lt_of_wrap32 {n : Nat} (h : (n : Int) < wrap32 n + 9) : n < 2 ^ 31 := by
  rw [wrap32, Int.bmod] at h
  omega

/-- The position moves by the length read as an `int`, and at most nine bytes for the number. -/
theorem move_of_putPSTR {o o' : OutBitStream} {l : List Bool} {s : String} (h : o.Holds l) (hput : o.putPSTR s = .ok o') :
    (o'.mPos.pos : Int) ≤ o.mPos.pos + 9 + wrap32 s.length := by
  have halign := aligned_of_putPSTR hput
  obtain ⟨o1, hnum, h1, -⟩ :=
    OutBitStream.put8s_numbers (h.adjust (5 + s.length)) (by rw [OutBitStream.adjust_mPos]; exact halign) s.length
  have hp : o.mPos.pos = l.length / 8 := by rw [h.position, ofBits]
  have hp1 : o1.mPos.pos = (l.length + 8 * (skipGroups s.length 8).length) / 8 := by
    rw [h1.position, ofBits, List.length_append, length_ofBytes]
  have hlen := (length_skipGroups s.length 8).2
  rw [OutBitStream.putPSTR, OutBitStream.putPN, hnum] at hput
  dsimp only [bind, Except.bind] at hput
  unfold OutBitStream.pack at hput
  generalize wrap32 s.length = z at hput ⊢
  split at hput
  · cases hput
  · split at hput
    · cases hput
    · dsimp only at hput
      split at hput
      · cases hput
      · cases hput
        dsimp only
        omega

/-- A write whose read gives the same value up to the same position had what it needs. -/
theorem kept_of_read {o o' : OutBitStream} {l : List Bool} {x : BitItem} {data : Buffer} {b' : InBitStream} (h : o.Holds l)
    (hwrite : o.write x = .ok o') (hread : InBitStream.read ⟨data, o.mPos⟩ x.kind = some (x, b'))
    (hpos : b'.mPos = o'.mPos) : x.Kept o := by
  cases x with
  | bits w v => exact (OutBitStream.putBits_iff h v w).1 ⟨o', hwrite⟩
  | unsigned n =>
    obtain ⟨r, hr, hpure⟩ := Option.bind_eq_some_iff.1 hread
    obtain ⟨hval, hb⟩ := Prod.mk.inj (Option.some.inj hpure)
    have hlt : r.1 < 2 ^ 63 := lt_of_getPN h hwrite hr (by rw [hb]; exact hpos)
    rw [← BitItem.unsigned.inj hval]
    exact hlt
  | signed n =>
    obtain ⟨r, hr, hpure⟩ := Option.bind_eq_some_iff.1 hread
    obtain ⟨hval, hb⟩ := Prod.mk.inj (Option.some.inj hpure)
    have hlt : r.1 < 2 ^ 63 := lt_of_getPN h hwrite hr (by rw [hb]; exact hpos)
    have hn := BitItem.signed.inj hval
    exact hn ▸ wrap64_nonneg hlt
  | str s =>
    obtain ⟨r, hr, hpure⟩ := Option.bind_eq_some_iff.1 hread
    obtain ⟨hval, hb⟩ := Prod.mk.inj (Option.some.inj hpure)
    have hmove := @getPSTR_bound _ r.2 r.1 hr
    rw [BitItem.str.inj hval, hb, hpos] at hmove
    have hwritten := move_of_putPSTR h hwrite
    refine lt_of_wrap32 ?_
    dsimp only at hmove
    omega
  | tlv len => exact trivial

namespace InBitStream

theorem getBit_data {b b' : InBitStream} {c : Bool} (h : b.getBit = some (c, b')) : b'.data = b.data := by
  unfold getBit at h
  split at h
  · cases h
  · cases h
    rfl

theorem getBitsLoop_data {b b' : InBitStream} {acc w v : Nat} (h : b.getBitsLoop acc w = some (v, b')) : b'.data = b.data := by
  induction w generalizing b acc with
  | zero =>
    cases h
    rfl
  | succ w ih =>
    obtain ⟨r, hr, hrest⟩ := Option.bind_eq_some_iff.1 h
    exact (ih hrest).trans (getBit_data (c := r.1) hr)

theorem getBits_data {b b' : InBitStream} {w : Nat} {v : Int} (h : b.getBits w = some (v, b')) : b'.data = b.data := by
  obtain ⟨r, hr, hpure⟩ := Option.bind_eq_some_iff.1 h
  obtain ⟨-, hb⟩ := Prod.mk.inj (Option.some.inj hpure)
  rw [← hb]
  exact getBitsLoop_data (v := r.1) hr

theorem getPN_data {b b' : InBitStream} {n : Nat} (h : b.getPN = some (n, b')) : b'.data = b.data := by
  unfold getPN at h
  split at h
  · cases h
  · obtain ⟨r, -, hpure⟩ := Option.bind_eq_some_iff.1 h
    cases hpure
    rfl

theorem getPSTR_data {b b' : InBitStream} {s : String} (h : b.getPSTR = some (s, b')) : b'.data = b.data := by
  obtain ⟨r, -, hrest⟩ := Option.bind_eq_some_iff.1 h
  dsimp only at hrest
  split at hrest
  · cases hrest
  · cases hrest
    rfl

theorem getTlvLength_data {b b' : InBitStream} {n : Nat} (h : b.getTlvLength = some (n, b')) : b'.data = b.data := by
  obtain ⟨r, hr, hrest⟩ := Option.bind_eq_some_iff.1 h
  have hfirst := getBit_data (c := r.1) hr
  split at hrest
  · obtain ⟨v, hv, hpure⟩ := Option.bind_eq_some_iff.1 hrest
    cases hpure
    exact (getBits_data (v := v.1) hv).trans hfirst
  · obtain ⟨llen, hl, hrest⟩ := Option.bind_eq_some_iff.1 hrest
    have hsecond := (getBits_data (v := llen.1) hl).trans hfirst
    split at hrest
    · cases hrest
    · obtain ⟨v, hv, hpure⟩ := Option.bind_eq_some_iff.1 hrest
      cases hpure
      exact (getBits_data (v := v.1) hv).trans hsecond

/-- A read leaves the data as it is. -/
theorem read_data {b b' : InBitStream} {k : BitKind} {x : BitItem} (h : b.read k = some (x, b')) : b'.data = b.data := by
  cases k with
  | bits w =>
    obtain ⟨r, hr, hpure⟩ := Option.bind_eq_some_iff.1 h
    cases hpure
    exact getBits_data (v := r.1) hr
  | unsigned | signed =>
    obtain ⟨r, hr, hpure⟩ := Option.bind_eq_some_iff.1 h
    cases hpure
    exact getPN_data (n := r.1) hr
  | str =>
    obtain ⟨r, hr, hpure⟩ := Option.bind_eq_some_iff.1 h
    cases hpure
    exact getPSTR_data (s := r.1) hr
  | tlv =>
    obtain ⟨r, hr, hpure⟩ := Option.bind_eq_some_iff.1 h
    cases hpure
    exact getTlvLength_data (n := r.1) hr

end InBitStream

/-- Writes that are read back as they were written had what they need. -/
theorem keeps_of_readAll {o o' : OutBitStream} {l : List Bool} {items : List BitItem} {ps : List BitsPosition} {data : Buffer}
    (h : o.Holds l) (hfits : ∀ x ∈ items, x.Fits) (hwrites : o.writeAll items = .ok (ps, o'))
    (hreads : InBitStream.readAll ⟨data, o.mPos⟩ (items.map BitItem.kind) = some (items.zip ps)) : o.Keeps items := by
  induction items generalizing o o' l ps with
  | nil => exact trivial
  | cons x items ih =>
    have hx := hfits x List.mem_cons_self
    rw [OutBitStream.writeAll] at hwrites
    cases hwrite : o.write x with
    | error e =>
      rw [hwrite] at hwrites
      cases hwrites
    | ok o1 =>
      rw [hwrite] at hwrites
      dsimp only [bind, Except.bind] at hwrites
      cases hrest : o1.writeAll items with
      | error e =>
        rw [hrest] at hwrites
        cases hwrites
      | ok q =>
        rw [hrest] at hwrites
        obtain ⟨hps, hq⟩ := Prod.mk.inj (Except.ok.inj hwrites)
        have hrest : o1.writeAll items = .ok (q.1, q.2) := hrest
        rw [← hps] at hreads
        obtain ⟨r, hread, hreads⟩ := Option.bind_eq_some_iff.1 hreads
        obtain ⟨rest, hrests, hpure⟩ := Option.bind_eq_some_iff.1 hreads
        obtain ⟨hhead, htail⟩ := List.cons.inj (Option.some.inj hpure)
        obtain ⟨hval, hmove⟩ := Prod.mk.inj hhead
        have hread' : InBitStream.read ⟨data, o.mPos⟩ x.kind = some (x, r.2) := by rw [hread, ← hval]
        have hkept := kept_of_read h hwrite hread' hmove
        refine ⟨hkept, ?_⟩
        intro o2 hwrite2
        rw [hwrite] at hwrite2
        cases hwrite2
        rcases OutBitStream.write_holds h hx hkept with hbad | ⟨o3, hwrite3, h3⟩
        · rw [hwrite] at hbad
          cases hbad
        · rw [hwrite] at hwrite3
          cases hwrite3
          have hdata : r.2 = ⟨data, o1.mPos⟩ := by
            have hkeep := InBitStream.read_data hread'
            rw [← hmove]
            cases hr : r.2
            rw [hr] at hkeep
            cases hkeep
            rfl
          rw [hdata] at hrests
          refine ih h3 (fun y hy => hfits y (List.mem_cons_of_mem _ hy)) hrest ?_
          rw [hrests]
          exact congrArg some htail

/-! ## The law -/

theorem keeps_of_recovered {memory : Nat → Char} {items : List BitItem} (hfits : ∀ x ∈ items, x.Fits)
    (h : BitsRecovered memory items) : (OutBitStream.new memory).Keeps items := by
  obtain ⟨ps, data, hstream, hreads⟩ := h
  cases hwrites : (OutBitStream.new memory).writeAll items with
  | error e =>
    rw [writeStream, hwrites] at hstream
    cases hstream
  | ok q =>
    rw [writeStream, hwrites] at hstream
    dsimp only [bind, Except.bind] at hstream
    cases hdata : q.2.asString with
    | error e =>
      rw [hdata] at hstream
      cases hstream
    | ok d =>
      rw [hdata] at hstream
      obtain ⟨hps, -⟩ := Prod.mk.inj (Except.ok.inj hstream)
      rw [← hps] at hreads
      have hwrites : (OutBitStream.new memory).writeAll items = .ok (q.1, q.2) := hwrites
      exact keeps_of_readAll (OutBitStream.holds_new memory) hfits hwrites hreads

theorem recovered_of_keeps {memory : Nat → Char} {items : List BitItem} (hfits : ∀ x ∈ items, x.Fits)
    (hchecks : writeStream memory items ≠ .error .boundary) (hkeeps : (OutBitStream.new memory).Keeps items) :
    BitsRecovered memory items := by
  rcases writeAll_readAll (OutBitStream.holds_new memory) hfits hkeeps with hbad | ⟨ps, o', hwrites, h', hreads⟩
  · refine absurd ?_ hchecks
    rw [writeStream, hbad]
    rfl
  · rw [List.nil_append] at h'
    rcases asString_holds h' with hbad | ⟨data, hdata, hbytes, hbits⟩
    · refine absurd ?_ hchecks
      rw [writeStream, hwrites]
      dsimp only [bind, Except.bind]
      rw [hbad]
    · refine ⟨ps, data, ?_, hreads data [] hbytes (by rw [hbits, List.nil_append, List.append_nil])⟩
      rw [writeStream, hwrites]
      dsimp only [bind, Except.bind]
      rw [hdata]
      rfl

/-- Every read gives what was written and ends where the write ended exactly if every write has what it needs in the state before
it: bit 63 of a number is not set, the length of a string is an `int`, and no bit field meets the end of the allocated bytes. -/
theorem bitsRecovered_iff {memory : Nat → Char} {items : List BitItem} (hfits : ∀ x ∈ items, x.Fits)
    (hchecks : writeStream memory items ≠ .error .boundary) :
    BitsRecovered memory items ↔ (OutBitStream.new memory).Keeps items :=
  ⟨keeps_of_recovered hfits, recovered_of_keeps hfits hchecks⟩

/-- `2 ^ 63` does not come back. -/
theorem bits_recovered_false : ¬ ∀ (memory : Nat → Char) (items : List BitItem), (∀ x ∈ items, x.Fits) →
    writeStream memory items ≠ .error .boundary → BitsRecovered memory items := by
  intro h
  have hfits : ∀ x ∈ [BitItem.unsigned (2 ^ 63)], x.Fits := by
    intro x hx
    obtain rfl := List.mem_singleton.1 hx
    unfold BitItem.Fits
    omega
  have hback := h (fun _ => Char.ofNat 0) [.unsigned (2 ^ 63)] hfits (by decide)
  have hlt : 2 ^ 63 < 2 ^ 63 := (keeps_of_recovered hfits hback).1
  exact Nat.lt_irrefl _ hlt

/-- Fields across the end of a byte, numbers, a string and a length come back. -/
theorem bitsRecovered_sample :
    BitsRecovered (fun _ => 'x') [.bits 3 5, .bits 13 4097, .unsigned 300, .signed 7, .str "ab", .tlv 40000] := by
  refine (bitsRecovered_iff ?_ (by decide +kernel)).2 ?_
  · intro x hx
    simp only [List.mem_cons, List.not_mem_nil, or_false] at hx
    rcases hx with rfl | rfl | rfl | rfl | rfl | rfl
    · exact ⟨by decide, by decide⟩
    · exact ⟨by decide, by decide⟩
    · exact (by decide : 300 < 2 ^ 64)
    · exact ⟨by decide, by decide⟩
    · exact ⟨by unfold Sized; decide, by simp [Bits.AllBytes]⟩
    · exact (by decide : 40000 < 2 ^ 32)
  · refine ⟨by unfold BitItem.Kept; decide, ?_⟩
    rintro o1 h1
    cases h1
    refine ⟨by unfold BitItem.Kept; decide +kernel, ?_⟩
    rintro o2 h2
    cases h2
    refine ⟨(by decide : 300 < 2 ^ 63), ?_⟩
    rintro o3 -
    refine ⟨(by decide : (0 : Int) ≤ 7), ?_⟩
    rintro o4 -
    refine ⟨(by decide : "ab".length < 2 ^ 31), ?_⟩
    rintro o5 -
    exact ⟨trivial, fun _ _ => trivial⟩

end Grain
