import Grain.Payload
import Grain.Lib.Codec

/-!
# Buffers

`outBuffer` and `inBuffer` of `ioBuffer.h`. A buffer is a `std::string`, so the list of its bytes as characters. A number is
written in groups of seven bits, the highest first, all but the last with the high bit set. The number of elements of a
container is an `unsigned int`.
-/

namespace Grain

open Codec (Reader Reads)

/-- The bytes of a buffer. -/
abbrev Buffer := List Char

/-- A reader of an `inBuffer`. -/
abbrev Unpack (α : Type) := Reader Char α

/-! ## Numbers -/

/-- The groups of a number from group `k` down to the last. -/
def putGroups (n : Nat) : Nat → Buffer
  | 0 => [Char.ofNat (n % 128)]
  | k + 1 => Char.ofNat (0x80 + n / 128 ^ (k + 1) % 128) :: putGroups n k

/-- The loop of `put_PN$` that skips the empty groups, from group `k` on. -/
def skipGroups (n : Nat) : Nat → Buffer
  | 0 => putGroups n 0
  | k + 1 => if n / 128 ^ (k + 1) % 128 ≠ 0 then putGroups n (k + 1) else skipGroups n k

/-- `put_PN`: the ten groups of a `uint64_t`. -/
def putPN (n : Nat) : Buffer := skipGroups n 9

/-- The loop of `get_PN`. -/
def getGroups (acc : Nat) : Buffer → Option (Nat × Buffer)
  | [] => none
  | c :: s =>
    let acc := (acc * 128 + c.toNat % 128) % 2 ^ 64
    if c.toNat < 0x80 then some (acc, s) else getGroups acc s

/-- `get_PN`. -/
def getPN : Unpack Nat := getGroups 0

/-- `operator<<` of a signed integer: its two's complement in 64 bits. -/
def putInt (n : Int) : Buffer := putPN (n % 2 ^ 64).toNat

/-- `operator>>` into an `int64_t` or a `time_t`. -/
def getInt64 : Unpack Int := do
  let n ← getPN
  pure (wrap64 n)

/-- `operator>>` into an `int`. -/
def getInt : Unpack Int := do
  let n ← getPN
  pure (wrap32 n)

/-- `operator>>` into an `unsigned int`. -/
def getUInt : Unpack Nat := do
  let n ← getPN
  pure (n % 2 ^ 32)

/-- `operator>>` into a `uint8_t`. -/
def getUInt8 : Unpack Nat := do
  let n ← getPN
  pure (n % 2 ^ 8)

/-- `operator<<` of a `bool`. -/
def putBool (b : Bool) : Buffer := putPN b.toNat

/-- `operator>>` into a `bool`. -/
def getBool : Unpack Bool := do
  let n ← getPN
  pure (n ≠ 0)

/-! ## Strings -/

/-- `put_PSTR`. -/
def putPSTR (s : String) : Buffer := putPN s.length ++ s.toList

/-- `unpack` of a number of bytes. -/
def getBytes (n : Nat) : Unpack String := fun s => if n ≤ s.length then some (String.ofList (s.take n), s.drop n) else none

/-- `get_PSTR`. -/
def getPSTR : Unpack String := do
  let n ← getPN
  getBytes n

/-! ## Containers -/

/-- The number of elements of a container: `b << (unsigned int)v.size()`. -/
def putCount (n : Nat) : Buffer := putPN (n % 2 ^ 32)

/-! ## What comes back -/

theorem length_putGroups (n k : Nat) : (putGroups n k).length = k + 1 := by
  induction k with
  | zero => rfl
  | succ k ih => rw [putGroups, List.length_cons, ih]

/-- Every number takes a byte. -/
theorem length_putPN_pos (n : Nat) : 0 < (putPN n).length := by
  have hskip (k : Nat) : 0 < (skipGroups n k).length := by
    induction k with
    | zero =>
      rw [skipGroups, length_putGroups]
      omega
    | succ k ih =>
      rw [skipGroups]
      split
      · rw [length_putGroups]
        omega
      · exact ih
  exact hskip 9

theorem toNat_ofNat {n : Nat} (h : n < 256) : (Char.ofNat n).toNat = n := by
  have hv : n.isValidChar := .inl (by omega)
  rw [Char.ofNat, dif_pos hv]
  rfl

/-- The groups from `k` down add the number's value below `128 ^ (k + 1)` to what was read before. -/
theorem getGroups_putGroups {n acc k : Nat} (h : acc * 128 ^ (k + 1) + n % 128 ^ (k + 1) < 2 ^ 64) (r : Buffer) :
    getGroups acc (putGroups n k ++ r) = some (acc * 128 ^ (k + 1) + n % 128 ^ (k + 1), r) := by
  induction k generalizing acc with
  | zero =>
    have hc : (Char.ofNat (n % 128)).toNat = n % 128 := toNat_ofNat (by omega)
    simp only [putGroups, List.cons_append, List.nil_append, getGroups, hc]
    rw [if_pos (by omega), Nat.mod_mod, Nat.mod_eq_of_lt (by simpa using h)]
    simp
  | succ k ih =>
    have hc : (Char.ofNat (0x80 + n / 128 ^ (k + 1) % 128)).toNat = 0x80 + n / 128 ^ (k + 1) % 128 := toNat_ofNat (by omega)
    have hsplit : n % 128 ^ (k + 1 + 1) = n / 128 ^ (k + 1) % 128 * 128 ^ (k + 1) + n % 128 ^ (k + 1) := by
      rw [Nat.pow_succ 128 (k + 1), Nat.mod_mul, Nat.mul_comm (128 ^ (k + 1)), Nat.add_comm]
    have hval : acc * 128 ^ (k + 1 + 1) + n % 128 ^ (k + 1 + 1) =
        (acc * 128 + n / 128 ^ (k + 1) % 128) * 128 ^ (k + 1) + n % 128 ^ (k + 1) := by
      rw [hsplit, Nat.pow_succ 128 (k + 1)]
      ring
    rw [hval] at h ⊢
    have hpos : 0 < 128 ^ (k + 1) := Nat.pow_pos (by omega)
    have hle : acc * 128 + n / 128 ^ (k + 1) % 128 < 2 ^ 64 := by
      have := Nat.le_mul_of_pos_right (acc * 128 + n / 128 ^ (k + 1) % 128) hpos
      omega
    have hacc : (acc * 128 + (0x80 + n / 128 ^ (k + 1) % 128) % 128) % 2 ^ 64 = acc * 128 + n / 128 ^ (k + 1) % 128 := by
      rw [Nat.add_mod_left, Nat.mod_mod, Nat.mod_eq_of_lt hle]
    simp only [putGroups, List.cons_append, getGroups, hc]
    rw [if_neg (by omega), hacc]
    exact ih h

theorem getPN_skipGroups {n k : Nat} (h : n < 128 ^ (k + 1)) (hn : n < 2 ^ 64) (r : Buffer) :
    getGroups 0 (skipGroups n k ++ r) = some (n, r) := by
  induction k with
  | zero =>
    have := @getGroups_putGroups n 0 0 (by simp only [Nat.zero_mul, Nat.zero_add]; omega) r
    rw [Nat.mod_eq_of_lt h, Nat.zero_mul, Nat.zero_add] at this
    exact this
  | succ k ih =>
    rw [skipGroups]
    split
    · have := @getGroups_putGroups n 0 (k + 1) (by rw [Nat.mod_eq_of_lt h]; omega) r
      rwa [Nat.mod_eq_of_lt h, Nat.zero_mul, Nat.zero_add] at this
    · rename_i hz
      refine ih ?_
      have hq : n / 128 ^ (k + 1) < 128 := by
        rw [Nat.div_lt_iff_lt_mul (Nat.pow_pos (by omega)), Nat.mul_comm, ← Nat.pow_succ]
        exact h
      rw [not_not, Nat.mod_eq_of_lt hq] at hz
      exact Nat.lt_of_div_eq_zero (Nat.pow_pos (by omega)) hz

/-- A `uint64_t` comes back. -/
theorem reads_getPN {n : Nat} (h : n < 2 ^ 64) : Reads getPN (putPN n) n True :=
  .always (getPN_skipGroups (by omega) h)

theorem toNat_emod_lt (n : Int) : (n % 2 ^ 64).toNat < 2 ^ 64 := by omega

/-- An `int64_t` comes back. -/
theorem reads_getInt64 {n : Int} (h : InI64 n) : Reads getInt64 (putInt n) n True := by
  refine .always ?_
  intro r
  refine Codec.bind_eq_some.2 ⟨_, r, (reads_getPN (toNat_emod_lt n)).back trivial r, ?_⟩
  have hn : wrap64 ((n % 2 ^ 64).toNat : Int) = n := by
    unfold InI64 at h
    rw [Int.toNat_of_nonneg (by omega), wrap64, Int.bmod]
    omega
  rw [hn]
  rfl

/-- The range of `int`. -/
def InI32 (n : Int) : Prop := -2 ^ 31 ≤ n ∧ n < 2 ^ 31

/-- An `int` comes back. -/
theorem reads_getInt {n : Int} (h : InI32 n) : Reads getInt (putInt n) n True := by
  refine .always ?_
  intro r
  refine Codec.bind_eq_some.2 ⟨_, r, (reads_getPN (toNat_emod_lt n)).back trivial r, ?_⟩
  have hn : wrap32 ((n % 2 ^ 64).toNat : Int) = n := by
    unfold InI32 at h
    rw [Int.toNat_of_nonneg (by omega), wrap32, Int.bmod]
    omega
  rw [hn]
  rfl

theorem reads_getUInt {n : Nat} (h : n < 2 ^ 32) : Reads getUInt (putPN n) n True := by
  refine .always ?_
  intro r
  refine Codec.bind_eq_some.2 ⟨_, r, (reads_getPN (by omega)).back trivial r, ?_⟩
  rw [Nat.mod_eq_of_lt h]
  rfl

theorem reads_getUInt8 {n : Nat} (h : n < 2 ^ 8) : Reads getUInt8 (putPN n) n True := by
  refine .always ?_
  intro r
  refine Codec.bind_eq_some.2 ⟨_, r, (reads_getPN (by omega)).back trivial r, ?_⟩
  rw [Nat.mod_eq_of_lt h]
  rfl

theorem reads_getBool (b : Bool) : Reads getBool (putBool b) b True := by
  refine .always ?_
  intro r
  refine Codec.bind_eq_some.2 ⟨_, r, (reads_getPN (by cases b <;> decide)).back trivial r, ?_⟩
  cases b <;> rfl

/-- The length of a `std::string` is a `size_t`. -/
def Sized (s : String) : Prop := s.length < 2 ^ 64

/-- A string comes back. -/
theorem reads_getPSTR {s : String} (h : Sized s) : Reads getPSTR (putPSTR s) s True := by
  refine .always ?_
  intro r
  rw [putPSTR, List.append_assoc]
  refine Codec.bind_eq_some.2 ⟨_, _, (reads_getPN h).back trivial _, ?_⟩
  have hlen : s.length = s.toList.length := String.length_toList.symm
  rw [getBytes, if_pos (by rw [List.length_append]; omega), hlen, List.take_left, List.drop_left]
  simp

/-- The number of elements of a container comes back modulo `2 ^ 32`. -/
def elements : Codec.Count Char where
  M := 2 ^ 32
  write := putCount
  read := getUInt
  reads := by
    intro n r
    have := (reads_getUInt (Nat.mod_lt n (by decide : 0 < 2 ^ 32))).back trivial r
    exact this

end Grain
