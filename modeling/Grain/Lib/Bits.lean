import Mathlib.Data.List.Basic
import Mathlib.Algebra.Order.Group.Nat

/-!
# Bits

The low bits of a number, the highest first, and the bits of a sequence of bytes. A place among the bits is a byte and a place in
it, and bytes are what their bits say.
-/

namespace Bits

/-- The low `w` bits of a number, the highest first. -/
def bitsOf : Nat → Nat → List Bool
  | 0, _ => []
  | w + 1, v => v.testBit w :: bitsOf w v

/-- The number that bits make after the bits of `acc`. -/
def value (acc : Nat) : List Bool → Nat
  | [] => acc
  | b :: l => value (acc * 2 + b.toNat) l

theorem bitsOf_zero (v : Nat) : bitsOf 0 v = [] := rfl

@[simp]
theorem length_bitsOf (w v : Nat) : (bitsOf w v).length = w := by
  induction w with
  | zero => rfl
  | succ w ih => rw [bitsOf, List.length_cons, ih]

/-- Bits above those that are read do not count. -/
theorem bitsOf_mod {w k : Nat} (h : w ≤ k) (v : Nat) : bitsOf w (v % 2 ^ k) = bitsOf w v := by
  induction w with
  | zero => rfl
  | succ w ih =>
    rw [bitsOf, bitsOf, ih (by omega), Nat.testBit_mod_two_pow]
    simp only [show w < k by omega, decide_true, Bool.true_and]

/-- A bit shifted in is the last. -/
theorem bitsOf_shift (w v : Nat) (b : Bool) : bitsOf (w + 1) (v * 2 + b.toNat) = bitsOf w v ++ [b] := by
  have hlow : (v * 2 + b.toNat).testBit 0 = b := by
    rw [Nat.testBit_zero]
    cases b <;> simp
  have hhigh (i : Nat) : (v * 2 + b.toNat).testBit (i + 1) = v.testBit i := by
    have hdiv : (v * 2 + b.toNat) / 2 = v := by
      cases b <;> simp only [Bool.toNat_false, Bool.toNat_true] <;> omega
    rw [Nat.testBit_succ, hdiv]
  induction w with
  | zero => rw [bitsOf, bitsOf, bitsOf, hlow, List.nil_append]
  | succ w ih => rw [bitsOf, ih, bitsOf, hhigh, List.cons_append]

theorem value_append (acc : Nat) (l m : List Bool) : value acc (l ++ m) = value (value acc l) m := by
  induction l generalizing acc with
  | nil => rfl
  | cons b l ih => exact ih _

/-- The bits of a number make the number. -/
theorem value_bitsOf {w v : Nat} (h : v < 2 ^ w) : value 0 (bitsOf w v) = v := by
  induction w generalizing v with
  | zero =>
    have hv : v = 0 := by omega
    rw [hv]
    rfl
  | succ w ih =>
    have hsplit : v = v / 2 * 2 + (decide (v % 2 = 1)).toNat := by
      rcases Nat.mod_two_eq_zero_or_one v with h | h <;> simp only [h] <;> simp <;> omega
    have hlt : v / 2 < 2 ^ w := by
      rw [Nat.pow_succ] at h
      omega
    rw [hsplit, bitsOf_shift, value_append, ih hlt]
    rfl

theorem getElem?_bitsOf {w i : Nat} (h : i < w) (v : Nat) : (bitsOf w v)[i]? = some (v.testBit (w - 1 - i)) := by
  induction w generalizing i with
  | zero => omega
  | succ w ih =>
    cases i with
    | zero => rfl
    | succ i =>
      rw [bitsOf, List.getElem?_cons_succ, ih (by omega)]
      congr 2
      omega

/-- Eight bits say which byte they are. -/
theorem bitsOf_inj {a b : Nat} (ha : a < 256) (hb : b < 256) (h : bitsOf 8 a = bitsOf 8 b) : a = b := by
  rw [← value_bitsOf (show a < 2 ^ 8 from ha), h, value_bitsOf (show b < 2 ^ 8 from hb)]

/-! ## Bytes -/

/-- The bits of bytes. -/
def ofBytes (l : List Char) : List Bool := l.flatMap fun c => bitsOf 8 c.toNat

/-- Every character is a byte. -/
def AllBytes (l : List Char) : Prop := ∀ c ∈ l, c.toNat < 256

theorem ofBytes_append (l m : List Char) : ofBytes (l ++ m) = ofBytes l ++ ofBytes m := List.flatMap_append

theorem ofBytes_cons (c : Char) (l : List Char) : ofBytes (c :: l) = bitsOf 8 c.toNat ++ ofBytes l := List.flatMap_cons

theorem ofBytes_singleton (c : Char) : ofBytes [c] = bitsOf 8 c.toNat := List.flatMap_singleton _ _

@[simp]
theorem length_ofBytes (l : List Char) : (ofBytes l).length = 8 * l.length := by
  induction l with
  | nil => rfl
  | cons c l ih =>
    rw [ofBytes_cons, List.length_append, length_bitsOf, ih, List.length_cons]
    omega

/-- A bit is found in its byte. -/
theorem getElem?_ofBytes (l : List Char) (n : Nat) :
    (ofBytes l)[n]? = l[n / 8]?.map fun c => c.toNat.testBit (7 - n % 8) := by
  induction l generalizing n with
  | nil => rfl
  | cons c l ih =>
    rw [ofBytes_cons]
    by_cases hn : n < 8
    · rw [List.getElem?_append_left (by rw [length_bitsOf]; exact hn), getElem?_bitsOf hn, Nat.div_eq_of_lt hn,
        Nat.mod_eq_of_lt hn]
      rfl
    · obtain ⟨m, rfl⟩ := Nat.exists_eq_add_of_le (Nat.le_of_not_lt hn)
      rw [List.getElem?_append_right (by rw [length_bitsOf]; omega), length_bitsOf, Nat.add_sub_cancel_left, ih,
        Nat.add_div_left m (by decide), List.getElem?_cons_succ, Nat.add_mod_left]

/-- Bytes whose bits begin with the bits of other bytes begin with those bytes. -/
theorem ofBytes_prefix {l m : List Char} {r : List Bool} (hl : AllBytes l) (hm : AllBytes m) (h : ofBytes l = ofBytes m ++ r) :
    ∃ t, l = m ++ t ∧ ofBytes t = r := by
  induction m generalizing l with
  | nil => exact ⟨l, rfl, h⟩
  | cons c m ih =>
    rw [ofBytes_cons, List.append_assoc] at h
    cases l with
    | nil =>
      have hlen := congrArg List.length h
      rw [length_ofBytes, List.length_append, length_bitsOf, List.length_nil] at hlen
      omega
    | cons d l =>
      rw [ofBytes_cons] at h
      obtain ⟨hhead, hrest⟩ := List.append_inj h (by rw [length_bitsOf, length_bitsOf])
      have hcd : d = c := Char.toNat_inj.1 (bitsOf_inj (hl d List.mem_cons_self) (hm c List.mem_cons_self) hhead)
      obtain ⟨t, rfl, ht⟩ :=
        ih (fun a ha => hl a (List.mem_cons_of_mem _ ha)) (fun a ha => hm a (List.mem_cons_of_mem _ ha)) hrest
      rw [hcd]
      exact ⟨t, rfl, ht⟩

/-- The bits from a byte's first bit on are the bits of the bytes from it on. -/
theorem drop_ofBytes (l : List Char) (k : Nat) : (ofBytes l).drop (8 * k) = ofBytes (l.drop k) := by
  induction k generalizing l with
  | zero => rfl
  | succ k ih =>
    cases l with
    | nil => rw [List.drop_nil, ofBytes, List.flatMap_nil, List.drop_nil]
    | cons c l =>
      have hk : 8 * (k + 1) = (bitsOf 8 c.toNat).length + 8 * k := by rw [length_bitsOf, Nat.mul_succ, Nat.add_comm]
      rw [ofBytes_cons, hk, ← List.drop_drop, List.drop_left, ih]
      rfl

end Bits
