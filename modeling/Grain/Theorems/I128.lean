import Grain.I128
import Grain.Theorems.Pack

/-!
# 128-bit numbers come back

The stored form of an `__int128` always comes back. The text does not at the least value, whose negation overflows: `str` writes
no digits for it, and `fromString` takes its digits for too large. These are the only exceptions (`i128Laws_iff`).
-/

namespace Grain

/-- What is expected of the stored form and the text of a number `v`, and of a string `s` that is read as a number. -/
structure I128Laws (v : Int) (s : String) : Prop where
  stored : ∀ r, getI128 (putI128 v ++ r) = some (v, r)
  text : i128FromString (i128Str v) = .ok v
  accepted : (∃ e, i128FromString s = .error e) ↔ ¬ ∃ n, Numeral s n ∧ InI128 n

theorem not_digit_iff (c : Char) : (c < '0' ∨ c > '9') ↔ ¬ ('0' ≤ c ∧ c ≤ '9') := by
  rw [not_and_or, not_le, not_le]

theorem digit_le {c : Char} (h : '0' ≤ c ∧ c ≤ '9') : '0'.toNat ≤ c.toNat ∧ c.toNat - '0'.toNat ≤ 9 := by
  have hlo : '0'.toNat ≤ c.toNat := h.1
  have hhi : c.toNat ≤ '0'.toNat + 9 := h.2
  exact ⟨hlo, by omega⟩

/-! ## Reading digits -/

@[simp] theorem decimal_nil : decimal [] = 0 := rfl

theorem decimal_cons (c : Char) (s : List Char) : decimal (c :: s) = (c.toNat - '0'.toNat) * 10 ^ s.length + decimal s := by
  unfold decimal
  rw [List.reverse_cons, List.map_append, Nat.ofDigits_append]
  simp only [List.map_cons, List.map_nil, Nat.ofDigits_singleton, List.length_map, List.length_reverse]
  ring

/-- The digit loop gives the value of the digits, if they are digits and the value is not beyond `max_pos`. -/
theorem fromDigits_ok_iff {r : Nat} (hr : r ≤ maxPos) {s : List Char} {n : Nat} :
    fromDigits r s = .ok n ↔ (∀ c ∈ s, '0' ≤ c ∧ c ≤ '9') ∧ n = r * 10 ^ s.length + decimal s ∧ n ≤ maxPos := by
  induction s generalizing r with
  | nil =>
    rw [fromDigits]
    constructor
    · intro h
      cases h
      exact ⟨by simp, by simp, hr⟩
    · rintro ⟨-, h, -⟩
      rw [h]
      simp
  | cons c s ih =>
    have hval : ∀ d, r * 10 ^ (s.length + 1) + (d * 10 ^ s.length + decimal s) = (r * 10 + d) * 10 ^ s.length + decimal s := by
      intro d
      ring
    rw [fromDigits, decimal_cons, List.length_cons, hval]
    split
    · rename_i hbad
      constructor
      · intro h
        cases h
      · rintro ⟨hd, -⟩
        exact absurd (hd c List.mem_cons_self) ((not_digit_iff c).1 hbad)
    · rename_i hgood
      have hc : '0' ≤ c ∧ c ≤ '9' := not_not.1 (mt (not_digit_iff c).2 hgood)
      have hd := (digit_le hc).2
      generalize c.toNat - '0'.toNat = d at hd ⊢
      dsimp only
      split
      · rename_i hover
        constructor
        · intro h
          cases h
        · rintro ⟨-, hn, hmax⟩
          have hpow : 1 ≤ 10 ^ s.length := Nat.one_le_pow _ _ (by decide)
          have hle := Nat.mul_le_mul_left (r * 10 + d) hpow
          unfold maxPos at hover hmax
          omega
      · rename_i hfits
        have hnext : r * 10 + d ≤ maxPos := by
          unfold maxPos at hfits ⊢
          omega
        rw [ih hnext, List.forall_mem_cons]
        constructor
        · rintro ⟨h1, h2⟩
          exact ⟨⟨hc, h1⟩, h2⟩
        · rintro ⟨⟨-, h1⟩, h2⟩
          exact ⟨h1, h2⟩

/-! ## Reading a numeral -/

/-- A sign is not a digit. -/
theorem sign_not_digit {digits : List Char} {c : Char} {t : List Char} (h : ∀ c ∈ digits, '0' ≤ c ∧ c ≤ '9')
    (hd : digits = c :: t) : c ≠ '-' ∧ c ≠ '+' := by
  have hc := h c (by rw [hd]; exact List.mem_cons_self)
  constructor
  · rintro rfl
    exact absurd hc (by decide)
  · rintro rfl
    exact absurd hc (by decide)

theorem neg_wrap128 {r : Nat} (h : r ≤ maxPos) : wrap128 (-(r : Int)) = -(r : Int) := by
  unfold maxPos at h
  exact Int.bmod_eq_of_le (by omega) (by omega)

/-- `fromString` after the sign. -/
theorem fromString_digits {digits : List Char} (hne : digits ≠ []) (neg : Prop) [Decidable neg] {n : Int} :
    (if digits.isEmpty then Except.error "i128::fromString: no digits"
      else fromDigits 0 digits >>= fun r => Except.ok (if neg then wrap128 (-(r : Int)) else r)) = .ok n ↔
      (∀ c ∈ digits, '0' ≤ c ∧ c ≤ '9') ∧ decimal digits ≤ maxPos ∧ n = if neg then -(decimal digits : Int) else decimal digits := by
  rw [if_neg (by simpa using hne)]
  have hread := fun m => @fromDigits_ok_iff 0 (Nat.zero_le _) digits m
  simp only [Nat.zero_mul, Nat.zero_add] at hread
  cases hr : fromDigits 0 digits with
  | error e =>
    constructor
    · intro h
      cases h
    · rintro ⟨hd, hmax, -⟩
      have := (hread (decimal digits)).2 ⟨hd, rfl, hmax⟩
      rw [hr] at this
      cases this
  | ok r =>
    obtain ⟨hd, rfl, hmax⟩ := (hread r).1 hr
    change Except.ok _ = _ ↔ _
    rw [neg_wrap128 hmax, Except.ok.injEq]
    constructor
    · rintro rfl
      exact ⟨hd, hmax, rfl⟩
    · rintro ⟨-, -, rfl⟩
      rfl

/-- The digits of a string after its sign. -/
def unsigned (c : Char) (t : List Char) : List Char := if c = '-' ∨ c = '+' then t else c :: t

/-- A numeral has digits only after its sign, and its value is theirs. -/
theorem numeral_iff {s : String} {c : Char} {t : List Char} (hs : s.toList = c :: t) {n : Int} :
    Numeral s n ↔ unsigned c t ≠ [] ∧ (∀ d ∈ unsigned c t, '0' ≤ d ∧ d ≤ '9') ∧
      n = if c = '-' then -(decimal (unsigned c t) : Int) else decimal (unsigned c t) := by
  unfold Numeral
  rw [hs]
  constructor
  · rintro ⟨digits, hne, hd, ⟨h | h, rfl⟩ | ⟨h, rfl⟩⟩
    · obtain ⟨hm, hp⟩ := sign_not_digit hd h.symm
      have hu : unsigned c t = digits := by rw [unsigned, if_neg (by simp [hm, hp]), h]
      rw [hu, if_neg hm]
      exact ⟨hne, hd, rfl⟩
    · cases h
      exact ⟨hne, hd, rfl⟩
    · cases h
      exact ⟨hne, hd, rfl⟩
  · rintro ⟨hne, hd, rfl⟩
    refine ⟨unsigned c t, hne, hd, ?_⟩
    by_cases hm : c = '-'
    · subst hm
      exact .inr ⟨rfl, rfl⟩
    · rw [if_neg hm]
      by_cases hp : c = '+'
      · subst hp
        exact .inl ⟨.inr rfl, rfl⟩
      · refine .inl ⟨.inl ?_, rfl⟩
        rw [unsigned, if_neg (by simp [hm, hp])]

/-- A string is a numeral of one value. -/
theorem Numeral.unique {s : String} {m n : Int} (hm : Numeral s m) (hn : Numeral s n) : m = n := by
  cases hs : s.toList with
  | nil =>
    obtain ⟨digits, hne, -, ⟨h | h, -⟩ | ⟨h, -⟩⟩ := hm
    · exact absurd (h.symm.trans hs) hne
    · rw [hs] at h
      cases h
    · rw [hs] at h
      cases h
  | cons c t =>
    rw [((numeral_iff hs).1 hm).2.2, ((numeral_iff hs).1 hn).2.2]

/-- `fromString` gives the value of a numeral that is not beyond `max_pos` on either side, and nothing else. -/
theorem fromString_ok_iff {s : String} {n : Int} :
    i128FromString s = .ok n ↔ Numeral s n ∧ -(maxPos : Int) ≤ n ∧ n ≤ maxPos := by
  cases hs : s.toList with
  | nil =>
    unfold i128FromString
    rw [hs]
    constructor
    · intro h
      cases h
    · rintro ⟨⟨digits, hne, -, ⟨h | h, -⟩ | ⟨h, -⟩⟩, -⟩
      · exact absurd (h.symm.trans hs) hne
      · rw [hs] at h
        cases h
      · rw [hs] at h
        cases h
  | cons c t =>
    have hread : i128FromString s = (if (unsigned c t).isEmpty then Except.error "i128::fromString: no digits"
        else fromDigits 0 (unsigned c t) >>= fun r => Except.ok (if c = '-' then wrap128 (-(r : Int)) else r)) := by
      unfold i128FromString
      rw [hs]
      rfl
    rw [hread, numeral_iff hs]
    by_cases hne : unsigned c t = []
    · rw [hne]
      constructor
      · intro h
        cases h
      · rintro ⟨⟨h, -⟩, -⟩
        exact absurd rfl h
    · rw [fromString_digits hne]
      constructor
      · rintro ⟨hd, hmax, rfl⟩
        refine ⟨⟨hne, hd, rfl⟩, ?_⟩
        split <;> omega
      · rintro ⟨⟨-, hd, rfl⟩, hlo, hhi⟩
        refine ⟨hd, ?_, rfl⟩
        by_cases hm : c = '-'
        · rw [if_pos hm] at hlo
          omega
        · rw [if_neg hm] at hhi
          omega

/-! ## Writing -/

theorem toNat_digit {d : Nat} (h : d < 10) : (Char.ofNat ('0'.toNat + d)).toNat = '0'.toNat + d :=
  toNat_ofNat (by have : '0'.toNat = 48 := rfl; omega)

theorem strDigits_pos {x : Int} (h : 0 < x) : strDigits x = Char.ofNat ('0'.toNat + (x % 10).toNat) :: strDigits (x / 10) := by
  rw [strDigits, if_pos h]

theorem strDigits_nonpos {x : Int} (h : ¬ 0 < x) : strDigits x = [] := by
  rw [strDigits, if_neg h]

/-- The digits of a number, the last one first, are those of its decimal expansion. -/
theorem strDigits_eq (n : Nat) : strDigits n = (Nat.digits 10 n).map fun d => Char.ofNat ('0'.toNat + d) := by
  induction n using Nat.strongRecOn with
  | ind n ih =>
    by_cases hn : 0 < n
    · have hmod : ((n : Int) % 10).toNat = n % 10 := by omega
      have hdiv : (n : Int) / 10 = (n / 10 : Nat) := by omega
      rw [strDigits_pos (by omega), hmod, hdiv, ih (n / 10) (by omega), Nat.digits_def' (by decide) hn, List.map_cons]
    · have hz : n = 0 := by omega
      subst hz
      rw [strDigits_nonpos (by decide)]
      rfl

/-- They are digits, and their value is the number. -/
theorem decimal_strDigits (n : Nat) :
    (∀ c ∈ (strDigits n).reverse, '0' ≤ c ∧ c ≤ '9') ∧ decimal (strDigits n).reverse = n := by
  rw [strDigits_eq]
  constructor
  · intro c hc
    obtain ⟨d, hd, rfl⟩ := List.mem_map.1 (List.mem_reverse.1 hc)
    have hlt := Nat.digits_lt_base (by decide) hd
    have hval := toNat_digit hlt
    constructor
    · change '0'.toNat ≤ (Char.ofNat ('0'.toNat + d)).toNat
      omega
    · change (Char.ofNat ('0'.toNat + d)).toNat ≤ '0'.toNat + 9
      omega
  · unfold decimal
    rw [List.reverse_reverse, List.map_map]
    have hid : ∀ d ∈ Nat.digits 10 n, (fun c : Char => c.toNat - '0'.toNat) (Char.ofNat ('0'.toNat + d)) = d := by
      intro d hd
      have := toNat_digit (Nat.digits_lt_base (by decide) hd)
      dsimp only
      omega
    have hmap := List.map_congr_left hid
    rw [List.map_id'] at hmap
    exact (congrArg (Nat.ofDigits 10) hmap).trans (Nat.ofDigits_digits 10 n)

theorem strDigits_ne_nil {n : Nat} (h : 0 < n) : (strDigits n).reverse ≠ [] := by
  rw [strDigits_pos (by omega)]
  simp

/-- `str` writes a numeral of the number, except for the least one. -/
theorem numeral_str {v : Int} (h : InI128 v) (hmin : v ≠ -2 ^ 127) : Numeral (i128Str v) v := by
  unfold InI128 at h
  unfold i128Str
  by_cases hz : v = 0
  · rw [if_pos hz, hz]
    exact ⟨['0'], by simp, by simp, .inl ⟨.inl rfl, rfl⟩⟩
  rw [if_neg hz]
  by_cases hneg : v < 0
  · obtain ⟨n, hn⟩ : ∃ n : Nat, -v = n := ⟨(-v).toNat, by omega⟩
    have hwrap : wrap128 (-v) = n := by
      rw [hn]
      exact Int.bmod_eq_of_le (by omega) (by omega)
    obtain ⟨hd, hval⟩ := decimal_strDigits n
    refine ⟨(strDigits n).reverse, strDigits_ne_nil (by omega), hd, .inr ⟨?_, by omega⟩⟩
    rw [if_pos hneg, if_pos hneg, hwrap, String.toList_ofList]
    rfl
  · obtain ⟨n, rfl⟩ : ∃ n : Nat, v = n := ⟨v.toNat, by omega⟩
    obtain ⟨hd, hval⟩ := decimal_strDigits n
    refine ⟨(strDigits n).reverse, strDigits_ne_nil (by omega), hd, .inl ⟨.inl ?_, by omega⟩⟩
    rw [if_neg hneg, if_neg hneg, String.toList_ofList, List.nil_append]

/-- The least number has no digits in its text. -/
theorem str_min : i128Str (-2 ^ 127) = "-" := by
  have hwrap : wrap128 (-(-2 ^ 127)) = -2 ^ 127 := by decide
  have hnone : strDigits (-2 ^ 127) = [] := strDigits_nonpos (by decide)
  unfold i128Str
  rw [if_neg (by decide), if_pos (by decide), if_pos (by decide), hwrap]
  dsimp only
  rw [hnone]
  rfl

/-! ## The laws -/

/-- For a number and a string the laws hold exactly if the number is not the least one and the string is not a numeral of it. -/
theorem i128Laws_iff {v : Int} {s : String} (h : InI128 v) : I128Laws v s ↔ v ≠ -2 ^ 127 ∧ ¬ Numeral s (-2 ^ 127) := by
  have hread (n : Int) : i128FromString s = .ok n ↔ Numeral s n ∧ -(maxPos : Int) ≤ n ∧ n ≤ maxPos := fromString_ok_iff
  unfold maxPos at hread
  constructor
  · intro hlaws
    constructor
    · rintro rfl
      have htext := hlaws.text
      rw [str_min] at htext
      cases htext
    · intro hmin
      cases hs : i128FromString s with
      | error e => exact hlaws.accepted.1 ⟨e, hs⟩ ⟨-2 ^ 127, hmin, by decide⟩
      | ok n =>
        obtain ⟨hn, hlo, -⟩ := (hread n).1 hs
        have := hmin.unique hn
        omega
  · rintro ⟨hv, hmin⟩
    refine ⟨(reads_getI128 h).back trivial, ?_, ?_⟩
    · refine fromString_ok_iff.2 ⟨numeral_str h hv, ?_⟩
      unfold maxPos
      unfold InI128 at h
      omega
    · constructor
      · rintro ⟨e, he⟩ ⟨n, hn, hin⟩
        have hne : n ≠ -2 ^ 127 := by
          rintro rfl
          exact hmin hn
        unfold InI128 at hin
        rw [(hread n).2 ⟨hn, by omega, by omega⟩] at he
        cases he
      · intro hnone
        cases hs : i128FromString s with
        | error e => exact ⟨e, rfl⟩
        | ok n =>
          obtain ⟨hn, hlo, hhi⟩ := (hread n).1 hs
          refine absurd ⟨n, hn, ?_⟩ hnone
          unfold InI128
          omega

/-- The text of the least number is not read back. -/
theorem i128_laws_false : ¬ ∀ (v : Int) (s : String), InI128 v → I128Laws v s := by
  intro h
  have htext := (h (-2 ^ 127) "0" (by decide)).text
  rw [str_min] at htext
  cases htext

/-- The laws at the greatest number, and at a string that is no numeral. -/
theorem i128Laws_sample : I128Laws (2 ^ 127 - 1) "12a" := by
  refine (i128Laws_iff (by decide)).2 ⟨by decide, ?_⟩
  intro hn
  have hdigits := ((numeral_iff (by decide : "12a".toList = '1' :: ['2', 'a'])).1 hn).2.1
  exact absurd (hdigits 'a' (by decide)) (by decide)

end Grain
