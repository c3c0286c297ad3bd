import Grain.Pack

/-!
# 128-bit numbers as text

`i128::str` and `i128::fromString`. The characters of a `std::string` are those of the `String`; a sum of `__int128` that leaves
the range wraps around. `i128_put` and `i128_get` are with the stored objects.
-/

namespace Grain

/-- The value of an `__int128` expression. -/
def wrap128 (n : Int) : Int := n.bmod (2 ^ 128)

/-- `max_pos`. -/
def maxPos : Nat := 2 ^ 127 - 1

/-- The digit loop of `i128::fromString`. The test keeps `r * 10 + d` from passing `max_pos`. -/
def fromDigits (r : Nat) : List Char → Except String Nat
  | [] => .ok r
  | c :: s =>
    if c < '0' ∨ c > '9' then .error "i128::fromString: bad char"
    else
      let d := c.toNat - '0'.toNat
      if r > (maxPos - d) / 10 then .error "i128::fromString: overflow" else fromDigits (r * 10 + d) s

/-- `i128::fromString`, the error as its text. -/
def i128FromString (s : String) : Except String Int :=
  match s.toList with
  | [] => .error "i128::fromString: empty"
  | c :: t =>
    let digits := if c = '-' ∨ c = '+' then t else c :: t
    if digits.isEmpty then .error "i128::fromString: no digits"
    else do
      let r ← fromDigits 0 digits
      .ok (if c = '-' then wrap128 (-(r : Int)) else r)

/-- The digits that `str` puts into its buffer, the last one first. -/
def strDigits (x : Int) : List Char :=
  if 0 < x then Char.ofNat ('0'.toNat + (x % 10).toNat) :: strDigits (x / 10) else []
termination_by x.toNat
decreasing_by omega

/-- `i128::str`. -/
def i128Str (v : Int) : String :=
  if v = 0 then "0"
  else
    let x := if v < 0 then wrap128 (-v) else v
    String.ofList ((if v < 0 then ['-'] else []) ++ (strDigits x).reverse)

/-- The value of a row of decimal digits. -/
def decimal (digits : List Char) : Nat := Nat.ofDigits 10 (digits.reverse.map fun c => c.toNat - '0'.toNat)

/-- A decimal numeral with or without a sign, and its value. -/
def Numeral (s : String) (v : Int) : Prop :=
  ∃ digits : List Char, digits ≠ [] ∧ (∀ c ∈ digits, '0' ≤ c ∧ c ≤ '9') ∧
    ((s.toList = digits ∨ s.toList = '+' :: digits) ∧ v = decimal digits ∨ s.toList = '-' :: digits ∧ v = -(decimal digits : Int))

end Grain
