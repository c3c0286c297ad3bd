import Mathlib

/-!
# Machine integers, exceptions and the readers of a transaction's JSON

A `std::string` is a Lean `String` whose characters are its bytes. An `int64_t` is an `Int`; the operations that can leave its
range go through `wrap64` (two's complement), and `InI64` is the range. yyjson's values are `Json`; its parser is code outside
the program, so documents enter the model already parsed.
-/

namespace Grain

/-- The exceptions the modelled code can raise. `commonError` carries the text of `CommonError`; `invalidArgument` and
`outOfRange` are those of `std::stoull`; `nullDeref` is the use of an empty `REF_getter`, `divByZero`
an integer division by zero. -/
inductive Exn
  | commonError (msg : String)
  | invalidArgument
  | outOfRange
  | nullDeref
  | divByZero
  deriving DecidableEq, Repr

/-- How a piece of code ends without a value: it returns an error text to its caller, or it raises an exception. -/
inductive Stop
  | err (msg : String)
  | exn (e : Exn)
  deriving DecidableEq, Repr

/-! ## `int64_t` -/

/-- The two's complement value of an integer in 64 bits. -/
def wrap64 (n : Int) : Int := n.bmod (2 ^ 64)

/-- The two's complement value of an integer in 32 bits. -/
def wrap32 (n : Int) : Int := n.bmod 0x100000000

/-- The range of `int64_t`. -/
def InI64 (n : Int) : Prop := -2 ^ 63 ≤ n ∧ n < 2 ^ 63

instance (n : Int) : Decidable (InI64 n) := inferInstanceAs (Decidable (_ ∧ _))

theorem wrap64_eq {n : Int} (h : InI64 n) : wrap64 n = n := by
  unfold InI64 at h
  unfold wrap64
  rw [Int.bmod_eq_of_le] <;> omega

theorem inI64_wrap64 (n : Int) : InI64 (wrap64 n) := by
  have h₁ := @Int.le_bmod n (2 ^ 64) (by decide)
  have h₂ := @Int.bmod_lt n (2 ^ 64) (by decide)
  unfold InI64 wrap64
  omega

/-! ## JSON values -/

/-- A value of yyjson. A non-negative integer literal is `uint`, a negative one `sint`; of a `real` only its being one
matters. -/
inductive Json
  | null
  | bool (b : Bool)
  | uint (n : Nat)
  | sint (i : Int)
  | real
  | str (s : String)
  | arr (xs : List Json)
  | obj (kvs : List (String × Json))

namespace Json

/-- `yyjson_obj_get`: the first member of that name; nothing if the value is no object. -/
def objGet (key : String) : Json → Option Json
  | .obj kvs => (kvs.find? fun kv => kv.1 == key).map (·.2)
  | _ => none

/-- `yyjson_is_num`. -/
def isNum : Json → Bool
  | .uint _ => true
  | .sint _ => true
  | .real => true
  | _ => false

/-- `yyjson_get_sint`: the 64 bits of an integer read as signed; 0 for any other value. -/
def getSint : Json → Int
  | .uint n => wrap64 n
  | .sint i => wrap64 i
  | _ => 0

/-- `yyjson_get_uint`: the 64 bits of an integer read as unsigned; 0 for any other value. -/
def getUint : Json → Nat
  | .uint n => n % 2 ^ 64
  | .sint i => (i % 2 ^ 64).toNat
  | _ => 0

end Json

/-- The `std::string` made from the `const char *` that yyjson hands out: it ends at the first NUL. -/
def cstr (s : String) : String := String.ofList (s.toList.takeWhile (· ≠ '\x00'))

/-- The whitespace that `strtoull` and `strtoll` skip. -/
def isSpaceC (c : Char) : Bool := c = ' ' || (9 ≤ c.toNat && c.toNat ≤ 13)

/-- Split a numeral as `strtoull` does: sign and leading digits after whitespace; the flag is set for a minus sign. -/
def splitNumeral (s : String) : Bool × List Char :=
  match s.toList.dropWhile isSpaceC with
  | '-' :: cs => (true, cs.takeWhile Char.isDigit)
  | '+' :: cs => (false, cs.takeWhile Char.isDigit)
  | cs => (false, cs.takeWhile Char.isDigit)

/-- The value of a list of decimal digits. -/
def digitsVal (cs : List Char) : Nat := cs.foldl (fun n c => 10 * n + (c.toNat - '0'.toNat)) 0

/-- `std::stoull`, its result stored in an `int64_t`: no digits raise `invalid_argument`, a magnitude of 2^64 or more raises
`out_of_range`, and a minus sign negates modulo 2^64. -/
def stoull (s : String) : Except Stop Int :=
  match splitNumeral s with
  | (_, []) => .error (.exn .invalidArgument)
  | (neg, cs) =>
    if 2 ^ 64 ≤ digitsVal cs then .error (.exn .outOfRange)
    else .ok (wrap64 (if neg then -(digitsVal cs : Int) else digitsVal cs))

/-- `atoll`: no digits give 0, and a value outside `int64_t` its nearest bound. -/
def atoll (s : String) : Int :=
  let (neg, cs) := splitNumeral s
  let v : Int := if neg then -(digitsVal cs : Int) else digitsVal cs
  max (-2 ^ 63) (min v (2 ^ 63 - 1))

/-- `yy_get_string`. -/
def yyGetString (params : Json) (key : String) : Except Stop String :=
  match params.objGet key with
  | none => .error (.err ("param '" ++ key ++ "' must be specified"))
  | some (.str s) => .ok (cstr s)
  | some _ => .error (.err ("'" ++ key ++ "' must be string"))

/-- `yy_get_int64_t`. -/
def yyGetInt64 (params : Json) (key : String) : Except Stop Int :=
  match params.objGet key with
  | none => .error (.err ("param '" ++ key ++ "' must be specified"))
  | some (.str s) => stoull (cstr s)
  | some v => if v.isNum then .ok v.getSint else .error (.err ("'" ++ key ++ "' must be string or num"))

theorem inI64_getSint (v : Json) : InI64 v.getSint := by
  have h0 : InI64 0 := by decide
  cases v <;> first | exact inI64_wrap64 _ | exact h0

theorem inI64_stoull {s : String} {n : Int} (h : stoull s = .ok n) : InI64 n := by
  unfold stoull at h
  split at h
  · nomatch h
  · split at h
    · nomatch h
    · cases h
      exact inI64_wrap64 _

/-- Whatever the reader accepts is an `int64_t`. -/
theorem inI64_yyGetInt64 {params : Json} {key : String} {n : Int} (h : yyGetInt64 params key = .ok n) : InI64 n := by
  unfold yyGetInt64 at h
  split at h
  · nomatch h
  · exact inI64_stoull h
  · split at h
    · cases h
      exact inI64_getSint _
    · nomatch h

/-- A numeral with a minus sign is accepted and read as a negative amount. -/
example : yyGetInt64 (.obj [("amount", .str "-5")]) "amount" = .ok (-5) := by decide +kernel

/-! ## Hexadecimal -/

/-- The value of a hexadecimal digit. -/
def hexVal (c : Char) : Option Nat :=
  if '0' ≤ c ∧ c ≤ '9' then some (c.toNat - '0'.toNat)
  else if 'a' ≤ c ∧ c ≤ 'f' then some (c.toNat - 'a'.toNat + 10)
  else if 'A' ≤ c ∧ c ≤ 'F' then some (c.toNat - 'A'.toNat + 10)
  else none

/-- `base16::decode` over the characters; two at a time. -/
def decodeHexChars : List Char → Except Stop (List Char)
  | [] => .ok []
  | [_] => .error (.exn .invalidArgument)
  | a :: b :: cs =>
    match hexVal a, hexVal b, decodeHexChars cs with
    | some h, some l, .ok r => .ok (Char.ofNat (16 * h + l) :: r)
    | _, _, _ => .error (.exn .invalidArgument)

/-- `base16::decode`: an odd length or a character that is no hexadecimal digit raises `invalid_argument`. -/
def base16Decode (s : String) : Except Stop String := (decodeHexChars s.toList).map String.ofList

/-- The two hexadecimal digits of a byte. -/
def hexDigits (c : Char) : List Char :=
  [Nat.digitChar (c.toNat / 16), Nat.digitChar (c.toNat % 16)]

/-- `base16::encode`. -/
def base16Encode (s : String) : String := String.ofList (s.toList.flatMap hexDigits)

example : base16Decode (base16Encode "A\x7f") = .ok "A\x7f" := by decide +kernel

end Grain
