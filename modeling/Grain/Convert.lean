import Grain.Contract

/-!
# Values across contracts

How a JavaScript value leaves a contract and comes back (`convert.cpp`): `serialize_value` writes it as text, `getGranule` reads
the text as JSON, and the result of a call between contracts is read by evaluating the text in the caller's context.

A `std::string` is the list of its bytes, and a JavaScript string is the bytes `JSI_ToCStringLen` gives for it: its UTF-8, where a
lone surrogate stands as three bytes that are not UTF-8. Of `JSI_Eval` the model has the literals; a text that is more than a
literal is `code`. The prototypes of objects are as the engine made them.
-/

namespace Grain

namespace Convert

/-- A `std::string`: its bytes. -/
abbrev Text := List Char

/-- A JavaScript value. The holes of an array read as `undefined`; `exotic` is a function, a class instance or any other object
that is neither an array nor a plain object, with its enumerable properties; `symbol` is a value of no other kind. -/
inductive Jsi
  | undefined
  | null
  | bool (b : Bool)
  | int (n : Int64)
  | str (s : Text)
  | arr (items : List Jsi)
  | obj (props : List (Text × Jsi))
  | exotic (props : List (Text × Jsi))
  | symbol

mutual

/-- The properties of an object have different names. -/
def Jsi.Distinct : Jsi → Prop
  | .arr items => DistinctItems items
  | .obj props => (props.map (·.1)).Nodup ∧ DistinctProps props
  | .exotic props => (props.map (·.1)).Nodup ∧ DistinctProps props
  | _ => True

def Jsi.DistinctItems : List Jsi → Prop
  | [] => True
  | v :: vs => Jsi.Distinct v ∧ DistinctItems vs

def Jsi.DistinctProps : List (Text × Jsi) → Prop
  | [] => True
  | (_, v) :: ps => Jsi.Distinct v ∧ DistinctProps ps

end

/-- A value as the engine can have it. -/
structure JsiValue where
  val : Jsi
  distinct : val.Distinct

/-! ## `serialize_value` -/

/-- `MAX_SERIALIZE_DEPTH`. -/
def maxSerializeDepth : Nat := 32

/-- `MAX_GRANULE_SIZE` is in bytes. -/
abbrev maxSize : Nat := maxGranuleSize

/-- One byte of a string, escaped. -/
def escapeByte (c : Char) : Text :=
  if c = '"' then ['\\', '"']
  else if c = '\\' then ['\\', '\\']
  else if c = '\n' then ['\\', 'n']
  else if c = '\r' then ['\\', 'r']
  else if c = '\t' then ['\\', 't']
  else if c.toNat < 0x20 then ['\\', 'u', '0', '0', Nat.digitChar (c.toNat / 16), Nat.digitChar (c.toNat % 16)]
  else [c]

/-- `%lld`. -/
def intText (n : Int) : Text :=
  if n < 0 then '-' :: Nat.toDigits 10 n.natAbs else Nat.toDigits 10 n.natAbs

/-- The texts of the items or members, with commas between them. -/
def commaSep : List Text → Text
  | [] => []
  | [t] => t
  | t :: ts => t ++ ',' :: commaSep ts

/-- The C string of a name: it ends at the first NUL. -/
def cName (k : Text) : Text := k.takeWhile (· ≠ '\x00')

/-- A member as `serialize_value` writes it: the name goes in as it is. -/
def memberText (k t : Text) : Text := '"' :: k ++ '"' :: ':' :: t

/-- The text of an object: its names as C strings, sorted, each with the property found under it. `texts` has the own
properties; `inherited` is what the prototype chain has for a name the object itself lacks. -/
def objectText (names : List Text) (texts : List (Text × Text)) (inherited : Text → Text) : Text :=
  '{' :: commaSep ((names.insertionSort (· ≤ ·)).map fun k => memberText k ((texts.lookup k).getD (inherited k))) ++ ['}']

/-- The depth check that comes before everything else. -/
def withinDepth (depth : Nat) (t : Text) : Text :=
  if depth > maxSerializeDepth then "<too deep>".toList else t

/-- `undefined` is written as it is, which is no JSON. -/
def undefinedText : Text := ['u', 'n', 'd', 'e', 'f', 'i', 'n', 'e', 'd']

section
variable (inherited : Nat → Text → Text)

mutual

/-- `serialize_value`. -/
def serialize : Jsi → Nat → Text
  | .undefined, depth => withinDepth depth undefinedText
  | .null, depth => withinDepth depth ['n', 'u', 'l', 'l']
  | .bool b, depth => withinDepth depth (if b then ['t', 'r', 'u', 'e'] else ['f', 'a', 'l', 's', 'e'])
  | .int n, depth => withinDepth depth (intText n.toInt)
  | .str s, depth => withinDepth depth ('"' :: s.flatMap escapeByte ++ ['"'])
  | .arr items, depth => withinDepth depth ('[' :: commaSep (serializeItems items (depth + 1)) ++ [']'])
  | .obj props, depth => withinDepth depth
      (objectText (props.map (cName ·.1)) (serializeProps props (depth + 1)) (inherited (depth + 1)))
  | .exotic props, depth => withinDepth depth
      (objectText (props.map (cName ·.1)) (serializeProps props (depth + 1)) (inherited (depth + 1)))
  | .symbol, depth => withinDepth depth "<unknown>".toList

/-- The texts of an array's items. -/
def serializeItems : List Jsi → Nat → List Text
  | [], _ => []
  | v :: vs, depth => serialize v depth :: serializeItems vs depth

/-- The texts of an object's own properties under their full names. -/
def serializeProps : List (Text × Jsi) → Nat → List (Text × Text)
  | [], _ => []
  | (k, v) :: ps, depth => (k, serialize v depth) :: serializeProps ps depth

end

end

/-- `is_serializable`. -/
def isSerializable (s : Text) : Bool := !s.contains '<'

/-! ## Literals

JSON texts and the literals among the scripts have one shape, and differ in what a string and a number may look like. -/

/-- A literal as it is written; `real` is a number that is no `int64_t` or `uint64_t`. -/
inductive Lit
  | null
  | bool (b : Bool)
  | int (n : Int)
  | real
  | str (s : Text)
  | arr (items : List Lit)
  | obj (members : List (Text × Lit))

/-- What the two languages do not share: one step of a string's body, giving the bytes it stands for and the rest, and the end of
a number after its sign and whole part. -/
structure Dialect where
  unit : Text → Option (Text × Text)
  number : Bool → Nat → Text → Option (Lit × Text)

def isSpace (c : Char) : Bool := c = ' ' || c = '\t' || c = '\n' || c = '\r'

def skipSpace (cs : Text) : Text := cs.dropWhile isSpace

/-- Is this one UTF-8 sequence? -/
def isSequence : Text → Bool
  | [a] => a.toNat < 0x80
  | [a, b] => 0xC2 ≤ a.toNat && a.toNat ≤ 0xDF && isTail 0x80 0xBF b
  | [a, b, c] => isTail 0x80 0xBF c &&
      ((a.toNat = 0xE0 && isTail 0xA0 0xBF b) || (a.toNat = 0xED && isTail 0x80 0x9F b) ||
        (0xE1 ≤ a.toNat && a.toNat ≤ 0xEF && a.toNat ≠ 0xED && isTail 0x80 0xBF b))
  | [a, b, c, d] => isTail 0x80 0xBF c && isTail 0x80 0xBF d &&
      ((a.toNat = 0xF0 && isTail 0x90 0xBF b) || (a.toNat = 0xF4 && isTail 0x80 0x8F b) ||
        (0xF1 ≤ a.toNat && a.toNat ≤ 0xF3 && isTail 0x80 0xBF b))
  | _ => false
where
  /-- A later byte of a sequence. -/
  isTail (lo hi : Nat) (c : Char) : Bool := lo ≤ c.toNat && c.toNat ≤ hi

/-- The bytes are UTF-8: one sequence after another. -/
def isUtf8 : Text → Bool
  | [] => true
  | a :: cs =>
    if isSequence [a] then isUtf8 cs else
      match cs with
      | [] => false
      | b :: cs =>
        if isSequence [a, b] then isUtf8 cs else
          match cs with
          | [] => false
          | c :: cs =>
            if isSequence [a, b, c] then isUtf8 cs else
              match cs with
              | [] => false
              | d :: cs => isSequence [a, b, c, d] && isUtf8 cs

/-- The body of a string up to its closing quote. -/
def scanString (unit : Text → Option (Text × Text)) : Nat → Text → Option (Text × Text)
  | 0, _ => none
  | _ + 1, '"' :: cs => some ([], cs)
  | n + 1, cs => do
    let (b, cs) ← unit cs
    let (s, cs) ← scanString unit n cs
    some (b ++ s, cs)

/-- A string after its opening quote. Both readers want UTF-8. -/
def readString (unit : Text → Option (Text × Text)) (cs : Text) : Option (Text × Text) := do
  let (s, cs) ← scanString unit (cs.length + 1) cs
  if isUtf8 s then some (s, cs) else none

/-- The whole part of a number: `0`, or digits of which the first is not `0`. -/
def scanNat : Text → Option (Nat × Text)
  | '0' :: cs => some (0, cs)
  | cs => match cs.takeWhile Char.isDigit with
    | [] => none
    | ds => some (Nat.ofDigitChars 10 ds 0, cs.dropWhile Char.isDigit)

def readNumber (L : Dialect) : Text → Option (Lit × Text)
  | '-' :: cs => do
    let (n, cs) ← scanNat cs
    L.number true n cs
  | cs => do
    let (n, cs) ← scanNat cs
    L.number false n cs

section
variable (L : Dialect)

mutual

/-- One value; every call uses up fuel, and twice the length of the text is enough. -/
def readValue : Nat → Text → Option (Lit × Text)
  | 0, _ => none
  | fuel + 1, cs =>
    match skipSpace cs with
    | 'n' :: 'u' :: 'l' :: 'l' :: cs => some (.null, cs)
    | 't' :: 'r' :: 'u' :: 'e' :: cs => some (.bool true, cs)
    | 'f' :: 'a' :: 'l' :: 's' :: 'e' :: cs => some (.bool false, cs)
    | '"' :: cs => (readString L.unit cs).map fun p => (.str p.1, p.2)
    | '[' :: cs =>
      match skipSpace cs with
      | ']' :: cs => some (.arr [], cs)
      | cs => (readItems fuel cs).map fun p => (.arr p.1, p.2)
    | '{' :: cs =>
      match skipSpace cs with
      | '}' :: cs => some (.obj [], cs)
      | cs => (readMembers fuel cs).map fun p => (.obj p.1, p.2)
    | cs => readNumber L cs

/-- The items of an array, and its closing bracket. -/
def readItems : Nat → Text → Option (List Lit × Text)
  | 0, _ => none
  | fuel + 1, cs => do
    let (v, cs) ← readValue fuel cs
    match skipSpace cs with
    | ',' :: cs => (readItems fuel cs).map fun p => (v :: p.1, p.2)
    | ']' :: cs => some ([v], cs)
    | _ => none

/-- The members of an object, and its closing brace. -/
def readMembers : Nat → Text → Option (List (Text × Lit) × Text)
  | 0, _ => none
  | fuel + 1, cs =>
    match skipSpace cs with
    | '"' :: cs => do
      let (k, cs) ← readString L.unit cs
      match skipSpace cs with
      | ':' :: cs => do
        let (v, cs) ← readValue fuel cs
        match skipSpace cs with
        | ',' :: cs => (readMembers fuel cs).map fun p => ((k, v) :: p.1, p.2)
        | '}' :: cs => some ([(k, v)], cs)
        | _ => none
      | _ => none
    | _ => none

end

end

/-! ## `json::parse` and `json_to_jsi` -/

/-- The value of a hexadecimal digit. -/
def hexVal (c : Char) : Option Nat :=
  if '0' ≤ c ∧ c ≤ '9' then some (c.toNat - 48)
  else if 'a' ≤ c ∧ c ≤ 'f' then some (c.toNat - 87)
  else if 'A' ≤ c ∧ c ≤ 'F' then some (c.toNat - 55)
  else none

/-- Four hexadecimal digits. -/
def hex4 : Text → Option (Nat × Text)
  | a :: b :: c :: d :: cs => do
    let a ← hexVal a
    let b ← hexVal b
    let c ← hexVal c
    let d ← hexVal d
    some (((a * 16 + b) * 16 + c) * 16 + d, cs)
  | _ => none

/-- The code point of `\u`, of which a surrogate must come as a pair. -/
def jsonCodePoint (cs : Text) : Option (Nat × Text) := do
  let (hi, cs) ← hex4 cs
  if 0xD800 ≤ hi ∧ hi ≤ 0xDBFF then
    match cs with
    | '\\' :: 'u' :: cs => do
      let (lo, cs) ← hex4 cs
      if 0xDC00 ≤ lo ∧ lo ≤ 0xDFFF then some (0x10000 + (hi - 0xD800) * 0x400 + (lo - 0xDC00), cs) else none
    | _ => none
  else if 0xDC00 ≤ hi ∧ hi ≤ 0xDFFF then none
  else some (hi, cs)

/-- The UTF-8 bytes of a code point. -/
def utf8Encode (cp : Nat) : Text :=
  if cp < 0x80 then [Char.ofNat cp]
  else if cp < 0x800 then [Char.ofNat (0xC0 + cp / 64), Char.ofNat (0x80 + cp % 64)]
  else if cp < 0x10000 then
    [Char.ofNat (0xE0 + cp / 4096), Char.ofNat (0x80 + cp / 64 % 64), Char.ofNat (0x80 + cp % 64)]
  else
    [Char.ofNat (0xF0 + cp / 262144), Char.ofNat (0x80 + cp / 4096 % 64), Char.ofNat (0x80 + cp / 64 % 64),
      Char.ofNat (0x80 + cp % 64)]

/-- The escapes of JSON other than `\u`. -/
def jsonEscape : Char → Option Char
  | '"' => some '"'
  | '\\' => some '\\'
  | '/' => some '/'
  | 'b' => some '\x08'
  | 'f' => some '\x0c'
  | 'n' => some '\n'
  | 'r' => some '\r'
  | 't' => some '\t'
  | _ => none

/-- One step of `scan_string`: an escape, or a byte that is no control character. -/
def jsonUnit : Text → Option (Text × Text)
  | '\\' :: 'u' :: cs => (jsonCodePoint cs).map fun p => (utf8Encode p.1, p.2)
  | '\\' :: c :: cs => (jsonEscape c).map fun b => ([b], cs)
  | c :: cs => if c = '\\' ∨ c.toNat < 0x20 then none else some ([c], cs)
  | [] => none

/-- The exponent of a number, if it has one. -/
def scanExponent : Text → Option Text
  | e :: cs =>
    if e = 'e' ∨ e = 'E' then
      let cs := match cs with
        | '+' :: cs => cs
        | '-' :: cs => cs
        | cs => cs
      if (cs.takeWhile Char.isDigit).isEmpty then none else some (cs.dropWhile Char.isDigit)
    else some (e :: cs)
  | [] => some []

/-- The end of `scan_number`: a fraction or an exponent makes it a `double`, and so does a value that fits no 64 bits. -/
def jsonNumber (neg : Bool) (n : Nat) : Text → Option (Lit × Text)
  | '.' :: cs =>
    if (cs.takeWhile Char.isDigit).isEmpty then none
    else (scanExponent (cs.dropWhile Char.isDigit)).map fun cs => (.real, cs)
  | cs => do
    let rest ← scanExponent cs
    if rest ≠ cs then some (.real, rest)
    else if neg then some (if n ≤ 2 ^ 63 then .int (-n) else .real, rest)
    else some (if n < 2 ^ 64 then .int n else .real, rest)

/-- The JSON of `nlohmann::json`. -/
def jsonDialect : Dialect := { unit := jsonUnit, number := jsonNumber }

/-- `json::parse`: one value and nothing after it. -/
def jsonParse (s : Text) : Option Lit := do
  let (v, rest) ← readValue jsonDialect (2 * s.length + 2) s
  if skipSpace rest = [] then some v else none

/-- Put a member into a `std::map`: of members with one name the last one stays. -/
def mapSet {α : Type} (k : Text) (v : α) : List (Text × α) → List (Text × α)
  | [] => [(k, v)]
  | (k', v') :: m =>
    if k < k' then (k, v) :: (k', v') :: m
    else if k = k' then (k, v) :: m
    else (k', v') :: mapSet k v m

/-- The `std::map` of an object's members. -/
def mapOf {α : Type} (members : List (Text × α)) : List (Text × α) :=
  members.foldl (fun m kv => mapSet kv.1 kv.2 m) []

def protoName : Text := ['_', '_', 'p', 'r', 'o', 't', 'o', '_', '_']

/-- Define a property of an object: a new one comes last. -/
def defineProp (k : Text) (v : Jsi) : List (Text × Jsi) → List (Text × Jsi)
  | [] => [(k, v)]
  | (k', v') :: ps => if k = k' then (k, v) :: ps else (k', v') :: defineProp k v ps

/-- Set a property of a new object. Under `__proto__` there is a setter, which makes no property. -/
def setProp (k : Text) (v : Jsi) (props : List (Text × Jsi)) : List (Text × Jsi) :=
  if k = protoName then props else defineProp k v props

/-- Set the properties one after the other; one that could not be made stops it. -/
def setProps : List (Text × Option Jsi) → List (Text × Jsi) → Option (List (Text × Jsi))
  | [], props => some props
  | (k, v) :: kvs, props => v.bind fun v => setProps kvs (setProp k v props)

mutual

/-- `json_to_jsi`; a float is a `TypeError`. The names of an object go through `c_str()`. -/
def jsonToJsi : Lit → Option Jsi
  | .null => some .null
  | .bool b => some (.bool b)
  | .int n => some (.int (Int64.ofInt n))
  | .real => none
  | .str s => some (.str s)
  | .arr items => (jsonItems items).map .arr
  | .obj members => (setProps ((mapOf (jsonMembers members)).map fun kv => (cName kv.1, kv.2)) []).map .obj

def jsonItems : List Lit → Option (List Jsi)
  | [] => some []
  | v :: vs => (jsonToJsi v).bind fun w => (jsonItems vs).map (w :: ·)

def jsonMembers : List (Text × Lit) → List (Text × Option Jsi)
  | [] => []
  | (k, v) :: ms => (k, jsonToJsi v) :: jsonMembers ms

end

/-- What `jsi_getGranule` makes of the stored text. -/
def granuleValue (s : Text) : Option Jsi := (jsonParse s).bind jsonToJsi

/-! ## The literals of `JSI_Eval` and `convert_value` -/

/-- One step of a string's body in a script, for the escapes that `serialize_value` writes. -/
def scriptUnit : Text → Option (Text × Text)
  | '\\' :: 'u' :: cs => do
    let (cp, cs) ← hex4 cs
    if cp < 0x80 then some ([Char.ofNat cp], cs) else none
  | '\\' :: c :: cs =>
    match c with
    | '"' => some (['"'], cs)
    | '\\' => some (['\\'], cs)
    | 'n' => some (['\n'], cs)
    | 'r' => some (['\r'], cs)
    | 't' => some (['\t'], cs)
    | _ => none
  | c :: cs => if c = '\\' ∨ c = '\n' ∨ c = '\r' then none else some ([c], cs)
  | [] => none

/-- A whole number goes through `strtoll` and then takes its sign; one that is too large is an error (`number too large`). -/
def scriptNumber (neg : Bool) (n : Nat) (cs : Text) : Option (Lit × Text) :=
  some (if n < 2 ^ 63 then .int (if neg then -n else n) else .real, cs)

def scriptDialect : Dialect := { unit := scriptUnit, number := scriptNumber }

mutual

/-- The value of a literal, or the error it raises: `__proto__` sets the prototype, and only once. -/
def evalLit : Lit → Option Jsi
  | .null => some .null
  | .bool b => some (.bool b)
  | .int n => some (.int (Int64.ofInt n))
  | .real => none
  | .str s => some (.str s)
  | .arr items => (evalItems items).map .arr
  | .obj members =>
    if (members.map (·.1)).count protoName > 1 then none else (evalMembers members []).map .obj

def evalItems : List Lit → Option (List Jsi)
  | [] => some []
  | v :: vs => (evalLit v).bind fun w => (evalItems vs).map (w :: ·)

/-- The members are defined in the order they are written. -/
def evalMembers : List (Text × Lit) → List (Text × Jsi) → Option (List (Text × Jsi))
  | [], props => some props
  | (k, v) :: ms, props => (evalLit v).bind fun w => evalMembers ms (setProp k w props)

end

/-- What evaluating a text does: it has a value, it raises an exception, or it is more than a literal and runs as code. -/
inductive Outcome
  | value (v : Jsi)
  | throws
  | code

/-- `JSI_Eval` of a literal in parentheses. -/
def evalText (s : Text) : Outcome :=
  match s with
  | '(' :: cs =>
    match readValue scriptDialect (2 * cs.length + 2) cs with
    | some (v, rest) =>
      if skipSpace rest = [')'] then
        match evalLit v with
        | some w => .value w
        | none => .throws
      else .code
    | none => .code
  | _ => .code

/-- `convert_value`. -/
def convertValue (inherited : Nat → Text → Text) (v : Jsi) : Outcome :=
  let s := serialize inherited v 0
  if isSerializable s then evalText ('(' :: s ++ [')']) else .throws

/-! ## What takes a value -/

/-- The ways a value leaves a contract: `createGranule` and `setGranule`, `emit`, and the return from a call. -/
inductive Exit
  | granule
  | emit
  | call
  deriving DecidableEq

/-- The checks on the value: a granule must not be `undefined` and is bounded in size. -/
def accepts (inherited : Nat → Text → Text) (e : Exit) (v : Jsi) : Bool :=
  let s := serialize inherited v 0
  match e with
  | .granule => (match v with | .undefined => false | _ => true) && isSerializable s && s.length ≤ maxSize
  | .emit => isSerializable s
  | .call => isSerializable s

/-! ## Equal values -/

mutual

/-- The value with the properties of its objects in the order of their names. -/
def canon : Jsi → Jsi
  | .arr items => .arr (canonItems items)
  | .obj props => .obj ((canonProps props).insertionSort (·.1 ≤ ·.1))
  | .exotic props => .exotic ((canonProps props).insertionSort (·.1 ≤ ·.1))
  | v => v

def canonItems : List Jsi → List Jsi
  | [] => []
  | v :: vs => canon v :: canonItems vs

def canonProps : List (Text × Jsi) → List (Text × Jsi)
  | [] => []
  | (k, v) :: ps => (k, canon v) :: canonProps ps

end

/-- Equal values: they differ at most in the order of properties. -/
def Same (v w : Jsi) : Prop := canon v = canon w

mutual

/-- Data: `null`, booleans, the integers of `I`, the strings of `S`, and arrays and plain objects of these, with names of `N`. -/
def All (N S : Text → Prop) (I : Int64 → Prop) : Jsi → Prop
  | .null => True
  | .bool _ => True
  | .int n => I n
  | .str s => S s
  | .arr items => AllItems N S I items
  | .obj props => AllProps N S I props
  | .undefined => False
  | .exotic _ => False
  | .symbol => False

def AllItems (N S : Text → Prop) (I : Int64 → Prop) : List Jsi → Prop
  | [] => True
  | v :: vs => All N S I v ∧ AllItems N S I vs

def AllProps (N S : Text → Prop) (I : Int64 → Prop) : List (Text × Jsi) → Prop
  | [] => True
  | (k, v) :: ps => (N k ∧ All N S I v) ∧ AllProps N S I ps

end

end Convert

end Grain
