import Grain.InBuffer
import Grain.Lib.Bits

/-!
# Bit streams

`outBitStream` and `inBitStream` of `_bitStream.cpp`. Bits go into a byte from its low end, so that the byte is right when it is
full, and are taken from a byte from its high end. Numbers, strings and TLV lengths start at a byte.
-/

namespace Grain

/-- `BitsPosition`. -/
structure BitsPosition where
  pos : Nat
  bitsRemainsInByte : Nat
deriving DecidableEq

/-- The position after a bit. -/
def BitsPosition.next (p : BitsPosition) : BitsPosition :=
  if p.bitsRemainsInByte = 1 then ⟨p.pos + 1, 8⟩ else ⟨p.pos, p.bitsRemainsInByte - 1⟩

/-- How a write fails. `boundary` is the check "boundary error on BitStream remainder"; `outside` is a write outside the bytes
that were allocated, or a position that no buffer has, which gives no defined result. -/
inductive BitFault where
  | boundary
  | outside
deriving DecidableEq

/-- `outBitStream`. `buffer` holds what the memory holds: bytes that were not written have any value. -/
structure OutBitStream where
  buffer : Nat → Char
  bufsize : Nat
  mPos : BitsPosition

namespace OutBitStream

/-- The constructor, with the memory that `malloc` and `realloc` will give. -/
def new (memory : Nat → Char) : OutBitStream := ⟨memory, 256, ⟨0, 8⟩⟩

/-- `adjust`. -/
def adjust (o : OutBitStream) (n : Nat) : OutBitStream :=
  if o.bufsize ≤ o.mPos.pos + n then { o with bufsize := o.mPos.pos + n + 1024 } else o

/-- The body of the loop of `put_bits`. -/
def putBit (o : OutBitStream) (bit : Bool) : Except BitFault OutBitStream :=
  if o.bufsize ≤ o.mPos.pos then .error .outside
  else
    let byte := (o.buffer o.mPos.pos).toNat * 2 % 256 + bit.toNat
    .ok { o with buffer := Function.update o.buffer o.mPos.pos (Char.ofNat byte), mPos := o.mPos.next }

/-- The loop of `put_bits` over the bits below `i`. -/
def putBitsLoop (o : OutBitStream) (val : Nat) : Nat → Except BitFault OutBitStream
  | 0 => .ok o
  | i + 1 => do
    let o ← o.putBit (val.testBit i)
    putBitsLoop o val i

/-- `put_bits`; `val` is an `unsigned int`. -/
def putBits (o : OutBitStream) (val bitcount : Nat) : Except BitFault OutBitStream :=
  if o.mPos.bitsRemainsInByte = 0 then .error .boundary
  else (o.adjust (bitcount / 8)).putBitsLoop val bitcount

/-- `put_8$`. -/
def put8 (o : OutBitStream) (c : Char) : Except BitFault OutBitStream :=
  if o.mPos.bitsRemainsInByte ≠ 8 then .error .boundary
  else if o.bufsize ≤ o.mPos.pos then .error .outside
  else .ok { o with buffer := Function.update o.buffer o.mPos.pos c, mPos := ⟨o.mPos.pos + 1, 8⟩ }

/-- `put_8$` of bytes one after the other. -/
def put8s (o : OutBitStream) : Buffer → Except BitFault OutBitStream
  | [] => .ok o
  | c :: l => do
    let o ← o.put8 c
    put8s o l

/-- `put_PN$` and `operator<<` of a `uint64_t`: the groups of a number from bit 56 on, the empty ones in front skipped. -/
def putPN (o : OutBitStream) (n : Nat) : Except BitFault OutBitStream := (o.adjust 10).put8s (skipGroups n 8)

/-- `operator<<` of an `int64_t`: the same groups of its two's complement. -/
def putInt64 (o : OutBitStream) (n : Int) : Except BitFault OutBitStream :=
  (o.adjust 10).put8s (skipGroups (n % 2 ^ 64).toNat 8)

/-- `memcpy` of bytes to a place of the buffer. -/
def copy (buffer : Nat → Char) (pos : Nat) (l : Buffer) (i : Nat) : Char :=
  if i < pos then buffer i else (l[i - pos]?).getD (buffer i)

/-- `Pack$`. The position moves by `(int)s.size()`; below zero it is one that no buffer has. -/
def pack (o : OutBitStream) (s : String) : Except BitFault OutBitStream :=
  if o.mPos.bitsRemainsInByte ≠ 8 then .error .boundary
  else if o.bufsize < o.mPos.pos + s.length then .error .outside
  else
    let pos : Int := o.mPos.pos + wrap32 s.length
    if pos < 0 then .error .outside
    else .ok { o with buffer := copy o.buffer o.mPos.pos s.toList, mPos := ⟨pos.toNat, 8⟩ }

/-- `put_PSTR`. -/
def putPSTR (o : OutBitStream) (s : String) : Except BitFault OutBitStream := do
  let o ← (o.adjust (5 + s.length)).putPN s.length
  o.pack s

/-- `putTLVLength`; `put_bits` takes the low 32 bits of a length. -/
def putTLVLength (o : OutBitStream) (len : Nat) : Except BitFault OutBitStream :=
  if o.mPos.bitsRemainsInByte ≠ 8 then .error .boundary
  else if len < 128 then do
    let o ← o.putBits 0 1
    o.putBits (len % 2 ^ 32) 7
  else do
    let o ← o.putBits 1 1
    if len < 0x10000 then
      let o ← o.putBits 2 7
      o.putBits (len % 2 ^ 32) 16
    else if len < 0x1000000 then
      let o ← o.putBits 3 7
      o.putBits (len % 2 ^ 32) 24
    else
      let o ← o.putBits 4 7
      o.putBits (len % 2 ^ 32) 32

/-- `asString`. -/
def asString (o : OutBitStream) : Except BitFault Buffer :=
  if o.mPos.bitsRemainsInByte ≠ 8 then .error .boundary else .ok ((List.range o.mPos.pos).map o.buffer)

end OutBitStream

/-- `inBitStream`. -/
structure InBitStream where
  data : Buffer
  mPos : BitsPosition

namespace InBitStream

/-- The constructor. -/
def new (data : Buffer) : InBitStream := ⟨data, ⟨0, 8⟩⟩

/-- `get_bit`. It does not look for the end of the data: what it reads there is not defined, and so no result. -/
def getBit (b : InBitStream) : Option (Bool × InBitStream) :=
  match b.data[b.mPos.pos]? with
  | none => none
  | some c => some (c.toNat.testBit (b.mPos.bitsRemainsInByte - 1), { b with mPos := b.mPos.next })

/-- The loop of `get_bits`, on the 32 bits of the `int`. -/
def getBitsLoop (b : InBitStream) (val : Nat) : Nat → Option (Nat × InBitStream)
  | 0 => some (val, b)
  | i + 1 => do
    let r ← b.getBit
    getBitsLoop r.2 (val * 2 % 2 ^ 32 + r.1.toNat) i

/-- `get_bits`. -/
def getBits (b : InBitStream) (bitcount : Nat) : Option (Int × InBitStream) := do
  let r ← b.getBitsLoop 0 bitcount
  pure (wrap32 r.1, r.2)

/-- An `int` as an `unsigned int`. -/
def toUInt (n : Int) : Nat := (n % 2 ^ 32).toNat

/-- `get_PN`. Every `get_8` checks the place in the byte, and none changes it. -/
def getPN (b : InBitStream) : Option (Nat × InBitStream) :=
  if b.mPos.bitsRemainsInByte ≠ 8 then none
  else do
    let r ← InBuffer.getPN ⟨b.data, b.mPos.pos⟩
    pure (r.1, { b with mPos := ⟨r.2.outPos, 8⟩ })

/-- `get_PSTR`. -/
def getPSTR (b : InBitStream) : Option (String × InBitStream) := do
  let r ← b.getPN
  let sz := r.1
  let pos := r.2.mPos.pos
  if b.data.length - pos < sz then none
  else pure (String.ofList ((b.data.drop pos).take sz), { b with mPos := ⟨pos + sz, 8⟩ })

/-- `getTlvLength`. -/
def getTlvLength (b : InBitStream) : Option (Nat × InBitStream) := do
  let r ← b.getBit
  if r.1 = false then
    let v ← r.2.getBits 7
    pure (toUInt v.1, v.2)
  else
    let llen ← r.2.getBits 7
    if llen.1 > 4 then none
    else
      let v ← llen.2.getBits (llen.1 * 8).toNat
      pure (toUInt v.1, v.2)

end InBitStream

/-! ## Sequences of writes and of reads -/

/-- What is written: a bit field, a number as `uint64_t` or as `int64_t`, a string, a TLV length. -/
inductive BitItem where
  | bits (bitcount val : Nat)
  | unsigned (n : Nat)
  | signed (n : Int)
  | str (s : String)
  | tlv (len : Nat)
deriving DecidableEq

/-- What the reader asks for. -/
inductive BitKind where
  | bits (bitcount : Nat)
  | unsigned
  | signed
  | str
  | tlv
deriving DecidableEq

/-- The read that corresponds to a write. -/
def BitItem.kind : BitItem → BitKind
  | .bits bitcount _ => .bits bitcount
  | .unsigned _ => .unsigned
  | .signed _ => .signed
  | .str _ => .str
  | .tlv _ => .tlv

/-- The value is one of its type: a field fits, a string consists of bytes. -/
def BitItem.Fits : BitItem → Prop
  | .bits bitcount val => bitcount ≤ 32 ∧ val < 2 ^ bitcount
  | .unsigned n => n < 2 ^ 64
  | .signed n => InI64 n
  | .str s => Sized s ∧ Bits.AllBytes s.toList
  | .tlv len => len < 2 ^ 32

/-- A write. -/
def OutBitStream.write (o : OutBitStream) : BitItem → Except BitFault OutBitStream
  | .bits bitcount val => o.putBits val bitcount
  | .unsigned n => o.putPN n
  | .signed n => o.putInt64 n
  | .str s => o.putPSTR s
  | .tlv len => o.putTLVLength len

/-- A read. A bit field is compared as the `unsigned int` that was written. -/
def InBitStream.read (b : InBitStream) : BitKind → Option (BitItem × InBitStream)
  | .bits bitcount => do
    let r ← b.getBits bitcount
    pure (.bits bitcount (InBitStream.toUInt r.1), r.2)
  | .unsigned => do
    let r ← b.getPN
    pure (.unsigned r.1, r.2)
  | .signed => do
    let r ← b.getPN
    pure (.signed (wrap64 r.1), r.2)
  | .str => do
    let r ← b.getPSTR
    pure (.str r.1, r.2)
  | .tlv => do
    let r ← b.getTlvLength
    pure (.tlv r.1, r.2)

/-- Writes one after the other, with the position after each. -/
def OutBitStream.writeAll (o : OutBitStream) : List BitItem → Except BitFault (List BitsPosition × OutBitStream)
  | [] => .ok ([], o)
  | x :: l => do
    let o ← o.write x
    let r ← writeAll o l
    pure (o.mPos :: r.1, r.2)

/-- Reads one after the other: each value, and the position after it. -/
def InBitStream.readAll (b : InBitStream) : List BitKind → Option (List (BitItem × BitsPosition))
  | [] => some []
  | k :: l => do
    let r ← b.read k
    let rest ← readAll r.2 l
    pure ((r.1, r.2.mPos) :: rest)

/-- Write a sequence to a new stream and take the bytes: the position after each write, and the bytes. -/
def writeStream (memory : Nat → Char) (items : List BitItem) : Except BitFault (List BitsPosition × Buffer) := do
  let r ← (OutBitStream.new memory).writeAll items
  let data ← r.2.asString
  pure (r.1, data)

end Grain
