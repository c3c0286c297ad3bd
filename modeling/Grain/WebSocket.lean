import Grain.Http
import Grain.Lib.Framing

/-!
# The HTTP server: web sockets

`WebSocket_getFrame` and the web socket branch of `on_StreamRead`. A read brings the bytes that have arrived, and what lies in
memory behind the buffer when the frame is read: the reader looks at the length and the mask without asking whether they have
arrived.
-/

namespace Grain

/-- `WebSocketFrameType`; the types that nothing returns are left out. -/
inductive WebSocketFrameType
  | errorFrame
  | incompleteFrame
  | incompleteTextFrame
  | incompleteBinaryFrame
  | textFrame
  | binaryFrame
  | pingFrame
  | pongFrame
  deriving DecidableEq

/-- A buffer in memory: its bytes, and what is behind them. -/
structure Memory where
  bytes : List UInt8
  beyond : Nat → UInt8

namespace Memory

/-- `in_buffer[i]`. -/
def get (m : Memory) (i : Nat) : UInt8 := m.bytes[i]?.getD (m.beyond (i - m.bytes.length))

/-- The `n` bytes from `i` on, most significant first. -/
def bigEndian (m : Memory) (i n : Nat) : Nat := (List.range n).foldl (fun x j => x * 256 + (m.get (i + j)).toNat) 0

/-- The length that the header states, as `int`, with the position behind it. -/
def payloadLength (m : Memory) : Int × Nat :=
  let lengthField := ((m.get 1) &&& 0x7F).toNat
  if lengthField ≤ 125 then (lengthField, 2)
  else if lengthField = 126 then (m.bigEndian 2 2, 4)
  else (wrap32 (m.bigEndian 2 8), 10)

/-- Byte `i` of the payload at `pos`, unmasked with the four bytes before it. -/
def unmasked (m : Memory) (pos i : Nat) : UInt8 := m.get (pos + i) ^^^ m.get (pos - 4 + i % 4)

/-- The buffer with `n` bytes of payload unmasked in place. -/
def unmask (m : Memory) (pos n : Nat) : List UInt8 :=
  m.bytes.mapIdx fun i x => if pos ≤ i ∧ i < pos + n then m.unmasked pos (i - pos) else x

end Memory

/-- The type of a frame by its opcode and the bit that says whether it is the last. -/
def frameType (opcode : UInt8) (fin : Bool) : WebSocketFrameType :=
  if opcode = 0x0 then (if fin then .textFrame else .incompleteTextFrame)
  else if opcode = 0x1 then (if fin then .textFrame else .incompleteTextFrame)
  else if opcode = 0x2 then (if fin then .binaryFrame else .incompleteBinaryFrame)
  else if opcode = 0x9 then .pingFrame
  else if opcode = 0xA then .pongFrame
  else .errorFrame

/-- What `WebSocket_getFrame` returns: the type, the payload, and the buffer it leaves. -/
structure WebSocketFrame where
  type : WebSocketFrameType
  payload : List UInt8
  buffer : List UInt8

/-- `WebSocket_getFrame`. A negative length raises (`std::length_error`) where the payload is copied. The mask is not counted in
the length that has to be there. -/
def webSocketGetFrame (m : Memory) : Option WebSocketFrame :=
  let inLength := wrap32 m.bytes.length
  if inLength < 2 then some ⟨.incompleteFrame, [], m.bytes⟩
  else
    let opcode := m.get 0 &&& 0x0F
    let fin := (m.get 0 >>> 7) &&& 0x01 = 1
    let masked := (m.get 1 >>> 7) &&& 0x01 = 1
    let (payloadLength, pos) := m.payloadLength
    if inLength < wrap32 (payloadLength + pos) then some ⟨.incompleteFrame, [], m.bytes⟩
    else if payloadLength < 0 then none
    else
      let n := payloadLength.toNat
      if masked then
        some ⟨frameType opcode fin, (List.range n).map (m.unmasked (pos + 4)), m.unmask (pos + 4) n⟩
      else some ⟨frameType opcode fin, (List.range n).map fun i => m.get (pos + i), m.bytes⟩

/-- A read of the connection: the bytes that have arrived, and what is behind the buffer in memory. -/
structure StreamRead where
  data : List UInt8
  beyond : Nat → UInt8 := fun _ => 0

/-- What `on_StreamRead` does with a frame that was read from the buffer: only a text frame empties it, and then all of it; a
message is passed on in any case, except when the type is unknown or the reading has raised. -/
def HttpContext.passFrame (c : HttpContext) (buffer : List UInt8) : Option WebSocketFrame → List HttpEvent × HttpContext
  | none => ([], { c with websocketBuffer := buffer })
  | some ⟨.errorFrame, _, buffer⟩ => ([], { c with websocketBuffer := buffer })
  | some ⟨.textFrame, payload, _⟩ =>
    ([.wsTextMessage { c with websocketBuffer := [] } payload], { c with websocketBuffer := [] })
  | some ⟨_, payload, buffer⟩ =>
    ([.wsTextMessage { c with websocketBuffer := buffer } payload], { c with websocketBuffer := buffer })

/-- `on_StreamRead` of a web socket. -/
def onStreamRead (c : HttpContext) (r : StreamRead) : List HttpEvent × HttpContext :=
  c.passFrame (c.websocketBuffer ++ r.data) (webSocketGetFrame ⟨c.websocketBuffer ++ r.data, r.beyond⟩)

end Grain
