import Grain.WebSocket

/-!
# The web socket client

`WebSocket_makeFrame` of the HTTP server, and `StreamRead` of `webSocketClientService.cpp`. The socket service appends what it
has read to `inBuffer_` before every `StreamRead`.
-/

namespace Grain

/-- `WebSocket_makeFrame`; the length of the message is an `int`. -/
def webSocketMakeFrame (frameType : UInt8) (msg : List UInt8) : List UInt8 :=
  let size := msg.length
  if size ≤ 125 then [frameType, UInt8.ofNat size] ++ msg
  else if size ≤ 65535 then [frameType, 126, UInt8.ofNat (size >>> 8), UInt8.ofNat size] ++ msg
  else
    [frameType, 127, 0, 0, 0, 0, UInt8.ofNat (size >>> 24), UInt8.ofNat (size >>> 16), UInt8.ofNat (size >>> 8), UInt8.ofNat size] ++
      msg

/-- The value of `TEXT_FRAME`. -/
def textFrameByte : UInt8 := 0x81

/-- A connection of the client: `awaiting_handshake` and `inBuffer_`. -/
structure WebSocketClient where
  awaitingHandshake : Bool
  buffer : List UInt8

/-- What the client passes on. -/
inductive WebSocketClientEvent
  | connected
  | received (msg : List UInt8)

/-- `std::string::find`. -/
def findBytes (pat : List UInt8) : List UInt8 → Option Nat
  | [] => if pat = [] then some 0 else none
  | c :: s => if pat.isPrefixOf (c :: s) then some 0 else (findBytes pat s).map (· + 1)

/-- A text as bytes. -/
def asciiBytes (s : String) : List UInt8 := s.toList.map fun c => UInt8.ofNat c.toNat

namespace WebSocketClient

/-- The answer to the handshake: it is cut off the buffer once it has arrived, and the client is connected if it says so. -/
def handshake (c : WebSocketClient) : List WebSocketClientEvent × WebSocketClient :=
  let (head, buffer) :=
    match findBytes (asciiBytes "\r\n\r\n") c.buffer with
    | some pz => (c.buffer.take pz, c.buffer.drop (pz + 4))
    | none => ([], c.buffer)
  if findBytes (asciiBytes "Connection: Upgrade") head ≠ none then ([.connected], ⟨false, buffer⟩) else ([], ⟨true, buffer⟩)

/-- The frames: at most one for a read. The character behind the last one is 0. A message beyond the end of the buffer raises
where the rest is cut off (`std::out_of_range`), before anything has changed. -/
def frame (c : WebSocketClient) : List WebSocketClientEvent × WebSocketClient :=
  if (c.buffer[0]?.getD 0) &&& 0x0F = 0x01 then
    let payloadLength := ((c.buffer[1]?.getD 0) &&& 0x7F).toNat
    if 2 + payloadLength ≤ c.buffer.length then
      ([.received ((c.buffer.drop 2).take payloadLength)], { c with buffer := c.buffer.drop (2 + payloadLength) })
    else ([], c)
  else ([.received []], c)

/-- `StreamRead`. -/
def streamRead (c : WebSocketClient) (data : List UInt8) : List WebSocketClientEvent × WebSocketClient :=
  let c := { c with buffer := c.buffer ++ data }
  if c.awaitingHandshake then c.handshake else c.frame

end WebSocketClient

end Grain
