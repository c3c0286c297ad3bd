import Grain.IoBuffer
import Grain.Lib.Framing

/-!
# Packets on a connection

`sendPacketPlain` and `on_StreamRead` of `oscarService.cpp`. A packet is a start byte, the length as a number, and the bytes. The
socket service appends what it has read to `inBuffer_` before every `StreamRead`; the loop takes packets off its front.
-/

namespace Grain

open Framing (Front Splitter Link)

/-- `SB_SINGLEPACKET`, the only `StartByte`. -/
def sbSinglePacket : Char := Char.ofNat 0x01

/-- The bytes that `sendPacketPlain` writes. -/
def sendPacketPlain (startByte : Char) (o : Buffer) : Buffer := startByte :: (putPN o.length ++ o)

/-- What `on_StreamRead` passes on, by the stream type of the connection. -/
inductive OscarEvent
  | packetOnConnector (buf : Buffer)
  | packetOnAcceptor (buf : Buffer)
  deriving DecidableEq

/-- The event of a packet; `connected` is `STREAMTYPE_CONNECTED`. -/
def packetEvent (connected : Bool) (req : Buffer) : OscarEvent :=
  if connected then .packetOnConnector req else .packetOnAcceptor req

/-- What the loop of `on_StreamRead` finds at the front of the buffer. A length beyond `maxPacketSize` is logged and left where
it is, like an incomplete one; `need_disconnect` is never set. Another start byte closes the connection. -/
def nextPacket (maxPacketSize : Nat) (connected : Bool) (data : Buffer) : Front Char OscarEvent :=
  match data with
  | [] => .wait
  | startByte :: b =>
    match getPN b with
    | none => .wait
    | some (len, b) =>
      if len > maxPacketSize then .wait
      else if b.length < len then .wait
      else if startByte = sbSinglePacket then .message (packetEvent connected (b.take len)) (b.drop len)
      else .stop (b.drop len)

/-! ## Numbers at the front of a buffer -/

/-- A number that is read from a buffer is in its first bytes, whatever follows them. -/
theorem getGroups_split {acc n : Nat} {b t : Buffer} (h : getGroups acc b = some (n, t)) :
    ∃ g, g ≠ [] ∧ b = g ++ t ∧ ∀ r, getGroups acc (g ++ r) = some (n, r) := by
  induction b generalizing acc with
  | nil => cases h
  | cons c b ih =>
    rw [getGroups] at h
    split at h
    · rename_i hlast
      cases h
      refine ⟨[c], by simp, rfl, ?_⟩
      intro r
      rw [List.cons_append, getGroups]
      exact if_pos hlast
    · rename_i hmore
      obtain ⟨g, -, rfl, hg⟩ := ih h
      refine ⟨c :: g, by simp, rfl, ?_⟩
      intro r
      rw [List.cons_append, getGroups]
      exact (if_neg hmore).trans (hg r)

theorem getPN_split {n : Nat} {b t : Buffer} (h : getPN b = some (n, t)) :
    ∃ g, g ≠ [] ∧ b = g ++ t ∧ ∀ r, getPN (g ++ r) = some (n, r) := getGroups_split h

theorem getPN_append {n : Nat} {b t : Buffer} (h : getPN b = some (n, t)) (r : Buffer) : getPN (b ++ r) = some (n, t ++ r) := by
  obtain ⟨g, -, rfl, hg⟩ := getPN_split h
  rw [List.append_assoc]
  exact hg _

section Packet

variable {maxPacketSize : Nat} {connected : Bool}

/-- The front of a buffer whose length has arrived. -/
theorem nextPacket_cons {len : Nat} {startByte : Char} {b t : Buffer} (h : getPN b = some (len, t)) :
    nextPacket maxPacketSize connected (startByte :: b) =
      if len > maxPacketSize then .wait
      else if t.length < len then .wait
      else if startByte = sbSinglePacket then .message (packetEvent connected (t.take len)) (t.drop len)
      else .stop (t.drop len) := by
  simp only [nextPacket, h]

/-- What can be at the front of a buffer: a whole packet that is not too long, or nothing yet. -/
theorem nextPacket_cases (maxPacketSize : Nat) (connected : Bool) (s : Buffer) :
    nextPacket maxPacketSize connected s = .wait ∨
      ∃ c b len t, s = c :: b ∧ getPN b = some (len, t) ∧ len ≤ maxPacketSize ∧ len ≤ t.length ∧
        nextPacket maxPacketSize connected s =
          if c = sbSinglePacket then .message (packetEvent connected (t.take len)) (t.drop len) else .stop (t.drop len) := by
  cases s with
  | nil => exact .inl rfl
  | cons c b =>
    cases h : getPN b with
    | none =>
      left
      simp only [nextPacket, h]
    | some x =>
      have hnext := @nextPacket_cons maxPacketSize connected x.1 c b x.2 h
      by_cases hmax : x.1 > maxPacketSize
      · rw [if_pos hmax] at hnext
        exact .inl hnext
      · by_cases hlen : x.2.length < x.1
        · rw [if_neg hmax, if_pos hlen] at hnext
          exact .inl hnext
        · rw [if_neg hmax, if_neg hlen] at hnext
          exact .inr ⟨c, b, x.1, x.2, rfl, h, by omega, by omega, hnext⟩

/-- More bytes behind a whole packet make no difference. -/
theorem nextPacket_append {c : Char} {b t : Buffer} {len : Nat} (h : getPN b = some (len, t)) (hmax : len ≤ maxPacketSize)
    (hlen : len ≤ t.length) (r : Buffer) : nextPacket maxPacketSize connected (c :: b ++ r) =
      if c = sbSinglePacket then .message (packetEvent connected (t.take len)) (t.drop len ++ r) else .stop (t.drop len ++ r) := by
  rw [List.cons_append, nextPacket_cons (getPN_append h r), if_neg (by omega), if_neg (by rw [List.length_append]; omega),
    List.take_append_of_le_length hlen, List.drop_append_of_le_length hlen]

/-- The loop of `on_StreamRead`. -/
def oscarReceiver (maxPacketSize : Nat) (connected : Bool) : Splitter Char OscarEvent where
  next := nextPacket maxPacketSize connected
  shrinks := by
    intro s m u hs
    rcases nextPacket_cases maxPacketSize connected s with h | ⟨c, b, len, t, rfl, hpn, -, -, h⟩
    · rw [hs] at h
      cases h
    · obtain ⟨g, hg, rfl, -⟩ := getPN_split hpn
      rw [hs] at h
      split at h
      · cases h
        rw [List.length_drop, List.length_cons, List.length_append]
        omega
      · cases h
  stable := by
    intro s m u r hs
    rcases nextPacket_cases maxPacketSize connected s with h | ⟨c, b, len, t, rfl, hpn, hmax, hlen, h⟩
    · rw [hs] at h
      cases h
    · rw [nextPacket_append hpn hmax hlen]
      rw [hs] at h
      split at h
      · rename_i hc
        cases h
        exact if_pos hc
      · cases h
  stops := by
    intro s u r hs
    rcases nextPacket_cases maxPacketSize connected s with h | ⟨c, b, len, t, rfl, hpn, hmax, hlen, h⟩
    · rw [hs] at h
      cases h
    · rw [nextPacket_append hpn hmax hlen]
      rw [hs] at h
      split at h
      · cases h
      · rename_i hc
        cases h
        exact if_neg hc

end Packet

/-- `on_StreamRead`: the events it passes on, what it leaves in `inBuffer_`, and whether it has closed the connection. -/
def oscarStreamRead (maxPacketSize : Nat) (connected : Bool) (l : Link Char) (data : Buffer) : List OscarEvent × Link Char :=
  (oscarReceiver maxPacketSize connected).read l data

end Grain
