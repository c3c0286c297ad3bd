import Grain.Oscar

/-!
# Receiving packets

Packets that are not too long are passed on in order over every cut of the stream. For an arbitrary stream the receiver is to
close the connection or to wait for the rest of one admissible packet. It does so exactly as long as the stream is a row of
packets with nothing worse after it than the beginning of an admissible one (`oscarLaws_iff`): a length that is too large, or
that does not end, leaves the connection open with everything that comes later in the buffer.
-/

namespace Grain

open Framing (Front Splitter Link Delivers run)

/-- A packet that the receiver has to take. -/
structure OscarPacket (maxPacketSize : Nat) where
  content : Buffer
  fits : content.length ≤ maxPacketSize

/-- The bytes of a packet. -/
def OscarPacket.encode {maxPacketSize : Nat} (p : OscarPacket maxPacketSize) : Buffer := sendPacketPlain sbSinglePacket p.content

/-- A proper beginning of a packet of admissible size, with any start byte. -/
def Incomplete (maxPacketSize : Nat) (s : Buffer) : Prop :=
  ∃ c o, o.length ≤ maxPacketSize ∧ s <+: sendPacketPlain c o ∧ s.length < (sendPacketPlain c o).length

/-- What is expected of the receiver for a list of packets in pieces, and for the reads of any stream. -/
structure OscarLaws (maxPacketSize : Nat) (connected : Bool) (ps : List (OscarPacket maxPacketSize)) (pieces reads : List Buffer) :
    Prop where
  delivers : Delivers OscarPacket.encode (fun p => packetEvent connected p.content) id (oscarStreamRead maxPacketSize connected)
    Link.buffer ⟨[], false⟩ ps pieces
  bounded : ∀ pre post, reads = pre ++ post →
    (run (oscarStreamRead maxPacketSize connected) ⟨[], false⟩ pre).2.closed = true ∨
      Incomplete maxPacketSize (run (oscarStreamRead maxPacketSize connected) ⟨[], false⟩ pre).2.buffer

/-- A stream of packets whose lengths can be read and are admissible, up to the beginning of an admissible packet or to a packet
with another start byte. -/
inductive Framed (maxPacketSize : Nat) : Buffer → Prop
  | rest {s : Buffer} (h : Incomplete maxPacketSize s) : Framed maxPacketSize s
  | packet {g o s : Buffer} (hg : getPN g = some (o.length, [])) (ho : o.length ≤ maxPacketSize) (hs : Framed maxPacketSize s) :
    Framed maxPacketSize (sbSinglePacket :: (g ++ o ++ s))
  | other {c : Char} {g o s : Buffer} (hc : c ≠ sbSinglePacket) (hg : getPN g = some (o.length, []))
    (ho : o.length ≤ maxPacketSize) : Framed maxPacketSize (c :: (g ++ o ++ s))

/-! ## Packets that were sent -/

section Packet

variable {maxPacketSize : Nat} {connected : Bool}

theorem next_encode (hmax : maxPacketSize < 2 ^ 64) (p : OscarPacket maxPacketSize) :
    nextPacket maxPacketSize connected p.encode = .message (packetEvent connected p.content) [] := by
  have hp := p.fits
  have hread := (reads_getPN (by omega : p.content.length < 2 ^ 64)).back trivial p.content
  unfold OscarPacket.encode sendPacketPlain
  rw [nextPacket_cons hread, if_neg (by omega), if_neg (Nat.lt_irrefl _), if_pos rfl, List.take_length, List.drop_length]

/-- The receiver waits for the rest of a packet. -/
theorem next_incomplete {s : Buffer} (h : Incomplete maxPacketSize s) (hmax : maxPacketSize < 2 ^ 64) :
    nextPacket maxPacketSize connected s = .wait := by
  obtain ⟨c, o, ho, ⟨r, hr⟩, hlen⟩ := h
  rcases nextPacket_cases maxPacketSize connected s with h | ⟨c', b, len, t, rfl, hpn, -, hle, -⟩
  · exact h
  · -- a length that has arrived is that of the packet, and then the packet would be whole
    obtain ⟨rfl, htail⟩ := List.cons.inj hr
    have hbytes : b ++ r = putPN o.length ++ o := htail
    have hread := (reads_getPN (by omega : o.length < 2 ^ 64)).back trivial o
    have hpre := getPN_append hpn r
    rw [← hbytes] at hread
    obtain ⟨hval, hrest⟩ := Prod.mk.inj (Option.some.inj (hread.symm.trans hpre))
    have h1 := congrArg List.length hrest
    have h2 := congrArg List.length hbytes
    unfold sendPacketPlain at hlen
    simp only [List.length_append, List.length_cons] at h1 h2 hlen
    omega

end Packet

/-! ## Arbitrary streams -/

section Stream

variable {maxPacketSize : Nat} {connected : Bool}

theorem getPN_coded {g : Buffer} {n : Nat} (hg : getPN g = some (n, [])) (r : Buffer) : getPN (g ++ r) = some (n, r) := by
  rw [getPN_append hg]
  rfl

/-- The front of a stream whose first packet is whole. -/
theorem next_coded {c : Char} {g o s : Buffer} (hg : getPN g = some (o.length, [])) (ho : o.length ≤ maxPacketSize) :
    nextPacket maxPacketSize connected (c :: (g ++ o ++ s)) =
      if c = sbSinglePacket then .message (packetEvent connected o) s else .stop s := by
  have hread : getPN (g ++ o ++ s) = some (o.length, o ++ s) := by
    rw [List.append_assoc]
    exact getPN_coded hg _
  rw [nextPacket_cons hread, if_neg (by omega), if_neg (by rw [List.length_append]; omega), List.take_left, List.drop_left]

/-- After a stream the connection is closed or waits for the rest of an admissible packet exactly if the stream is framed. -/
theorem drain_framed (hmax : maxPacketSize < 2 ^ 64) (s : Buffer) :
    (((oscarReceiver maxPacketSize connected).drain s).2.closed = true ∨
      Incomplete maxPacketSize ((oscarReceiver maxPacketSize connected).drain s).2.buffer) ↔ Framed maxPacketSize s := by
  constructor
  · induction s using Splitter.drain_induct (S := oscarReceiver maxPacketSize connected) with
    | wait s h =>
      rw [Splitter.drain_wait h]
      rintro (h | h)
      · cases h
      · exact .rest h
    | message s m t h ih =>
      rw [Splitter.drain_message h]
      intro hs
      have hnext : nextPacket maxPacketSize connected s = .message m t := h
      rcases nextPacket_cases maxPacketSize connected s with h | ⟨c, b, len, u, rfl, hpn, hlen, hle, h⟩
      · rw [hnext] at h
        cases h
      · obtain ⟨g, -, rfl, hg⟩ := getPN_split hpn
        rw [hnext] at h
        split at h
        · rename_i hc
          cases h
          have htake : (u.take len).length = len := List.length_take_of_le hle
          have hcode : getPN g = some ((u.take len).length, []) := by
            rw [htake, ← hg [], List.append_nil]
          have hframed := Framed.packet hcode (by omega) (ih hs)
          rwa [List.append_assoc, List.take_append_drop, ← hc] at hframed
        · cases h
    | stop s t h =>
      intro _
      have hnext : nextPacket maxPacketSize connected s = .stop t := h
      rcases nextPacket_cases maxPacketSize connected s with h | ⟨c, b, len, u, rfl, hpn, hlen, hle, h⟩
      · rw [hnext] at h
        cases h
      · obtain ⟨g, -, rfl, hg⟩ := getPN_split hpn
        rw [hnext] at h
        split at h
        · cases h
        · rename_i hc
          have htake : (u.take len).length = len := List.length_take_of_le hle
          have hcode : getPN g = some ((u.take len).length, []) := by
            rw [htake, ← hg [], List.append_nil]
          have hframed := Framed.other (s := u.drop len) hc hcode (by omega : (u.take len).length ≤ maxPacketSize)
          rwa [List.append_assoc, List.take_append_drop] at hframed
  · intro hs
    induction hs with
    | rest h =>
      rw [Splitter.drain_wait (next_incomplete h hmax)]
      exact .inr h
    | @packet g o s hg ho _ ih =>
      have hnext : nextPacket maxPacketSize connected _ = .message (packetEvent connected o) s :=
        (next_coded hg ho).trans (if_pos rfl)
      rw [Splitter.drain_message hnext]
      exact ih
    | @other c g o s hc hg ho =>
      have hnext : nextPacket maxPacketSize connected _ = .stop s := (next_coded hg ho).trans (if_neg hc)
      rw [Splitter.drain_stop hnext]
      exact .inl rfl

theorem run_framed (hmax : maxPacketSize < 2 ^ 64) (pre : List Buffer) :
    ((run (oscarStreamRead maxPacketSize connected) ⟨[], false⟩ pre).2.closed = true ∨
      Incomplete maxPacketSize (run (oscarStreamRead maxPacketSize connected) ⟨[], false⟩ pre).2.buffer) ↔
      Framed maxPacketSize pre.flatten := by
  obtain ⟨hclosed, hrun⟩ := Splitter.run_eq_drain (S := oscarReceiver maxPacketSize connected) pre (l := ⟨[], false⟩) rfl
    (Splitter.drain_wait rfl)
  rw [List.nil_append] at hclosed hrun
  rw [← @drain_framed maxPacketSize connected hmax]
  change (run (oscarReceiver maxPacketSize connected).read ⟨[], false⟩ pre).2.closed = true ∨ _ ↔ _
  cases hc : (run (oscarReceiver maxPacketSize connected).read ⟨[], false⟩ pre).2.closed with
  | true =>
    rw [← hclosed, hc]
    exact ⟨fun _ => .inl rfl, fun _ => .inl rfl⟩
  | false =>
    rw [← hrun hc, hc]
    exact Iff.rfl

end Stream

end Grain
