import Grain.WebSocketClient

/-!
# Receiving the server's frames

The client knows the short form of a length only, and takes one frame off its buffer for a read. So it delivers the messages of
the server exactly if all are short, every read brings the end of one frame at most, and no read leaves the buffer empty without
bringing a frame (`messages_received`).
-/

namespace Grain

open Framing

/-- A message that `WebSocket_makeFrame` takes. -/
structure ServerMessage where
  text : List UInt8
  fits : text.length < 2 ^ 31

/-- The bytes of a message. -/
def ServerMessage.encode (m : ServerMessage) : List UInt8 := webSocketMakeFrame textFrameByte m.text

/-- The text of a message event. -/
def WebSocketClientEvent.message? : WebSocketClientEvent → Option (List UInt8)
  | .connected => none
  | .received msg => some msg

/-- A read as the client's users see it: the messages it passes on. -/
def readMessages (c : WebSocketClient) (data : List UInt8) : List (List UInt8) × WebSocketClient :=
  ((c.streamRead data).1.filterMap WebSocketClientEvent.message?, (c.streamRead data).2)

/-- A connected client without anything in its buffer. -/
def connectedClient : WebSocketClient := ⟨false, []⟩

/-- The messages are delivered in order, and an incomplete frame is kept. -/
def MessagesReceived (ms : List ServerMessage) (reads : List (List UInt8)) : Prop :=
  Delivers ServerMessage.encode ServerMessage.text id readMessages WebSocketClient.buffer connectedClient ms reads

/-- All messages are short, and every read goes on with a frame or begins one, and ends one at most. -/
structure Paced (ms : List ServerMessage) (reads : List (List UInt8)) : Prop where
  short : ∀ m ∈ ms, m.text.length ≤ 125
  paced : ∀ pre r post, reads = pre ++ r :: post → ∀ done done' rest rest',
    Arrived ServerMessage.encode ms done pre.flatten rest → Arrived ServerMessage.encode ms done' (pre.flatten ++ r) rest' →
      done'.length ≤ done.length + 1 ∧ rest ++ r ≠ []

/-! ## A frame -/

namespace ServerMessage

variable (m : ServerMessage)

theorem encode_short {m : ServerMessage} (h : m.text.length ≤ 125) : m.encode = [0x81, UInt8.ofNat m.text.length] ++ m.text := by
  unfold encode webSocketMakeFrame
  exact if_pos h

/-- A frame takes two bytes more than its message, and more than that if the message is not short. -/
theorem length_encode : m.text.length + 2 ≤ m.encode.length ∧ (m.encode.length ≤ m.text.length + 2 → m.text.length ≤ 125) := by
  unfold encode webSocketMakeFrame
  dsimp only
  split
  · rw [List.length_append, List.length_cons, List.length_singleton]
    omega
  · split
    · simp only [List.length_append, List.length_cons, List.length_nil]
      omega
    · simp only [List.length_append, List.length_cons, List.length_nil]
      omega

theorem encode_ne_nil : m.encode ≠ [] := by
  intro h
  have := m.length_encode.1
  rw [h] at this
  simp at this

end ServerMessage

/-! ## What a read does -/

section Read

variable {b r : List UInt8}

/-- The reads of a connected client by what is in its buffer then. -/
theorem readMessages_text (hb : (b ++ r)[0]?.getD 0 &&& 0x0F = 0x01) :
    readMessages ⟨false, b⟩ r =
      if 2 + (((b ++ r)[1]?.getD 0) &&& 0x7F).toNat ≤ (b ++ r).length then
        ([((b ++ r).drop 2).take (((b ++ r)[1]?.getD 0) &&& 0x7F).toNat],
          ⟨false, (b ++ r).drop (2 + (((b ++ r)[1]?.getD 0) &&& 0x7F).toNat)⟩)
      else ([], ⟨false, b ++ r⟩) := by
  unfold readMessages WebSocketClient.streamRead WebSocketClient.frame
  simp only [hb, if_true, Bool.false_eq_true, if_false]
  split <;> rfl

theorem readMessages_other (hb : ¬ (b ++ r)[0]?.getD 0 &&& 0x0F = 0x01) :
    readMessages ⟨false, b⟩ r = ([[]], ⟨false, b ++ r⟩) := by
  unfold readMessages WebSocketClient.streamRead WebSocketClient.frame
  simp only [hb, Bool.false_eq_true, if_false]
  rfl

/-- A read takes a message of the length it has consumed, but for the two bytes of the header, or nothing. -/
theorem readMessages_consumes (b r : List UInt8) :
    (readMessages ⟨false, b⟩ r).2.awaitingHandshake = false ∧ (readMessages ⟨false, b⟩ r).1.length ≤ 1 ∧
      b.length + r.length ≤
        ((readMessages ⟨false, b⟩ r).1.map fun m => m.length + 2).sum + (readMessages ⟨false, b⟩ r).2.buffer.length := by
  by_cases hb : (b ++ r)[0]?.getD 0 &&& 0x0F = 0x01
  · rw [readMessages_text hb]
    generalize (((b ++ r)[1]?.getD 0) &&& 0x7F).toNat = n
    split
    · rename_i hle
      rw [List.length_append] at hle
      refine ⟨rfl, Nat.le_refl 1, ?_⟩
      simp only [List.map_cons, List.map_nil, List.sum_cons, List.sum_nil, List.length_take, List.length_drop, List.length_append]
      omega
    · refine ⟨rfl, Nat.zero_le 1, ?_⟩
      simp
  · rw [readMessages_other hb]
    refine ⟨rfl, Nat.le_refl 1, ?_⟩
    simp

/-- A read that leaves nothing gives an empty message. -/
theorem readMessages_nil : readMessages ⟨false, []⟩ [] = ([[]], ⟨false, []⟩) := rfl

/-- Seven bits of a short length. -/
theorem short_length : ∀ n : Fin 126, (UInt8.ofNat n &&& 0x7F).toNat = n := by
  decide

/-- A short frame at the front of the buffer is taken. -/
theorem readMessages_whole {m : ServerMessage} (h : m.text.length ≤ 125) {rest : List UInt8} (hb : b ++ r = m.encode ++ rest) :
    readMessages ⟨false, b⟩ r = ([m.text], ⟨false, rest⟩) := by
  have hlen : (UInt8.ofNat m.text.length &&& 0x7F).toNat = m.text.length := short_length ⟨m.text.length, by omega⟩
  rw [ServerMessage.encode_short h] at hb
  have h1 : ((b ++ r)[1]?.getD 0 &&& 0x7F).toNat = m.text.length := by
    rw [hb]
    exact hlen
  have h0 : (b ++ r)[0]?.getD 0 &&& 0x0F = 0x01 := by
    rw [hb]
    exact (by decide : (0x81 : UInt8) &&& 0x0F = 0x01)
  have hdrop : (b ++ r).drop (2 + m.text.length) = rest := by
    rw [hb]
    exact List.drop_left' (by simp; omega)
  rw [readMessages_text h0, h1, if_pos (by rw [hb]; simp; omega), hdrop, hb]
  simp

/-- The beginning of a short frame is kept. -/
theorem readMessages_part {m : ServerMessage} (h : m.text.length ≤ 125) (hne : b ++ r ≠ []) (hb : b ++ r <+: m.encode)
    (hlt : (b ++ r).length < m.encode.length) : readMessages ⟨false, b⟩ r = ([], ⟨false, b ++ r⟩) := by
  have hlen : (UInt8.ofNat m.text.length &&& 0x7F).toNat = m.text.length := short_length ⟨m.text.length, by omega⟩
  have h0 : (b ++ r)[0]?.getD 0 &&& 0x0F = 0x01 := by
    rw [ServerMessage.encode_short h] at hb
    cases hs : b ++ r with
    | nil => exact absurd hs hne
    | cons c s =>
      rw [hs] at hb
      obtain ⟨rfl, -⟩ := List.cons_prefix_cons.1 hb
      exact (by decide : (0x81 : UInt8) &&& 0x0F = 0x01)
  -- the length has arrived, or is the character behind the buffer
  have h1 : (b ++ r).length < 2 + ((b ++ r)[1]?.getD 0 &&& 0x7F).toNat := by
    rw [ServerMessage.encode_short h] at hb hlt
    have hsize : (b ++ r).length < 2 + m.text.length := by
      have he : ([0x81, UInt8.ofNat m.text.length] ++ m.text).length = 2 + m.text.length := by
        simp
        omega
      omega
    cases hs : (b ++ r)[1]? with
    | none =>
      have := List.getElem?_eq_none_iff.1 hs
      omega
    | some d =>
      have hd : ([0x81, UInt8.ofNat m.text.length] ++ m.text)[1]? = some d := by
        obtain ⟨t, ht⟩ := hb
        rw [← ht, List.getElem?_append_left (List.getElem?_eq_some_iff.1 hs).1, hs]
      cases hd
      rw [Option.getD_some, hlen]
      exact hsize
  rw [readMessages_text h0, if_neg (by omega)]

end Read

/-! ## A run of reads -/

theorem eq_of_connected {c : WebSocketClient} (h : c.awaitingHandshake = false) : c = ⟨false, c.buffer⟩ := by
  cases c
  cases h
  rfl

/-- The client stays connected, and the messages passed on account for all that has left the buffer. -/
theorem run_consumes (reads : List (List UInt8)) (b : List UInt8) :
    (run readMessages ⟨false, b⟩ reads).2.awaitingHandshake = false ∧
      b.length + reads.flatten.length ≤ ((run readMessages ⟨false, b⟩ reads).1.map fun m => m.length + 2).sum +
        (run readMessages ⟨false, b⟩ reads).2.buffer.length := by
  induction reads generalizing b with
  | nil => simp
  | cons r reads ih =>
    obtain ⟨hfalse, -, hle⟩ := readMessages_consumes b r
    rw [run_cons]
    generalize readMessages ⟨false, b⟩ r = x at hfalse hle ⊢
    obtain ⟨h1, h2⟩ := ih x.2.buffer
    rw [← eq_of_connected hfalse] at h1 h2
    refine ⟨h1, ?_⟩
    rw [List.flatten_cons, List.length_append, List.map_append, List.sum_append]
    dsimp only
    omega

theorem run_connected (reads : List (List UInt8)) :
    (run readMessages connectedClient reads).2 = ⟨false, (run readMessages connectedClient reads).2.buffer⟩ :=
  eq_of_connected (run_consumes reads []).1

/-- Frames that are delivered are short: a longer one would take more bytes off the buffer than its message accounts for. -/
theorem short_of_sum {ms : List ServerMessage}
    (h : (ms.map fun m => m.encode.length).sum ≤ (ms.map fun m => m.text.length + 2).sum) : ∀ m ∈ ms, m.text.length ≤ 125 := by
  have hle (ms : List ServerMessage) : (ms.map fun m => m.text.length + 2).sum ≤ (ms.map fun m => m.encode.length).sum :=
    List.sum_le_sum fun m _ => m.length_encode.1
  induction ms with
  | nil => simp
  | cons a ms ih =>
    have h1 := a.length_encode
    have h2 := hle ms
    simp only [List.map_cons, List.sum_cons] at h
    intro m hm
    rcases List.mem_cons.1 hm with rfl | hm
    · exact h1.2 (by omega)
    · exact ih (by omega) m hm

theorem readMessages_step {ms done : List ServerMessage} {bytes b r : List UInt8} (hshort : ∀ m ∈ ms, m.text.length ≤ 125)
    (ha : Arrived ServerMessage.encode ms done bytes b) (hpre : bytes ++ r <+: ms.flatMap ServerMessage.encode)
    (hpaced : ∀ done' rest', Arrived ServerMessage.encode ms done' (bytes ++ r) rest' →
      done'.length ≤ done.length + 1 ∧ b ++ r ≠ []) :
    ∃ done' rest', Arrived ServerMessage.encode ms done' (bytes ++ r) rest' ∧ readMessages ⟨false, b⟩ r =
      ((done'.drop done.length).map ServerMessage.text, ⟨false, rest'⟩) ∧ done <+: done' := by
  obtain ⟨todo, hms, -⟩ := ha.split
  have htodo : b ++ r <+: todo.flatMap ServerMessage.encode := by
    rw [ha.bytes, hms, List.flatMap_append, List.append_assoc] at hpre
    exact (List.prefix_append_right_inj _).1 hpre
  obtain ⟨new, left, rest', rfl, hbytes, hleft, hlt⟩ := exists_arrived todo htodo
  have ha' : Arrived ServerMessage.encode ms (done ++ new) (bytes ++ r) rest' := by
    refine ⟨⟨left, by rw [hms, List.append_assoc], hlt⟩, ?_⟩
    rw [ha.bytes, List.append_assoc, hbytes, List.flatMap_append, List.append_assoc]
  obtain ⟨hone, hne⟩ := hpaced _ _ ha'
  refine ⟨done ++ new, rest', ha', ?_, List.prefix_append _ _⟩
  rw [List.drop_left]
  rw [List.length_append] at hone
  cases new with
  | nil =>
    rw [List.flatMap_nil, List.nil_append] at hbytes
    subst hbytes
    cases left with
    | nil => exact absurd (List.prefix_nil.1 hleft) hne
    | cons m left =>
      have hlen := hlt m rfl
      rw [List.flatMap_cons] at hleft
      have hm := List.prefix_of_prefix_length_le hleft (List.prefix_append _ _) (by omega)
      exact readMessages_part (hshort m (by rw [hms]; simp)) hne hm hlen
  | cons m new =>
    obtain rfl : new = [] := by
      rw [List.length_cons] at hone
      exact List.length_eq_zero_iff.1 (by omega)
    rw [List.flatMap_cons, List.flatMap_nil, List.append_nil] at hbytes
    exact readMessages_whole (hshort m (by rw [hms]; simp)) hbytes

/-- Reads of short frames at the pace of the client deliver them. -/
theorem received_of_paced {ms : List ServerMessage} {reads : List (List UInt8)}
    (hcut : reads.flatten = ms.flatMap ServerMessage.encode) (h : Paced ms reads) : MessagesReceived ms reads := by
  intro pre
  induction pre using List.reverseRecOn with
  | nil =>
    intro post _
    exact ⟨[], Arrived.nil ServerMessage.encode_ne_nil, rfl⟩
  | append_singleton pre r ih =>
    intro post hreads
    have hreads' : reads = pre ++ r :: post := by rw [hreads, List.append_assoc]; rfl
    obtain ⟨done, ha, hmsgs⟩ := ih (r :: post) hreads'
    rw [List.flatMap_id] at ha
    have hpre : pre.flatten ++ r <+: ms.flatMap ServerMessage.encode := by
      rw [← hcut, hreads', List.flatten_append, List.flatten_cons, ← List.append_assoc]
      exact List.prefix_append _ _
    obtain ⟨done', rest', ha', hread, hle⟩ := readMessages_step h.short ha hpre
      fun done' rest' ha' => h.paced pre r post hreads' done done' _ rest' ha ha'
    have hstate := run_connected pre
    refine ⟨done', ?_, ?_⟩
    · rw [run_append, run_singleton, hstate, hread, List.flatMap_id, List.flatten_append, List.flatten_singleton]
      exact ha'
    · obtain ⟨new, rfl⟩ := hle
      rw [run_append, run_singleton, hstate, hread, hmsgs, List.drop_left, List.map_append]

/-- Where the messages are delivered, the frames were short and came at the pace of the client. -/
theorem paced_of_received {ms : List ServerMessage} {reads : List (List UInt8)}
    (hcut : reads.flatten = ms.flatMap ServerMessage.encode) (h : MessagesReceived ms reads) : Paced ms reads := by
  constructor
  · obtain ⟨hmsgs, hbuffer⟩ := h.all (by rw [List.flatMap_id, hcut])
    have hle := (run_consumes reads []).2
    change 0 + reads.flatten.length ≤ ((run readMessages connectedClient reads).1.map _).sum + _ at hle
    rw [hmsgs] at hle
    refine short_of_sum ?_
    have hbytes : reads.flatten.length = (ms.map fun m => m.encode.length).sum := by
      rw [hcut, List.length_flatMap]
    have hzero : (run readMessages ⟨false, []⟩ reads).2.buffer.length = 0 := by
      rw [List.length_eq_zero_iff]
      exact hbuffer
    rw [List.map_map] at hle
    have hsum : (ms.map ((fun m : List UInt8 => m.length + 2) ∘ ServerMessage.text)).sum =
        (ms.map fun m => m.text.length + 2).sum := rfl
    omega
  · intro pre r post hreads done done' rest rest' ha ha'
    obtain ⟨d, hd, hm⟩ := h pre (r :: post) hreads
    obtain ⟨d', hd', hm'⟩ := h (pre ++ [r]) post (by rw [hreads, List.append_assoc]; rfl)
    rw [List.flatMap_id] at hd
    rw [List.flatMap_id, List.flatten_append, List.flatten_singleton] at hd'
    obtain ⟨rfl, rfl⟩ := ha.unique hd
    obtain ⟨rfl, rfl⟩ := ha'.unique hd'
    have hstate := run_connected pre
    rw [run_append, run_singleton, hstate] at hm'
    obtain ⟨-, hone, -⟩ := readMessages_consumes (run readMessages connectedClient pre).2.buffer r
    have hlen := congrArg List.length hm'
    rw [List.length_append, hm, List.length_map, List.length_map] at hlen
    refine ⟨by omega, ?_⟩
    intro hnil
    obtain ⟨hb, rfl⟩ := List.append_eq_nil_iff.1 hnil
    -- an empty read of an empty buffer passes a message on, but no frame has arrived
    rw [hb, readMessages_nil] at hlen
    rw [List.append_nil] at ha'
    obtain ⟨rfl, -⟩ := ha.unique ha'
    simp at hlen

/-- Over every cut of a list of frames the client delivers their messages exactly if all are short and the reads are paced. -/
theorem messages_received {ms : List ServerMessage} {reads : List (List UInt8)}
    (hcut : reads.flatten = ms.flatMap ServerMessage.encode) : MessagesReceived ms reads ↔ Paced ms reads :=
  ⟨paced_of_received hcut, received_of_paced hcut⟩

/-- Of two frames in one read only the first is delivered. -/
theorem messages_received_false :
    ¬ ∀ (ms : List ServerMessage) (reads : List (List UInt8)), reads.flatten = ms.flatMap ServerMessage.encode →
      MessagesReceived ms reads := by
  intro h
  have hreceived := h [⟨[97], by decide⟩, ⟨[98], by decide⟩] [[0x81, 1, 97, 0x81, 1, 98]] (by decide)
  obtain ⟨hmsgs, -⟩ := hreceived.all (by decide)
  exact absurd hmsgs (by decide)

/-- One frame in two reads. -/
theorem messages_received_sample : MessagesReceived [⟨[104, 105], by decide⟩] [[0x81], [2, 104, 105]] := by
  refine (messages_received (by decide)).2 ⟨by decide, ?_⟩
  intro pre r post hreads done done' rest rest' _ ha'
  obtain ⟨todo, hsplit, -⟩ := ha'.split
  have hlen := congrArg List.length hsplit
  rw [List.length_append, List.length_singleton] at hlen
  refine ⟨by omega, ?_⟩
  intro hnil
  have hmem : r ∈ [[0x81], [2, 104, 105]] := by
    rw [hreads]
    simp
  rw [(List.append_eq_nil_iff.1 hnil).2] at hmem
  exact absurd hmem (by decide)

end Grain
