import Grain.Broadcast
import Grain.Genesis

/-!
# How often a message is handled

The filter takes a number in before the message is checked, and forgets the smallest numbers when it holds more than a hundred.
A message is handled exactly once if nothing else uses its number and its number is not among those that can be forgotten.
-/

namespace Grain

variable {Γ : Ctx} {parse : String → Option MsgType}

/-- The message is from a known node, its signature is valid, and the entry point has a handler for it. -/
def Deliverable (Γ : Ctx) (parse : String → Option MsgType) (a : Arrival) : Prop :=
  ∃ pk type, a.1 a.2.nodeSigner = some pk ∧ verifyEdPk Γ pk a.2.signature a.2.msgPayload = .ok true ∧
    parse a.2.msgPayload = some type ∧ a.2.entry.handles type = true

/-- The different numbers larger than a message's that have arrived under its signer and start time. -/
def larger (pre : List Arrival) (m : NodeMsg) : Finset Int :=
  ((pre.filter fun a => a.2.nodeSigner = m.nodeSigner ∧ a.2.nodeStartTimestamp = m.nodeStartTimestamp ∧ m.seqId2 < a.2.seqId2).map
    fun a => a.2.seqId2).toFinset

/-! ## The filter -/

theorem Filter.at_set (f : Filter) (n n' : String) (t t' : Int) (s : StdSet Int) :
    (f.set n t s).at n' t' = if n = n' ∧ t = t' then s else f.at n' t' := by
  unfold Filter.at Filter.set
  rw [StdMap.getElem?_insert]
  by_cases hn : n = n'
  · subst hn
    simp only [if_true, Option.getD_some, StdMap.getElem?_insert, true_and]
    split <;> rfl
  · simp [hn]

/-- Erasing a list of numbers. -/
theorem mem_foldl_erase (l : List Int) (s : StdSet Int) (x : Int) :
    x ∈ l.foldl (fun s z => s.erase z) s ↔ x ∈ s ∧ x ∉ l := by
  induction l generalizing s with
  | nil => simp
  | cons a l ih =>
    rw [List.foldl_cons, ih, Std.ExtTreeSet.mem_erase, ne_eq, Std.LawfulEqCmp.compare_eq_iff_eq, List.mem_cons]
    constructor
    · rintro ⟨⟨hne, hs⟩, hl⟩
      refine ⟨hs, ?_⟩
      rintro (rfl | h)
      · exact hne rfl
      · exact hl h
    · rintro ⟨hs, hl⟩
      exact ⟨⟨fun h => hl (.inl h.symm), hs⟩, fun h => hl (.inr h)⟩

theorem mem_of_mem_evict {s : StdSet Int} {x : Int} (h : x ∈ evict s) : x ∈ s := ((mem_foldl_erase _ _ _).1 h).1

/-- A number with fewer than a hundred larger ones in the set is not forgotten. -/
theorem mem_evict {s : StdSet Int} {x : Int} (hx : x ∈ s) {L : Finset Int} (hL : ∀ y ∈ s, x < y → y ∈ L) (hc : L.card < 100) :
    x ∈ evict s := by
  refine (mem_foldl_erase _ _ _).2 ⟨hx, fun ht => ?_⟩
  -- the numbers behind the first ones are larger, and there are a hundred of them
  set l := s.toList with hl
  have hord : l.Pairwise (· < ·) := by
    refine List.Pairwise.imp ?_ (Std.ExtTreeSet.ordered_toList (t := s))
    intro a b hab
    exact compare_lt_iff_lt.1 hab
  have hlen : l.length = s.size := Std.ExtTreeSet.length_toList
  have hsub : (l.drop (s.size - 100)).toFinset ⊆ L := by
    intro y hy
    rw [List.mem_toFinset] at hy
    have hys : y ∈ s := Std.ExtTreeSet.mem_toList.1 (List.mem_of_mem_drop hy)
    refine hL y hys ?_
    rw [← List.take_append_drop (s.size - 100) l] at hord
    exact (List.pairwise_append.1 hord).2.2 x ht y hy
  have hnodup : (l.drop (s.size - 100)).Nodup := by
    have hnd : l.Nodup := hord.imp fun h => ne_of_lt h
    exact hnd.sublist (List.drop_sublist _ _)
  have hcard := Finset.card_le_card hsub
  rw [List.toFinset_card_of_nodup hnodup, List.length_drop, hlen] at hcard
  have hpos : 0 < (l.take (s.size - 100)).length := List.length_pos_of_mem ht
  rw [List.length_take] at hpos
  omega

/-! ## One message -/

/-- What a message leaves in the filter: the numbers of its own signer and start time that were kept, and its own. -/
theorem at_receive (known : String → Option String) (m : NodeMsg) (f : Filter) (n : String) (t : Int) (x : Int) :
    x ∈ (receive Γ parse known m f).2.at n t ↔
      if m.nodeSigner = n ∧ m.nodeStartTimestamp = t then x ∈ evict (f.at n t) ∨ x = m.seqId2 else x ∈ f.at n t := by
  have hset : ∀ s : StdSet Int, (∀ y, y ∈ s ↔ y ∈ evict (f.at m.nodeSigner m.nodeStartTimestamp) ∨ y = m.seqId2) →
      (x ∈ (f.set m.nodeSigner m.nodeStartTimestamp s).at n t ↔
        if m.nodeSigner = n ∧ m.nodeStartTimestamp = t then x ∈ evict (f.at n t) ∨ x = m.seqId2 else x ∈ f.at n t) := by
    intro s hs
    rw [Filter.at_set]
    split
    · rename_i h
      obtain ⟨rfl, rfl⟩ := h
      exact hs x
    · rfl
  unfold receive
  dsimp only
  split
  · rename_i h
    refine hset _ fun y => ⟨.inl, ?_⟩
    rintro (hy | rfl)
    · exact hy
    · exact h
  · have hins : ∀ y, y ∈ (evict (f.at m.nodeSigner m.nodeStartTimestamp)).insert m.seqId2 ↔
        y ∈ evict (f.at m.nodeSigner m.nodeStartTimestamp) ∨ y = m.seqId2 := by
      intro y
      rw [Std.ExtTreeSet.mem_insert, Std.LawfulEqCmp.compare_eq_iff_eq, or_comm, eq_comm]
    split
    · exact hset _ hins
    · split
      · split <;> exact hset _ hins
      · exact hset _ hins

/-- A deliverable message is handled exactly if its number is not in what the filter keeps. -/
theorem receive_of_deliverable {a : Arrival} (h : Deliverable Γ parse a) (f : Filter) :
    (receive Γ parse a.1 a.2 f).1.isSome = true ↔ a.2.seqId2 ∉ evict (f.at a.2.nodeSigner a.2.nodeStartTimestamp) := by
  obtain ⟨pk, type, hk, hv, hp, hh⟩ := h
  unfold receive
  dsimp only
  split
  · rename_i hmem
    simp [hmem]
  · rename_i hmem
    simp [hk, hv, hp, hh, hmem]

/-! ## Runs -/

/-- A run followed by one more message. -/
theorem receiveAll_concat (ms : List Arrival) (a : Arrival) (f : Filter) :
    receiveAll Γ parse (ms ++ [a]) f =
      ((receiveAll Γ parse ms f).1 ++ (if (receive Γ parse a.1 a.2 (receiveAll Γ parse ms f).2).1.isSome then [a.2] else []),
        (receive Γ parse a.1 a.2 (receiveAll Γ parse ms f).2).2) := by
  induction ms generalizing f with
  | nil => rfl
  | cons b ms ih =>
    rw [List.cons_append, receiveAll, receiveAll]
    dsimp only
    rw [ih]
    split
    · rw [List.cons_append]
    · rfl

/-- What the filter knows after a run, of a message: numbers that have arrived, and the message's own number if it has arrived
and fewer than a hundred larger ones have. -/
structure FilterInv (f : Filter) (ms : List Arrival) (m : NodeMsg) : Prop where
  arrived : ∀ y ∈ f.at m.nodeSigner m.nodeStartTimestamp, m.seqId2 < y → y ∈ larger ms m
  kept : (∃ a ∈ ms, a.2.ident = m.ident) → (larger ms m).card < 100 → m.seqId2 ∈ f.at m.nodeSigner m.nodeStartTimestamp
  own : m.seqId2 ∈ f.at m.nodeSigner m.nodeStartTimestamp → ∃ a ∈ ms, a.2.ident = m.ident

theorem larger_mono (ms : List Arrival) (a : Arrival) (m : NodeMsg) : larger ms m ⊆ larger (ms ++ [a]) m := by
  intro y hy
  simp only [larger, List.mem_toFinset, List.mem_map, List.filter_append, List.mem_append] at hy ⊢
  obtain ⟨b, hb, rfl⟩ := hy
  exact ⟨b, .inl hb, rfl⟩

theorem mem_larger_concat {ms : List Arrival} {a : Arrival} {m : NodeMsg} (h1 : a.2.nodeSigner = m.nodeSigner)
    (h2 : a.2.nodeStartTimestamp = m.nodeStartTimestamp) (h3 : m.seqId2 < a.2.seqId2) : a.2.seqId2 ∈ larger (ms ++ [a]) m := by
  simp only [larger, List.mem_toFinset, List.mem_map, List.filter_append, List.mem_append]
  exact ⟨a, .inr (by simp [h1, h2, h3]), rfl⟩

theorem filterInv_concat {f : Filter} {ms : List Arrival} {m : NodeMsg} (h : FilterInv f ms m) (a : Arrival) :
    FilterInv (receive Γ parse a.1 a.2 f).2 (ms ++ [a]) m := by
  constructor
  · intro y hy hlt
    rw [at_receive] at hy
    split at hy
    · rename_i hsame
      rcases hy with hy | rfl
      · exact larger_mono ms a m (h.arrived y (mem_of_mem_evict hy) hlt)
      · exact mem_larger_concat hsame.1 hsame.2 hlt
    · exact larger_mono ms a m (h.arrived y hy hlt)
  · intro hex hcard
    have hcard' : (larger ms m).card < 100 := lt_of_le_of_lt (Finset.card_le_card (larger_mono ms a m)) hcard
    rw [at_receive]
    obtain ⟨b, hb, hid⟩ := hex
    rcases List.mem_append.1 hb with hb | hb
    · have hkept := h.kept ⟨b, hb, hid⟩ hcard'
      split
      · exact .inl (mem_evict hkept h.arrived hcard')
      · exact hkept
    · obtain rfl := List.mem_singleton.1 hb
      simp only [NodeMsg.ident, Prod.mk.injEq] at hid
      obtain ⟨h1, h2, h3⟩ := hid
      rw [if_pos ⟨h1, h2⟩]
      exact .inr h3.symm
  · intro hmem
    have hold : m.seqId2 ∈ f.at m.nodeSigner m.nodeStartTimestamp → ∃ b ∈ ms ++ [a], b.2.ident = m.ident := by
      intro h'
      obtain ⟨b, hb, hid⟩ := h.own h'
      exact ⟨b, List.mem_append_left _ hb, hid⟩
    rw [at_receive] at hmem
    split at hmem
    · rename_i hsame
      rcases hmem with hmem | hmem
      · exact hold (mem_of_mem_evict hmem)
      · exact ⟨a, by simp, by rw [NodeMsg.ident, NodeMsg.ident, hsame.1, hsame.2, hmem]⟩
    · exact hold hmem

theorem filterInv_receiveAll (ms : List Arrival) (m : NodeMsg) : FilterInv (receiveAll Γ parse ms ∅).2 ms m := by
  induction ms using List.reverseRecOn with
  | nil =>
    constructor
    · intro y hy
      simp [receiveAll, Filter.at] at hy
    · rintro ⟨a, ha, -⟩
      simp at ha
    · intro h
      simp [receiveAll, Filter.at] at h
  | append_singleton ms a ih =>
    rw [receiveAll_concat]
    exact filterInv_concat ih a

/-- In a run in which every message under an identity is deliverable when it arrives, with fewer than a hundred different larger
numbers before it, the identity is handled once if it arrives at all, and otherwise never. -/
theorem handled_once (run : List Arrival) (m : NodeMsg)
    (h : ∀ pre a post, run = pre ++ a :: post → a.2.ident = m.ident → Deliverable Γ parse a ∧ (larger pre m).card < 100) :
    ((receiveAll Γ parse run ∅).1.filter fun x => x.ident = m.ident).length =
      if ∃ a ∈ run, a.2.ident = m.ident then 1 else 0 := by
  induction run using List.reverseRecOn with
  | nil => simp [receiveAll]
  | append_singleton ms a ih =>
    have ih := ih fun pre b post he hb => h pre b (post ++ [a]) (by simp [he]) hb
    have hinv : FilterInv (receiveAll Γ parse ms ∅).2 ms m := filterInv_receiveAll ms m
    rw [receiveAll_concat, List.filter_append, List.length_append, ih]
    by_cases hid : a.2.ident = m.ident
    · obtain ⟨hdel, hcard⟩ := h ms a [] rfl hid
      have hmem : a.2.seqId2 ∉ evict ((receiveAll Γ parse ms ∅).2.at a.2.nodeSigner a.2.nodeStartTimestamp) ↔
          ¬ ∃ b ∈ ms, b.2.ident = m.ident := by
        obtain ⟨h1, h2, h3⟩ : a.2.nodeSigner = m.nodeSigner ∧ a.2.nodeStartTimestamp = m.nodeStartTimestamp ∧
            a.2.seqId2 = m.seqId2 := by
          simpa [NodeMsg.ident] using hid
        rw [h1, h2, h3]
        refine not_congr ⟨fun hev => ?_, fun hex => mem_evict (hinv.kept hex hcard) hinv.arrived hcard⟩
        exact hinv.own (mem_of_mem_evict hev)
      have hcall := (receive_of_deliverable hdel (receiveAll Γ parse ms ∅).2).trans hmem
      have hex' : ∃ b ∈ ms ++ [a], b.2.ident = m.ident := ⟨a, by simp, hid⟩
      rw [if_pos hex']
      by_cases hex : ∃ b ∈ ms, b.2.ident = m.ident
      · rw [if_pos hex, if_neg (fun hc => hcall.1 hc hex)]
        rfl
      · rw [if_neg hex, if_pos (hcall.2 hex)]
        simp [hid]
    · have hiff : (∃ b ∈ ms ++ [a], b.2.ident = m.ident) ↔ ∃ b ∈ ms, b.2.ident = m.ident := by
        simp [hid]
      rw [if_congr hiff rfl rfl]
      split <;> simp [hid]

/-! ## The small network -/

namespace Sample

/-- A message with number 1 of a node whose key is known, signed by a key. -/
def nodeMsg (signer : Char) : Arrival :=
  (fun _ => some (key 'k'), ⟨.nodeMsgREQ, "n", 0, 1, sign signer, "p"⟩)

end Sample

/-- The valid message can be delivered. -/
theorem Sample.deliverable_nodeMsg :
    Deliverable (Sample.ctx [] fun _ => none) (fun _ => some .blockDBStore) (Sample.nodeMsg 'k') :=
  ⟨Sample.key 'k', .blockDBStore, rfl, by decide +kernel, rfl, rfl⟩

/-- A forged message takes the number of a valid one, which is then not handled. -/
theorem handled_once_false :
    Deliverable (Sample.ctx [] fun _ => none) (fun _ => some .blockDBStore) (Sample.nodeMsg 'k') ∧
    (receiveAll (Sample.ctx [] fun _ => none) (fun _ => some .blockDBStore) [Sample.nodeMsg 'x', Sample.nodeMsg 'k'] ∅).1 = [] :=
  ⟨Sample.deliverable_nodeMsg, by decide +kernel⟩

/-- A valid message that arrives twice is handled once. -/
theorem handled_once_twice :
    ((receiveAll (Sample.ctx [] fun _ => none) (fun _ => some .blockDBStore) [Sample.nodeMsg 'k', Sample.nodeMsg 'k'] ∅).1.filter
      fun x => x.ident = (Sample.nodeMsg 'k').2.ident).length = 1 := by
  rw [handled_once, if_pos ⟨Sample.nodeMsg 'k', by simp, rfl⟩]
  intro pre a post he _
  have hall : ∀ b ∈ pre ++ a :: post, b = Sample.nodeMsg 'k' := by
    intro b hb
    rw [← he] at hb
    simpa using hb
  have ha : a = Sample.nodeMsg 'k' := hall a (by simp)
  refine ⟨ha ▸ Sample.deliverable_nodeMsg, ?_⟩
  have hempty : larger pre (Sample.nodeMsg 'k').2 = ∅ := by
    refine Finset.eq_empty_of_forall_notMem fun y hy => ?_
    simp only [larger, List.mem_toFinset, List.mem_map, List.mem_filter] at hy
    obtain ⟨b, ⟨hb, hlt⟩, -⟩ := hy
    rw [hall b (List.mem_append_left _ hb)] at hlt
    simp at hlt
  rw [hempty, Finset.card_empty]
  decide

end Grain
