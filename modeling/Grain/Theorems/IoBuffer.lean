import Grain.InBuffer

/-!
# Buffers come back

Numbers come back from any place of a buffer, no number's bytes begin those of another, and `get_PN_nothrow` does what `get_PN`
does. A nested value comes back exactly if none of its containers has `2 ^ 32` elements or more: the number of elements is
written as an `unsigned int` (`bufferLaws_iff`).
-/

namespace Grain

open Codec (Format)

/-- What is expected of the numbers `N` and `M`, of reading a number from a buffer, and of a nested value. -/
structure BufferLaws (N M : Nat) (b : InBuffer) (t : Nesting) (v : t.Value) : Prop where
  number : ∀ p r, InBuffer.getPN ⟨p ++ putPN N ++ r, p.length⟩ = some (N, ⟨p ++ putPN N ++ r, p.length + (putPN N).length⟩)
  prefixFree : putPN N <+: putPN M → N = M
  succeeds : b.getPNNoThrow.2.1 = b.getPN.isSome
  agrees : ∀ n b', b.getPN = some (n, b') → b.getPNNoThrow = (n, true, b')
  nested : ∀ r, t.format.read (t.format.write v ++ r) = some (v, r)

/-! ## Numbers -/

namespace InBuffer

/-- The buffer after a byte. -/
abbrev next (b : InBuffer) : InBuffer := { b with outPos := b.outPos + 1 }

theorem getPNLoop_end {b : InBuffer} (nn : Nat) (h : b.data[b.outPos]? = none) : getPNLoop nn b = none := by
  have hget : b.get8 = none := by
    unfold get8
    rw [h]
  rw [getPNLoop]
  split
  · rfl
  · rename_i hsome
    rw [hget] at hsome
    cases hsome

theorem getPNLoop_byte {b : InBuffer} {c : Char} (nn : Nat) (h : b.data[b.outPos]? = some c) :
    getPNLoop nn b = if c.toNat < 0x80 then some (shift nn c, b.next) else getPNLoop (shift nn c) b.next := by
  have hget : b.get8 = some (c, b.next) := by
    unfold get8
    rw [h]
  rw [getPNLoop]
  split
  · rename_i hnone
    rw [hget] at hnone
    cases hnone
  · rename_i hsome
    rw [hget] at hsome
    cases hsome
    rfl

theorem getPNNoThrowLoop_end {b : InBuffer} (nn : Nat) (h : b.data[b.outPos]? = none) :
    getPNNoThrowLoop nn b = (0, false, b) := by
  have hget : b.get8NoThrow = (Char.ofNat 0, false, b) := by
    unfold get8NoThrow
    rw [h]
  rw [getPNNoThrowLoop]
  split
  rename_i hread
  rw [hget] at hread
  cases hread
  rw [dif_pos rfl]

theorem getPNNoThrowLoop_byte {b : InBuffer} {c : Char} (nn : Nat) (h : b.data[b.outPos]? = some c) :
    getPNNoThrowLoop nn b = if c.toNat < 0x80 then (shift nn c, true, b.next) else getPNNoThrowLoop (shift nn c) b.next := by
  have hget : b.get8NoThrow = (c, true, b.next) := by
    unfold get8NoThrow
    rw [h]
  rw [getPNNoThrowLoop]
  split
  rename_i hread
  rw [hget] at hread
  cases hread
  rw [dif_neg Bool.noConfusion]

/-- What is left of a buffer, byte by byte. -/
theorem drop_cases (b : InBuffer) : b.data[b.outPos]? = none ∧ b.data.drop b.outPos = [] ∨
    ∃ c, b.data[b.outPos]? = some c ∧ b.data.drop b.outPos = c :: b.next.data.drop b.next.outPos := by
  by_cases h : b.outPos < b.data.length
  · exact .inr ⟨_, List.getElem?_eq_getElem h, List.drop_eq_getElem_cons h⟩
  · exact .inl ⟨List.getElem?_eq_none (by omega), List.drop_eq_nil_of_le (by omega)⟩

/-- Reading from a position is reading what follows it. -/
theorem getPNLoop_of_getGroups {nn n : Nat} {b : InBuffer} {r : Buffer}
    (h : getGroups nn (b.data.drop b.outPos) = some (n, r)) :
    ∃ pos, getPNLoop nn b = some (n, { b with outPos := pos }) ∧ b.outPos ≤ pos ∧ pos ≤ b.data.length ∧ b.data.drop pos = r := by
  induction hs : b.data.drop b.outPos generalizing nn b with
  | nil =>
    rw [hs] at h
    cases h
  | cons d s ih =>
    obtain ⟨-, hdrop⟩ | ⟨c, hc, hdrop⟩ := b.drop_cases
    · rw [hs] at hdrop
      cases hdrop
    · have hlt := (List.getElem?_eq_some_iff.1 hc).1
      rw [hdrop] at hs h
      obtain ⟨-, hrest⟩ := List.cons.inj hs
      rw [getGroups] at h
      rw [getPNLoop_byte nn hc]
      dsimp only at h
      split at h
      · rename_i hlast
        cases h
        rw [if_pos hlast]
        exact ⟨b.outPos + 1, rfl, by omega, by omega, rfl⟩
      · rename_i hmore
        rw [if_neg hmore]
        obtain ⟨pos, hpos, hle, hlen, hend⟩ := ih h hrest
        exact ⟨pos, hpos, Nat.le_of_succ_le hle, hlen, hend⟩

/-- A number is read from where it was written, and the position moves by its bytes. -/
theorem getPN_putPN {n : Nat} (hn : n < 2 ^ 64) (p r : Buffer) :
    getPN ⟨p ++ putPN n ++ r, p.length⟩ = some (n, ⟨p ++ putPN n ++ r, p.length + (putPN n).length⟩) := by
  have hread : getGroups 0 ((p ++ putPN n ++ r).drop p.length) = some (n, r) := by
    rw [List.append_assoc, List.drop_left]
    exact (reads_getPN hn).back trivial r
  obtain ⟨pos, hpos, hle, hlen, hdrop⟩ := getPNLoop_of_getGroups (b := ⟨p ++ putPN n ++ r, p.length⟩) hread
  have hsize := congrArg List.length hdrop
  simp only [List.length_drop, List.length_append] at hsize hlen
  have hend : pos = p.length + (putPN n).length := by omega
  rw [← hend]
  exact hpos

/-- The two loops do the same, but for how they fail. -/
theorem getPNNoThrowLoop_eq (nn : Nat) (b : InBuffer) :
    (∀ n b', getPNLoop nn b = some (n, b') → getPNNoThrowLoop nn b = (n, true, b')) ∧
      (getPNLoop nn b = none → (getPNNoThrowLoop nn b).2.1 = false) := by
  induction hs : b.data.drop b.outPos generalizing nn b with
  | nil =>
    obtain ⟨hc, -⟩ | ⟨c, -, hdrop⟩ := b.drop_cases
    · rw [getPNLoop_end nn hc, getPNNoThrowLoop_end nn hc]
      exact ⟨fun _ _ h => (Option.some_ne_none _ h.symm).elim, fun _ => rfl⟩
    · rw [hs] at hdrop
      cases hdrop
  | cons d s ih =>
    obtain ⟨-, hdrop⟩ | ⟨c, hc, hdrop⟩ := b.drop_cases
    · rw [hs] at hdrop
      cases hdrop
    · rw [hdrop] at hs
      obtain ⟨-, hrest⟩ := List.cons.inj hs
      rw [getPNLoop_byte nn hc, getPNNoThrowLoop_byte nn hc]
      split
      · refine ⟨?_, fun h => (Option.some_ne_none _ h).elim⟩
        intro n b' h
        cases h
        rfl
      · exact ih (shift nn c) b.next hrest

theorem getPNNoThrow_agrees {b b' : InBuffer} {n : Nat} (h : b.getPN = some (n, b')) : b.getPNNoThrow = (n, true, b') :=
  (getPNNoThrowLoop_eq 0 b).1 n b' h

theorem getPNNoThrow_succeeds (b : InBuffer) : b.getPNNoThrow.2.1 = b.getPN.isSome := by
  cases h : b.getPN with
  | none => exact (getPNNoThrowLoop_eq 0 b).2 h
  | some x => rw [@getPNNoThrow_agrees b x.2 x.1 h, Option.isSome_some]

end InBuffer

/-- No number's bytes begin those of another. -/
theorem putPN_prefixFree {n m : Nat} (hn : n < 2 ^ 64) (hm : m < 2 ^ 64) (h : putPN n <+: putPN m) : n = m := by
  obtain ⟨r, hr⟩ := h
  have h1 := (reads_getPN hn).back trivial r
  have h2 := (reads_getPN hm).back trivial []
  rw [hr] at h1
  rw [List.append_nil, h1] at h2
  cases h2
  rfl

/-! ## Nested values -/

/-- The condition of the format is that every container is small. -/
theorem Nesting.ok_iff (t : Nesting) (v : t.Value) : t.format.ok v ↔ t.Small v := by
  induction t with
  | base F h => exact ⟨fun _ => trivial, fun _ => h v⟩
  | string => exact Iff.rfl
  | pair t1 t2 ih1 ih2 => exact and_congr (ih1 v.1) (ih2 v.2)
  | vector t ih | list t ih | deque t ih => exact and_congr Iff.rfl (forall₂_congr fun a _ => ih a)
  | set t ih => exact and_congr Iff.rfl (forall₂_congr fun a _ => ih a)
  | map t1 t2 ih1 ih2 => exact and_congr Iff.rfl (forall₂_congr fun e _ => and_congr (ih1 e.1) (ih2 e.2))

/-- A nested value comes back exactly if every container in it is small. -/
theorem Nesting.reads_iff (t : Nesting) (v : t.Value) :
    (∀ r, t.format.read (t.format.write v ++ r) = some (v, r)) ↔ t.Small v := by
  rw [(t.format.reads v).iff_forall, t.ok_iff]

/-- The buffer keeps its laws at two numbers, a buffer to read from and a nested value exactly if every container in the value has
fewer than `2 ^ 32` elements. -/
theorem bufferLaws_iff {N M : Nat} (hN : N < 2 ^ 64) (hM : M < 2 ^ 64) (b : InBuffer) (t : Nesting) (v : t.Value) :
    BufferLaws N M b t v ↔ t.Small v := by
  constructor
  · intro hlaws
    exact (t.reads_iff v).1 hlaws.nested
  · intro hsmall
    exact
      { number := InBuffer.getPN_putPN hN
        prefixFree := putPN_prefixFree hN hM
        succeeds := b.getPNNoThrow_succeeds
        agrees := fun _ _ h => InBuffer.getPNNoThrow_agrees h
        nested := (t.reads_iff v).2 hsmall }

/-- A `uint8_t`. -/
def byteNesting : Nesting :=
  .base (Format.total (Fin 256) compare (fun n => putPN n) (getUInt8 >>= fun n => pure (Fin.ofNat 256 n)) (by
    intro n r
    refine Codec.bind_eq_some.2 ⟨n, r, (reads_getUInt8 n.2).back trivial r, ?_⟩
    have hn : Fin.ofNat 256 n = n := Fin.ext (Nat.mod_eq_of_lt n.2)
    rw [hn]
    rfl)) fun _ => trivial

/-- A vector of `2 ^ 32` bytes is written with the number of elements 0. -/
theorem buffer_laws_false :
    ¬ ∀ (N M : Nat) (b : InBuffer) (t : Nesting) (v : t.Value), N < 2 ^ 64 → M < 2 ^ 64 → BufferLaws N M b t v := by
  intro h
  have hlaws := h 0 0 ⟨[], 0⟩ (.vector byteNesting) (List.replicate (2 ^ 32) (0 : Fin 256)) (by decide) (by decide)
  have hsmall := ((Nesting.vector byteNesting).reads_iff _).1 hlaws.nested
  have hlen : (List.replicate (2 ^ 32) (0 : Fin 256)).length < 2 ^ 32 := hsmall.1
  rw [List.length_replicate] at hlen
  exact Nat.lt_irrefl _ hlen

/-- The laws at a list of pairs of a string and a vector of bytes. -/
theorem bufferLaws_sample :
    BufferLaws 300 16384 ⟨[Char.ofNat 0x82], 0⟩ (.list (.pair .string (.vector byteNesting)))
      [(⟨"a", by unfold Sized; decide⟩, [(1 : Fin 256), (2 : Fin 256)]),
        (⟨"", by unfold Sized; decide⟩, ([] : List (Fin 256)))] := by
  refine (bufferLaws_iff (by decide) (by decide) _ _ _).2 ⟨by decide, ?_⟩
  intro e he
  rcases List.mem_cons.1 he with rfl | he
  · exact ⟨trivial, by decide, fun _ _ => trivial⟩
  · obtain rfl := List.mem_singleton.1 he
    exact ⟨trivial, by decide, fun _ _ => trivial⟩

end Grain
