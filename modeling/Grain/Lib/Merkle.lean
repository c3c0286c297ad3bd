import Mathlib

/-!
# Hash trees over the values at the paths of one length

A partial function on paths has, for each length, one tree: its leaves are the values at the paths of that length, and a cell is
there when there is a value below it. `Digest` is the digest of such a tree from the digests of values and of tables of digests.
It depends on the values alone (`Digest.unique`, `digest_congr`).
-/

namespace Merkle

section Below

variable {κ ν : Type} {L L' : List κ → Option ν}

/-- There is a value at some path that is `n` longer than `p`. -/
def Below (L : List κ → Option ν) (n : Nat) (p : List κ) : Prop := ∃ q : List κ, q.length = n ∧ (L (p ++ q)).isSome

theorem below_congr {n : Nat} {p : List κ} (h : ∀ q : List κ, q.length = n → L (p ++ q) = L' (p ++ q)) :
    Below L n p ↔ Below L' n p := by
  constructor
  · rintro ⟨q, hq, hv⟩
    exact ⟨q, hq, h q hq ▸ hv⟩
  · rintro ⟨q, hq, hv⟩
    exact ⟨q, hq, (h q hq).symm ▸ hv⟩

end Below

/-- The digest of a value, and that of a table of digests. -/
structure Scheme (κ ν η : Type) [Ord κ] where
  leaf : ν → η
  node : Std.ExtTreeMap κ η compare → η

variable {κ ν η : Type} [Ord κ] [Std.TransOrd κ]

/-- The digest of the tree of height `n` at the path `p`: the table is of the digests of the subtrees that have values. -/
def Digest (S : Scheme κ ν η) (L : List κ → Option ν) : Nat → List κ → η → Prop
  | 0, p, x => ∃ v, L p = some v ∧ x = S.leaf v
  | n + 1, p, x => ∃ m : Std.ExtTreeMap κ η compare,
      (∀ id, id ∈ m ↔ Below L n (p ++ [id])) ∧ (∀ id h, m[id]? = some h → Digest S L n (p ++ [id]) h) ∧ x = S.node m

variable {S : Scheme κ ν η} {L L' : List κ → Option ν}

/-- A tree has one digest. -/
theorem Digest.unique [Std.LawfulEqOrd κ] {n : Nat} {p : List κ} {x y : η} (hx : Digest S L n p x) (hy : Digest S L n p y) :
    x = y := by
  induction n generalizing p x y with
  | zero =>
    obtain ⟨v, hv, rfl⟩ := hx
    obtain ⟨w, hw, rfl⟩ := hy
    rw [hv] at hw
    cases hw
    rfl
  | succ n ih =>
    obtain ⟨m, hm, hd, rfl⟩ := hx
    obtain ⟨m', hm', hd', rfl⟩ := hy
    -- the two tables have the same keys, and under each the same digest
    have heq : m = m' := by
      refine Std.ExtTreeMap.ext_getElem? fun id => ?_
      by_cases hid : id ∈ m
      · have hid' : id ∈ m' := (hm' id).2 ((hm id).1 hid)
        rw [Std.ExtTreeMap.getElem?_eq_some_getElem hid, Std.ExtTreeMap.getElem?_eq_some_getElem hid']
        exact congrArg some (ih (hd id _ (Std.ExtTreeMap.getElem?_eq_some_getElem hid))
          (hd' id _ (Std.ExtTreeMap.getElem?_eq_some_getElem hid')))
      · have hid' : id ∉ m' := fun h => hid ((hm id).2 ((hm' id).1 h))
        rw [Std.ExtTreeMap.getElem?_eq_none hid, Std.ExtTreeMap.getElem?_eq_none hid']
    rw [heq]

/-- Only the values below matter. -/
theorem digest_congr {n : Nat} {p : List κ} {x : η} (h : ∀ q : List κ, q.length = n → L (p ++ q) = L' (p ++ q)) :
    Digest S L n p x ↔ Digest S L' n p x := by
  induction n generalizing p x with
  | zero =>
    have hp : L p = L' p := by simpa using h [] rfl
    simp [Digest, hp]
  | succ n ih =>
    have hsub : ∀ id (q : List κ), q.length = n → L (p ++ [id] ++ q) = L' (p ++ [id] ++ q) := by
      intro id q hq
      simpa using h (id :: q) (by simp [hq])
    have hbelow : ∀ id, Below L n (p ++ [id]) ↔ Below L' n (p ++ [id]) := fun id => below_congr (hsub id)
    have hdig : ∀ id h, Digest S L n (p ++ [id]) h ↔ Digest S L' n (p ++ [id]) h := fun id h => ih (hsub id)
    simp only [Digest, hbelow, hdig]

/-- Different values and different tables have different digests. -/
structure Scheme.Injective (S : Scheme κ ν η) : Prop where
  leaf : ∀ v w, S.leaf v = S.leaf w → v = w
  node : ∀ m m', S.node m = S.node m' → m = m'

/-- Trees with the same digest have the same values. -/
theorem Digest.determines (hS : S.Injective) {n : Nat} {p : List κ} {x : η} (h : Digest S L n p x) (h' : Digest S L' n p x)
    {q : List κ} (hq : q.length = n) : L (p ++ q) = L' (p ++ q) := by
  induction n generalizing p x q with
  | zero =>
    obtain rfl := List.length_eq_zero_iff.1 hq
    obtain ⟨v, hv, rfl⟩ := h
    obtain ⟨w, hw, he⟩ := h'
    rw [List.append_nil, hv, hw, hS.leaf v w he]
  | succ n ih =>
    obtain ⟨id, q, rfl⟩ := List.exists_cons_of_length_eq_add_one hq
    have hq : q.length = n := by simpa using hq
    obtain ⟨m, hm, hd, rfl⟩ := h
    obtain ⟨m', hm', hd', he⟩ := h'
    obtain rfl := hS.node m m' he
    have happ : p ++ id :: q = p ++ [id] ++ q := by simp
    rw [happ]
    by_cases hid : id ∈ m
    · have hx := Std.ExtTreeMap.getElem?_eq_some_getElem hid
      exact ih (hd id _ hx) (hd' id _ hx) hq
    · -- neither has a value below
      have hnone : ∀ {M : List κ → Option ν}, ¬ Below M n (p ++ [id]) → M (p ++ [id] ++ q) = none := by
        intro M hM
        by_contra hv
        exact hM ⟨q, hq, Option.ne_none_iff_isSome.1 hv⟩
      rw [hnone fun hb => hid ((hm id).2 hb), hnone fun hb => hid ((hm' id).2 hb)]

end Merkle
