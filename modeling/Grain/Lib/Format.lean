import Grain.Lib.Codec
import Mathlib.Order.Basic

/-!
# Formats

A format writes the values of an ordered type and reads them back, on a condition that every value read satisfies. Pairs, lists,
and the sets and maps of an ordered type are formats over formats, so that a value nested to any depth comes back exactly on its
condition (`Format.reads`).
-/

namespace Codec

variable {α β κ ν : Type}

/-! ## Sorted containers -/

/-- Insert into a list in ascending order, unless an equivalent item is there. -/
def insertItem (cmp : α → α → Ordering) (a : α) : List α → List α
  | [] => [a]
  | b :: l =>
    match cmp a b with
    | .lt => a :: b :: l
    | .eq => b :: l
    | .gt => b :: insertItem cmp a l

/-- A list in strictly ascending order. -/
structure Sorted (cmp : α → α → Ordering) where
  items : List α
  sorted : items.Pairwise fun a b => cmp a b = .lt

theorem mem_insertItem {cmp : α → α → Ordering} {a b : α} {l : List α} (h : b ∈ insertItem cmp a l) : b = a ∨ b ∈ l := by
  induction l with
  | nil => exact .inl (List.mem_singleton.1 h)
  | cons c l ih =>
    rw [insertItem] at h
    split at h
    · rcases List.mem_cons.1 h with rfl | h
      · exact .inl rfl
      · exact .inr h
    · exact .inr h
    · rcases List.mem_cons.1 h with rfl | h
      · exact .inr List.mem_cons_self
      · rcases ih h with rfl | h
        · exact .inl rfl
        · exact .inr (List.mem_cons_of_mem _ h)

theorem length_insertItem (cmp : α → α → Ordering) (a : α) (l : List α) : (insertItem cmp a l).length ≤ l.length + 1 := by
  induction l with
  | nil => exact Nat.le_refl _
  | cons c l ih =>
    rw [insertItem]
    split
    · simp
    · simp
    · simpa using ih

/-- An item beyond all others goes to the end. -/
theorem insertItem_last {cmp : α → α → Ordering} [Std.OrientedCmp cmp] {a : α} {l : List α} (h : ∀ b ∈ l, cmp b a = .lt) :
    insertItem cmp a l = l ++ [a] := by
  induction l with
  | nil => rfl
  | cons c l ih =>
    have hc : cmp a c = .gt := Std.OrientedCmp.gt_of_lt (h c List.mem_cons_self)
    rw [insertItem, hc]
    exact congrArg (c :: ·) (ih fun b hb => h b (List.mem_cons_of_mem _ hb))

theorem sorted_insertItem {cmp : α → α → Ordering} [Std.TransCmp cmp] (a : α) {l : List α}
    (h : l.Pairwise fun a b => cmp a b = .lt) : (insertItem cmp a l).Pairwise fun a b => cmp a b = .lt := by
  induction l with
  | nil => exact List.pairwise_singleton _ _
  | cons c l ih =>
    obtain ⟨hc, hl⟩ := List.pairwise_cons.1 h
    rw [insertItem]
    split
    · rename_i hlt
      refine List.pairwise_cons.2 ⟨?_, h⟩
      intro b hb
      rcases List.mem_cons.1 hb with rfl | hb
      · exact hlt
      · exact Std.TransCmp.lt_trans hlt (hc b hb)
    · exact h
    · rename_i hgt
      refine List.pairwise_cons.2 ⟨?_, ih hl⟩
      intro b hb
      rcases mem_insertItem hb with rfl | hb
      · exact Std.OrientedCmp.lt_of_gt hgt
      · exact hc b hb

namespace Sorted

variable {cmp : α → α → Ordering} [Std.TransCmp cmp]

/-- Insert an item. -/
def insert (s : Sorted cmp) (a : α) : Sorted cmp := ⟨insertItem cmp a s.items, sorted_insertItem a s.sorted⟩

/-- Insert items one after the other. -/
def ofList (l : List α) : Sorted cmp := l.foldl insert ⟨[], .nil⟩

omit [Std.TransCmp cmp] in
theorem ext {s t : Sorted cmp} (h : s.items = t.items) : s = t := by
  cases s
  cases t
  cases h
  rfl

theorem items_foldl {l : List α} {s : Sorted cmp} (h : (s.items ++ l).Pairwise fun a b => cmp a b = .lt) :
    (l.foldl insert s).items = s.items ++ l := by
  induction l generalizing s with
  | nil => rw [List.foldl_nil, List.append_nil]
  | cons a l ih =>
    have hlast : (s.insert a).items = s.items ++ [a] := by
      refine insertItem_last ?_
      intro b hb
      exact (List.pairwise_append.1 h).2.2 b hb a List.mem_cons_self
    have hrest : ((s.insert a).items ++ l).Pairwise fun a b => cmp a b = .lt := by
      rw [hlast, List.append_assoc]
      exact h
    rw [List.foldl_cons, ih hrest, hlast, List.append_assoc]
    rfl

/-- A container is what its items make in their order. -/
theorem ofList_items (s : Sorted cmp) : ofList s.items = s :=
  ext (items_foldl (s := ⟨[], .nil⟩) s.sorted)

theorem length_foldl (l : List α) (s : Sorted cmp) : (l.foldl insert s).items.length ≤ s.items.length + l.length := by
  induction l generalizing s with
  | nil => exact Nat.le_refl _
  | cons a l ih =>
    have h1 := ih (s.insert a)
    have h2 := length_insertItem cmp a s.items
    have h3 : (s.insert a).items = insertItem cmp a s.items := rfl
    rw [h3] at h1
    rw [List.foldl_cons, List.length_cons]
    omega

theorem length_ofList (l : List α) : (ofList l : Sorted cmp).items.length ≤ l.length := by
  have := @length_foldl _ cmp _ l ⟨[], .nil⟩
  simpa [ofList] using this

theorem mem_foldl {l : List α} {s : Sorted cmp} {a : α} (h : a ∈ (l.foldl insert s).items) : a ∈ s.items ∨ a ∈ l := by
  induction l generalizing s with
  | nil => exact .inl h
  | cons b l ih =>
    rcases ih (s := s.insert b) h with h | h
    · rcases mem_insertItem h with rfl | h
      · exact .inr List.mem_cons_self
      · exact .inl h
    · exact .inr (List.mem_cons_of_mem _ h)

theorem mem_ofList {l : List α} {a : α} (h : a ∈ (ofList l : Sorted cmp).items) : a ∈ l := by
  rcases mem_foldl h with h | h
  · cases h
  · exact h

end Sorted

/-- Compare a part of two values. -/
def through (f : α → κ) (cmp : κ → κ → Ordering) (a b : α) : Ordering := cmp (f a) (f b)

instance {f : α → κ} {cmp : κ → κ → Ordering} [Std.TransCmp cmp] : Std.TransCmp (through f cmp) where
  eq_swap {a b} := @Std.OrientedCmp.eq_swap _ cmp _ (f a) (f b)
  isLE_trans {a b c} := @Std.TransCmp.isLE_trans _ cmp _ (f a) (f b) (f c)

/-! ## Formats -/

/-- A type with an order, and how its values are written and read. A value that satisfies `ok` comes back, and every value read
satisfies it. -/
structure Format (β : Type) where
  Carrier : Type
  cmp : Carrier → Carrier → Ordering
  trans : Std.TransCmp cmp
  write : Carrier → List β
  read : Reader β Carrier
  ok : Carrier → Prop
  back : ∀ v, ok v → ∀ r, read (write v ++ r) = some (v, r)
  yields : Yields read ok

namespace Format

instance (F : Format β) : Std.TransCmp F.cmp := F.trans

theorem reads (F : Format β) (v : F.Carrier) : Reads F.read (F.write v) v (F.ok v) :=
  ⟨F.back v, fun r s h => F.yields (F.write v ++ r) v s h⟩

/-- A type whose values all come back. -/
def total (Carrier : Type) (cmp : Carrier → Carrier → Ordering) [h : Std.TransCmp cmp] (write : Carrier → List β)
    (read : Reader β Carrier) (back : ∀ v r, read (write v ++ r) = some (v, r)) : Format β where
  Carrier := Carrier
  cmp := cmp
  trans := h
  write := write
  read := read
  ok _ := True
  back v _ := back v
  yields _ _ _ _ := trivial

theorem yields_bind {u : Reader β α} {f : α → Reader β ν} {P : α → Prop} {Q : ν → Prop} (hu : Yields u P)
    (hf : ∀ a, P a → Yields (f a) Q) : Yields (u >>= f) Q := by
  intro s c t hs
  obtain ⟨a, q, ha, hc⟩ := bind_eq_some.1 hs
  exact hf a (hu s a q ha) q c t hc

/-- A pair: the first part, then the second. -/
abbrev pair (F G : Format β) : Format β where
  Carrier := F.Carrier × G.Carrier
  cmp := compareLex (through Prod.fst F.cmp) (through Prod.snd G.cmp)
  trans := inferInstance
  write v := F.write v.1 ++ G.write v.2
  read := do
    let a ← F.read
    let b ← G.read
    pure (a, b)
  ok v := F.ok v.1 ∧ G.ok v.2
  back := by
    rintro ⟨a, b⟩ ⟨ha, hb⟩ r
    rw [List.append_assoc]
    exact bind_eq_some.2 ⟨a, _, F.back a ha _, bind_eq_some.2 ⟨b, r, G.back b hb r, rfl⟩⟩
  yields := yields_bind F.yields fun _ ha => yields_bind G.yields fun _ hb => Yields.pure ⟨ha, hb⟩

theorem yields_readList {u : Reader β α} {P : α → Prop} (hu : Yields u P) (n : Nat) :
    Yields (readList u n) fun l => l.length = n ∧ ∀ a ∈ l, P a := by
  induction n with
  | zero => exact Yields.pure ⟨rfl, by simp⟩
  | succ n ih =>
    refine yields_bind hu fun a ha => yields_bind ih fun l hl => Yields.pure ?_
    refine ⟨by rw [List.length_cons, hl.1], ?_⟩
    intro b hb
    rcases List.mem_cons.1 hb with rfl | hb
    · exact ha
    · exact hl.2 b hb

/-- A reader of a count and of so many values gives lists that are not too long. -/
theorem yields_unpackList {C : Count β} {u : Reader β α} {P : α → Prop} (hC : Yields C.read fun n => n < C.M) (hu : Yields u P) :
    Yields (unpackList C u) fun l => l.length < C.M ∧ ∀ a ∈ l, P a := by
  refine yields_bind hC fun n hn => ?_
  intro s l t hs
  obtain ⟨hlen, hall⟩ := yields_readList hu n s l t hs
  exact ⟨by omega, hall⟩

theorem back_list {C : Count β} {F : Format β} {l : List F.Carrier} (hl : l.length < C.M ∧ ∀ a ∈ l, F.ok a) (r : List β) :
    unpackList C F.read (packList C F.write l ++ r) = some (l, r) :=
  (reads_packList (by omega) fun a _ => F.reads a).back hl r

/-- Values one after the other, with their number in front. -/
def list (C : Count β) (hC : Yields C.read fun n => n < C.M) (F : Format β) : Format β where
  Carrier := List F.Carrier
  cmp := List.compareLex F.cmp
  trans := inferInstance
  write := packList C F.write
  read := unpackList C F.read
  ok l := l.length < C.M ∧ ∀ a ∈ l, F.ok a
  back _ hl := back_list hl
  yields := yields_unpackList hC F.yields

/-- The items of a sorted container in their order; reading inserts them one after the other. -/
def sorted (C : Count β) (hC : Yields C.read fun n => n < C.M) (F : Format β) (cmp : F.Carrier → F.Carrier → Ordering)
    [Std.TransCmp cmp] : Format β where
  Carrier := Sorted cmp
  cmp := through Sorted.items (List.compareLex F.cmp)
  trans := inferInstance
  write s := packList C F.write s.items
  read := do
    let l ← unpackList C F.read
    pure (Sorted.ofList l)
  ok s := s.items.length < C.M ∧ ∀ a ∈ s.items, F.ok a
  back s hs r := bind_eq_some.2 ⟨s.items, r, back_list hs r, by rw [Sorted.ofList_items]; rfl⟩
  yields := yields_bind (yields_unpackList hC F.yields) fun l hl => Yields.pure
    ⟨Nat.lt_of_le_of_lt (Sorted.length_ofList l) hl.1, fun a ha => hl.2 a (Sorted.mem_ofList ha)⟩

/-- The values of a set in the order of their type. -/
def set (C : Count β) (hC : Yields C.read fun n => n < C.M) (F : Format β) : Format β := sorted C hC F F.cmp

/-- The entries of a map in the order of their keys. -/
def map (C : Count β) (hC : Yields C.read fun n => n < C.M) (F G : Format β) : Format β :=
  sorted C hC (pair F G) (through Prod.fst F.cmp)

end Format

end Codec
