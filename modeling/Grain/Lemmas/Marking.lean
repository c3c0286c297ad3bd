import Grain.Lemmas.Coherent

/-!
# Marks and recorded hashes

`calc_tree_hash` hashes only what is marked. `Store.Marked` says what that rests on: a child that is marked is in memory, in a
marked cell, and the hash that is recorded for a child that is not marked is that of its content. `setDirty` restores it where
only cells on the way up from the marked one have changed (`MarkedOff`).
-/

namespace Grain

namespace Store

/-- The cell is in the tree: on the way up every number is in place and every cell has a hash in its parent. -/
def InTree (s : Store) (c : CellPtr) : Prop := ∀ n id c', (n, id) :: c' <:+ c → n = (s.cell c').gen id ∧ id ∈ (s.cell c').hashes

variable {s t : Store}

theorem inTree_nil (s : Store) : InTree s [] := by
  intro n id c' hs
  simp at hs

theorem InTree.suffix {c c' : CellPtr} (h : InTree s c) (hs : c' <:+ c) : InTree s c' :=
  fun n id c'' hs' => h n id c'' (hs'.trans hs)

theorem inTree_cons {n id : Nat} {c : CellPtr} :
    InTree s ((n, id) :: c) ↔ InTree s c ∧ n = (s.cell c).gen id ∧ id ∈ (s.cell c).hashes := by
  constructor
  · exact fun h => ⟨h.suffix (List.suffix_cons _ _), h n id c (List.suffix_refl _)⟩
  · rintro ⟨h, hn, hid⟩ m id' c' hs
    rcases List.suffix_cons_iff.1 hs with he | hs
    · simp only [List.cons.injEq, Prod.mk.injEq] at he
      obtain ⟨⟨rfl, rfl⟩, rfl⟩ := he
      exact ⟨hn, hid⟩
    · exact h m id' c' hs

theorem InTree.child {c : CellPtr} (h : InTree s c) {id : Nat} (hid : id ∈ (s.cell c).hashes) : InTree s (s.child c id) :=
  inTree_cons.2 ⟨h, rfl, hid⟩

theorem InTree.current {c : CellPtr} (h : InTree s c) : Current s c := fun n id c' hs => (h n id c' hs).1

theorem InTree.valid {c : CellPtr} (h : InTree s c) : Valid s c := fun n id c' hs =>
    ⟨(h n id c' hs).1.le, fun _ => (h n id c' hs).2⟩

/-- A cell of the tree other than the root is a child of its parent. -/
theorem InTree.eq_child {n id : Nat} {c : CellPtr} (h : InTree s ((n, id) :: c)) : (n, id) :: c = Store.child s c id := by
  rw [Store.child, ← (inTree_cons.1 h).2.1]

/-! ## What marking leaves -/

/-- The second store has the same cells, but for the marks and the sets of children in memory. -/
structure SameContent (s t : Store) : Prop where
  gens : ∀ c, (t.cell c).gens = (s.cell c).gens
  hashes : ∀ c, (t.cell c).hashes = (s.cell c).hashes
  idx : ∀ c, (t.cell c).idx = (s.cell c).idx
  data : ∀ c, (t.cell c).data = (s.cell c).data
  objs : ∀ c, (t.cell c).objs = (s.cell c).objs
  deref : t.deref = s.deref
  db : t.db = s.db

namespace SameContent

variable {u : Store}

theorem refl (s : Store) : SameContent s s := ⟨fun _ => rfl, fun _ => rfl, fun _ => rfl, fun _ => rfl, fun _ => rfl, rfl, rfl⟩

theorem trans (h : SameContent s t) (h' : SameContent t u) : SameContent s u where
  gens c := (h'.gens c).trans (h.gens c)
  hashes c := (h'.hashes c).trans (h.hashes c)
  idx c := (h'.idx c).trans (h.idx c)
  data c := (h'.data c).trans (h.data c)
  objs c := (h'.objs c).trans (h.objs c)
  deref := h'.deref.trans h.deref
  db := h'.db.trans h.db

theorem pack (h : SameContent s t) (c : CellPtr) : t.pack c = s.pack c := by
  unfold Store.pack
  rw [h.idx, h.hashes, h.data, h.deref]

theorem gen (h : SameContent s t) (c : CellPtr) (id : Nat) : (t.cell c).gen id = (s.cell c).gen id := by
  rw [Cell.gen, h.gens, ← Cell.gen]

theorem child (h : SameContent s t) (c : CellPtr) (id : Nat) : t.child c id = s.child c id := by
  rw [Store.child, h.gen, ← Store.child]

theorem live (h : SameContent s t) (c : CellPtr) : InTree t c ↔ InTree s c := by
  unfold InTree
  simp only [h.gen, h.hashes]

end SameContent

/-- The second store is the first with a cell and all the cells above it marked, each entered in its parent. -/
structure Marks (s t : Store) (x : CellPtr) : Prop where
  same : SameContent s t
  dirty : ∀ c, (t.cell c).dirty = true ↔ (s.cell c).dirty = true ∨ c <:+ x
  ptrs : ∀ c id, id ∈ (t.cell c).ptrs ↔ id ∈ (s.cell c).ptrs ∨ s.child c id <:+ x

theorem mark_same (s : Store) (roll : Bool) (c : CellPtr) : SameContent s (s.mark roll c) := by
  unfold mark
  cases roll <;> refine ⟨fun c' => ?_, fun c' => ?_, fun c' => ?_, fun c' => ?_, fun c' => ?_, by simp, by simp⟩ <;>
    by_cases he : c' = c <;> simp [he]

theorem mark_dirty (s : Store) (roll : Bool) (c c' : CellPtr) :
    ((s.mark roll c).cell c').dirty = true ↔ (s.cell c').dirty = true ∨ c' = c := by
  unfold mark
  cases roll <;> by_cases he : c' = c <;> simp [he]

theorem mark_ptrs (s : Store) (roll : Bool) (c c' : CellPtr) : ((s.mark roll c).cell c').ptrs = (s.cell c').ptrs := by
  unfold mark
  cases roll <;> by_cases he : c' = c <;> simp [he]

theorem enter_same (s : Store) (n id : Nat) (c : CellPtr) : SameContent s (s.enter n id c) := by
  unfold enter
  split
  · refine ⟨fun c' => ?_, fun c' => ?_, fun c' => ?_, fun c' => ?_, fun c' => ?_, rfl, rfl⟩ <;> by_cases he : c' = c <;> simp [he]
  · exact .refl s

theorem enter_dirty (s : Store) (n id : Nat) (c c' : CellPtr) : ((s.enter n id c).cell c').dirty = (s.cell c').dirty := by
  unfold enter
  split
  · by_cases he : c' = c <;> simp [he]
  · rfl

theorem enter_ptrs (s : Store) (n id : Nat) (c c' : CellPtr) (id' : Nat) :
    id' ∈ ((s.enter n id c).cell c').ptrs ↔ id' ∈ (s.cell c').ptrs ∨ (s.child c' id' = (n, id) :: c) := by
  unfold enter
  split
  · rename_i hn
    by_cases he : c' = c
    · subst he
      simp only [cell_setCell, if_true, Cell.withPtr_ptrs, Std.ExtTreeSet.mem_insert, Std.LawfulEqCmp.compare_eq_iff_eq, child,
        List.cons.injEq, Prod.mk.injEq, and_true]
      constructor
      · rintro (rfl | h)
        · exact .inr ⟨hn.symm, rfl⟩
        · exact .inl h
      · rintro (h | ⟨-, rfl⟩)
        · exact .inr h
        · exact .inl rfl
    · simp [he, child]
  · rename_i hn
    refine ⟨.inl, ?_⟩
    rintro (h | h)
    · exact h
    · simp only [child, List.cons.injEq, Prod.mk.injEq] at h
      obtain ⟨⟨h1, rfl⟩, rfl⟩ := h
      exact absurd h1.symm hn

/-- What `setDirty__` does. -/
theorem setDirty_marks (s : Store) (roll : Bool) (x : CellPtr) : Marks s (s.setDirty roll x) x := by
  induction x generalizing s with
  | nil =>
    refine ⟨mark_same s roll [], fun c => ?_, fun c id => ?_⟩
    · rw [setDirty, mark_dirty, List.suffix_nil]
    · rw [setDirty, mark_ptrs]
      simp [child]
  | cons y x ih =>
    obtain ⟨n, id⟩ := y
    have h1 := mark_same s roll ((n, id) :: x)
    have h2 := enter_same (s.mark roll ((n, id) :: x)) n id x
    have h3 := ih ((s.mark roll ((n, id) :: x)).enter n id x)
    refine ⟨(h1.trans h2).trans h3.same, fun c => ?_, fun c id' => ?_⟩
    · rw [setDirty, h3.dirty, enter_dirty, mark_dirty, List.suffix_cons_iff, or_assoc]
    · rw [setDirty, h3.ptrs, enter_ptrs, mark_ptrs, h2.child, h1.child, List.suffix_cons_iff, or_assoc]

/-! ## OnRecord hashes -/

/-- What is known of a child of a cell, with the hash that the cell has for it; `b` says that the cell is marked. -/
def Edge (s : Store) (c : CellPtr) (id : Nat) (h : Hash) (b : Prop) : Prop :=
  ((s.cell (s.child c id)).dirty = true ∧ b ∧ id ∈ (s.cell c).ptrs) ∨
    ((s.cell (s.child c id)).dirty = false ∧ h = (s.pack (s.child c id)).hash)

/-- In the tree below a cell, a marked child is in memory in a marked cell, and the hash that is recorded for another child is that
of its content. -/
def MarkedBelow (s : Store) (x : CellPtr) : Prop :=
  ∀ c id h, x <:+ c → InTree s c → (s.cell c).hashes[id]? = some h → Edge s c id h ((s.cell c).dirty = true)

/-- The same for the whole tree. -/
abbrev Marked (s : Store) : Prop := MarkedBelow s []

/-- The same for the whole tree, if a cell and the cells above it were marked. -/
def MarkedOff (s : Store) (x : CellPtr) : Prop :=
  ∀ c id h, InTree s c → (s.cell c).hashes[id]? = some h → ¬ s.child c id <:+ x → Edge s c id h ((s.cell c).dirty = true ∨ c <:+ x)

theorem MarkedOff.marks {x : CellPtr} (h : MarkedOff s x) (hm : Marks s t x) : Marked t := by
  intro c id h' _ hc hh
  rw [hm.same.live] at hc
  rw [hm.same.hashes] at hh
  unfold Edge
  rw [hm.same.child, hm.same.pack, hm.ptrs, hm.dirty c]
  by_cases hx : s.child c id <:+ x
  · have hcx : c <:+ x := (List.suffix_cons _ _).trans hx
    exact .inl ⟨(hm.dirty _).2 (.inr hx), .inr hcx, .inr hx⟩
  · rcases h c id h' hc hh hx with ⟨h1, h2, h3⟩ | ⟨h1, h2⟩
    · exact .inl ⟨(hm.dirty _).2 (.inl h1), h2, .inl h3⟩
    · refine .inr ⟨?_, h2⟩
      rw [Bool.eq_false_iff, ne_eq, hm.dirty, h1]
      simpa using hx

theorem MarkedOff.setDirty {x : CellPtr} (h : MarkedOff s x) (roll : Bool) : Marked (s.setDirty roll x) :=
  h.marks (setDirty_marks s roll x)

theorem Marked.off (h : Marked s) (x : CellPtr) : MarkedOff s x := by
  intro c id h' hc hh _
  rcases h c id h' List.nil_suffix hc hh with ⟨h1, h2, h3⟩ | h1
  · exact .inl ⟨h1, .inl h2, h3⟩
  · exact .inr h1

end Store

end Grain
