import Grain.Chain
import Grain.Lemmas.Idle

/-!
# The representation of the cells

A packed cell is coherent when its constructor index is the one of the payload it has, and the index without a constructor when
it has none. `Store.Coherent` says so of every cell, and that a child in memory has a hash. The operations of the store keep it,
and they keep the pointers that were handed out good (`Valid`), as long as no rollback takes away what the transaction has made
(`Undone`).
-/

namespace Grain

/-- The constructor index is that of the payload. -/
def Packed.Coherent (b : Packed) : Prop := b.idx = (b.data.map (·.payload.hsh)).getD .hshEnd

theorem Payload.hsh_ne_end (p : Payload) : p.hsh ≠ .hshEnd := by
  cases p <;> exact nofun

/-- No assignment changes the type of a payload. -/
theorem Write.hsh_apply (w : Write) (o : DataObj) : (w.apply o).payload.hsh = o.payload.hsh := by
  obtain ⟨_, _, p⟩ := o
  cases w <;> cases p <;> rfl

theorem Packed.Coherent.loadable {b : Packed} (h : b.Coherent) : Loadable b := by
  unfold Packed.Coherent at h
  intro hd he
  obtain ⟨o, ho⟩ := Option.isSome_iff_exists.1 hd
  rw [he, ho] at h
  exact o.payload.hsh_ne_end h.symm

/-- Every granule that is filed for writing is coherent. -/
def DbToSave.Coherent (d : DbToSave) : Prop := ∀ (p : Path) (b : Packed), d.cells[p]? = some b → b.Coherent

theorem DbToSave.Coherent.add {d : DbToSave} (h : d.Coherent) {p : Path} {b : Packed} (hb : b.Coherent) : (d.add p b).Coherent := by
  intro q b' hb'
  rw [DbToSave.add, StdMap.getElem?_insert] at hb'
  split at hb'
  · cases hb'
    exact hb
  · exact h q b' hb'

section Folds

variable {κ ν : Type} [Ord κ] [Std.TransOrd κ] [Std.LawfulEqOrd κ] [DecidableEq κ]

/-- An entry of a map into which a list was entered is one of the list or was there before. -/
theorem getElem?_foldl_insert {l : List (κ × ν)} {m : StdMap κ ν} {a : κ} {v : ν}
    (h : (l.foldl (fun m z => m.insert z.1 z.2) m)[a]? = some v) : (∃ k, (k, v) ∈ l ∧ k = a) ∨ m[a]? = some v := by
  induction l generalizing m with
  | nil => exact .inr h
  | cons z l ih =>
    rcases ih h with ⟨k, hk, rfl⟩ | h1
    · exact .inl ⟨k, List.mem_cons_of_mem _ hk, rfl⟩
    · rw [StdMap.getElem?_insert] at h1
      split at h1
      · rename_i he
        cases h1
        exact .inl ⟨z.1, List.mem_cons_self, he⟩
      · exact .inr h1

/-- An entry of a map from which a list was erased was there before. -/
theorem getElem?_foldl_erase {l : List κ} {m : StdMap κ ν} {a : κ} {v : ν}
    (h : (l.foldl (fun m z => m.erase z) m)[a]? = some v) : m[a]? = some v := by
  induction l generalizing m with
  | nil => exact h
  | cons z l ih =>
    have h1 := ih h
    rw [StdMap.getElem?_erase] at h1
    split at h1
    · cases h1
    · exact h1

end Folds

theorem DbToSave.Coherent.merge {d e : DbToSave} (h : d.Coherent) (he : e.Coherent) : (d.merge e).Coherent := by
  intro p b hb
  rcases getElem?_foldl_insert hb with ⟨q, hq, rfl⟩ | hb
  · exact he q b (Std.ExtTreeMap.mem_toList_iff_getElem?_eq_some.1 hq)
  · exact h p b hb

namespace Store

/-- Every cell is coherent, in memory, in the log and in the database; a child in memory has a hash; no cell is logged twice. -/
structure Coherent (s : Store) : Prop where
  packed : ∀ c, (s.pack c).Coherent
  ptrs : ∀ c id, id ∈ (s.cell c).ptrs → id ∈ (s.cell c).hashes
  logged : ∀ e ∈ s.roll, e.2.Coherent
  once : (s.roll.map (·.1)).Nodup
  db : ∀ (p : Path) (b : Packed), s.db[p]? = some b → b.Coherent

/-- No number on the way up is ahead of its place, and a place that has the number has a child. -/
def Valid (s : Store) (p : CellPtr) : Prop :=
  ∀ n id c, (n, id) :: c <:+ p → n ≤ (s.cell c).gen id ∧ (n = (s.cell c).gen id → id ∈ (s.cell c).hashes)

/-- Every cell in the log had, when it was logged, the children that it has, and a payload if it has one. -/
def Undone (s : Store) : Prop :=
  ∀ c b, (c, b) ∈ s.roll → (∀ id ∈ (s.cell c).hashes, id ∈ b.hashes) ∧ (b.data = none → (s.cell c).data = none)

instance (s : Store) : Decidable (Undone s) :=
  decidable_of_iff (∀ e ∈ s.roll, (∀ id ∈ (s.cell e.1).hashes.keys, id ∈ e.2.hashes) ∧
    (e.2.data = none → (s.cell e.1).data = none)) (by simp [Undone])

/-- The second store is coherent, and the pointers that are good in the first are good in it. -/
structure Leads (s t : Store) : Prop where
  coherent : t.Coherent
  valid : ∀ p, Valid s p → Valid t p

namespace Leads

variable {s t u : Store}

theorem refl (h : s.Coherent) : Leads s s := ⟨h, fun _ hp => hp⟩

theorem trans (h : Leads s t) (h' : Leads t u) : Leads s u := ⟨h'.coherent, fun p hp => h'.valid p (h.valid p hp)⟩

end Leads

variable {s : Store}

/-! ## Replacing a cell -/

/-- A cell is replaced by one with the same payload. -/
theorem Coherent.setCell (h : s.Coherent) {c : CellPtr} {k : Cell} (hi : k.idx = (s.cell c).idx) (hd : k.data = (s.cell c).data)
    (hp : ∀ id, id ∈ k.ptrs → id ∈ k.hashes) : (s.setCell c k).Coherent where
  packed c' := by
    have := h.packed c'
    unfold Packed.Coherent pack at this ⊢
    by_cases he : c' = c
    · subst he
      simpa [hi, hd] using this
    · simpa [he] using this
  ptrs c' id hid := by
    rw [cell_setCell] at hid ⊢
    split at hid
    · rename_i he
      rw [if_pos he]
      exact hp id hid
    · rename_i he
      rw [if_neg he]
      exact h.ptrs c' id hid
  logged := h.logged
  once := h.once
  db := h.db

/-- A cell is replaced by one with the same numbers and no fewer hashes. -/
theorem Valid.setCell {p : CellPtr} (h : Valid s p) {c : CellPtr} {k : Cell} (hg : k.gens = (s.cell c).gens)
    (hh : ∀ id, id ∈ (s.cell c).hashes → id ∈ k.hashes) : Valid (s.setCell c k) p := by
  intro n id c' hs
  obtain ⟨h1, h2⟩ := h n id c' hs
  rw [cell_setCell]
  split
  · rename_i he
    subst he
    rw [Cell.gen, hg]
    exact ⟨h1, fun hn => hh id (h2 hn)⟩
  · exact ⟨h1, h2⟩

theorem Coherent.replace (h : s.Coherent) {c : CellPtr} {k : Cell} (hi : k.idx = (s.cell c).idx) (hd : k.data = (s.cell c).data)
    (hp : ∀ id, id ∈ k.ptrs → id ∈ k.hashes) (hg : k.gens = (s.cell c).gens) (hh : ∀ id, id ∈ (s.cell c).hashes → id ∈ k.hashes) :
    Leads s (s.setCell c k) :=
  ⟨h.setCell hi hd hp, fun _ hv => hv.setCell hg hh⟩

/-! ## Marking -/

theorem Coherent.snapshot (h : s.Coherent) (c : CellPtr) : Leads s (s.snapshot c) := by
  refine ⟨⟨fun c' => ?_, fun c' id hid => ?_, fun e he => ?_, ?_, fun p b hb => ?_⟩, fun p hp n id c' hs => ?_⟩
  · simpa [pack] using h.packed c'
  · simpa using h.ptrs c' id (by simpa using hid)
  · rcases mem_roll_snapshot he with he | rfl
    · exact h.logged e he
    · exact h.packed c
  · unfold Store.snapshot
    split
    · exact h.once
    · rename_i hany
      have hnot : c ∉ s.roll.map (·.1) := fun hm => by
        obtain ⟨e, he, rfl⟩ := List.mem_map.1 hm
        exact hany (List.any_eq_true.2 ⟨e, he, by simp⟩)
      simpa [List.nodup_append] using ⟨h.once, fun a b hab he => hnot (he ▸ List.mem_map.2 ⟨(a, b), hab, rfl⟩)⟩
  · exact h.db p b (by simpa using hb)
  · simpa using hp n id c' hs

theorem Coherent.mark (h : s.Coherent) (roll : Bool) (c : CellPtr) : Leads s (s.mark roll c) := by
  have hdirty : ∀ t : Store, t.Coherent → Leads t (t.setCell c ((t.cell c).withDirty true)) := fun t ht =>
    ht.replace rfl rfl (ht.ptrs c) rfl fun _ hid => hid
  cases roll
  · exact hdirty s h
  · have h1 := h.snapshot c
    exact h1.trans (hdirty _ h1.coherent)

/-- A child whose pointer is good is entered in its parent's set. -/
theorem Coherent.enter (h : s.Coherent) {n : Nat} {id : Nat} {c : CellPtr} (hv : Valid s ((n, id) :: c)) :
    Leads s (s.enter n id c) := by
  unfold Store.enter
  split
  · rename_i hn
    have hid := (hv n id c (List.suffix_refl _)).2 hn
    refine h.replace rfl rfl (fun id' hid' => ?_) rfl fun _ hid => hid
    simp only [Cell.withPtr_ptrs, Std.ExtTreeSet.mem_insert, Std.LawfulEqCmp.compare_eq_iff_eq] at hid'
    rcases hid' with rfl | hid'
    · exact hid
    · exact h.ptrs c id' hid'
  · exact .refl h

theorem Valid.tail {p : CellPtr} {x : Nat × Nat} (h : Valid s (x :: p)) : Valid s p :=
  fun n id c hs => h n id c (hs.trans (List.suffix_cons _ _))

theorem Coherent.setDirty (h : s.Coherent) (roll : Bool) {p : CellPtr} (hp : Valid s p) : Leads s (s.setDirty roll p) := by
  induction p generalizing s with
  | nil => exact h.mark roll []
  | cons x p ih =>
    have h1 := h.mark roll (x :: p)
    have h2 := h1.trans (h1.coherent.enter (h1.valid _ hp))
    exact h2.trans (ih h2.coherent (h2.valid _ hp.tail))

/-! ## Lookups -/

theorem valid_nil : Valid s [] := by
  intro n id c hs
  simp at hs

theorem Valid.child {c : CellPtr} (h : Valid s c) {id : Nat} (hid : id ∈ (s.cell c).hashes) : Valid s (s.child c id) := by
  intro n id' c' hs
  rcases List.suffix_cons_iff.1 hs with he | hs
  · simp only [List.cons.injEq, Prod.mk.injEq] at he
    obtain ⟨⟨rfl, rfl⟩, rfl⟩ := he
    exact ⟨le_refl _, fun _ => hid⟩
  · exact h n id' c' hs

/-- A child that is found has a hash. -/
theorem Coherent.hashed_of_found (h : s.Coherent) {c p : CellPtr} {id : Nat} (hr : s.replaceLeafNoCreate c id = .ok (some p)) :
    id ∈ (s.cell c).hashes := by
  unfold replaceLeafNoCreate at hr
  split at hr
  · rename_i hid
    exact h.ptrs c id hid
  · split at hr
    · cases hr
    · rename_i x hx
      exact (StdMap.mem_iff _ _).2 ⟨x, hx⟩

theorem Coherent.resolve (h : s.Coherent) {ids : Path} {c p : CellPtr} (hc : Valid s c) (hr : s.resolve ids c = .ok (some p)) :
    Valid s p := by
  induction ids generalizing c with
  | nil =>
    obtain rfl : c = p := by simpa [Store.resolve] using hr
    exact hc
  | cons id ids ih =>
    unfold Store.resolve at hr
    split at hr
    · rename_i p' he
      have hid := h.hashed_of_found he
      rw [replaceLeafNoCreate_some he] at hr
      exact ih (hc.child hid) hr
    · cases hr
    · cases hr

/-- What a lookup shows is under a good pointer. -/
theorem Coherent.look (h : s.Coherent) {p : Path} {i : Hsh} {d : DataPtr} {o : DataObj}
    (hl : s.look p = .ok (some (i, some (d, o)))) : Valid s d.parent := by
  unfold Store.look at hl
  split at hl
  · rename_i r hr
    rcases r with _ | c
    · cases hl
    · simp only [Option.map_some, Except.ok.injEq, Option.some.injEq, view, leaf, Prod.mk.injEq, Option.map_eq_some_iff] at hl
      obtain ⟨-, g, -, rfl, -⟩ := hl
      exact h.resolve valid_nil hr
  · cases hl

/-! ## Making cells -/

/-- A new child in a place that has just got its hash: no good pointer leads through it. -/
theorem Coherent.newChild (h : s.Coherent) {c : CellPtr} {id : Nat} (hid : id ∉ (s.cell c).hashes) (hv : Valid s c) :
    Leads s ((s.setCell c ((s.cell c).withHash id .empty)).newChild c id) ∧
      Valid ((s.setCell c ((s.cell c).withHash id .empty)).newChild c id) (s.child c id) := by
  set t := s.setCell c ((s.cell c).withHash id .empty) with ht
  have h1 : Leads s t := by
    refine h.replace rfl rfl (fun id' hid' => ?_) rfl fun id' hid' => ?_
    · exact (StdMap.mem_insert _ _ _ _).2 (.inr (h.ptrs c id' hid'))
    · exact (StdMap.mem_insert _ _ _ _).2 (.inr hid')
  have hmem : id ∈ (t.cell c).hashes := by simp [ht]
  have hchild : t.child c id = s.child c id := by simp [ht, child, Cell.gen]
  have hne : c ≠ s.child c id := (child_ne_self s c id).symm
  -- the new cell has nothing
  have h2 : (t.setCell (t.child c id) {}).Coherent := by
    refine ⟨fun c' => ?_, fun c' id' hid' => ?_, h1.coherent.logged, h1.coherent.once, h1.coherent.db⟩
    · have := h1.coherent.packed c'
      unfold Packed.Coherent pack at this ⊢
      rw [cell_setCell]
      split
      · rfl
      · simpa using this
    · rw [cell_setCell] at hid' ⊢
      split at hid'
      · simp at hid'
      · rename_i he
        rw [if_neg he]
        exact h1.coherent.ptrs c' id' hid'
  have hfresh : ∀ p, Valid s p → Valid (t.setCell (t.child c id) {}) p := by
    intro p hp n id' c' hs
    have hc' : c' ≠ t.child c id := by
      rintro rfl
      rw [hchild] at hs
      obtain ⟨-, h4⟩ := hp _ id c ((List.suffix_cons _ _).trans hs)
      exact hid (h4 rfl)
    simpa [hc'] using h1.valid p hp n id' c' hs
  have hcell : (t.setCell (t.child c id) {}).cell c = t.cell c := by
    rw [cell_setCell, hchild, if_neg hne]
  have h3 : Leads (t.setCell (t.child c id) {}) (t.newChild c id) := by
    unfold Store.newChild
    refine h2.replace (by rw [hcell]; rfl) (by rw [hcell]; rfl) (fun id' hid' => ?_) (by rw [hcell]; rfl) fun id' hid' => ?_
    · simp only [Cell.withPtr_ptrs, Std.ExtTreeSet.mem_insert, Std.LawfulEqCmp.compare_eq_iff_eq] at hid'
      rcases hid' with rfl | hid'
      · exact hmem
      · exact h1.coherent.ptrs c id' hid'
    · rwa [hcell] at hid'
  have hlead : Leads s (t.newChild c id) := ⟨h3.coherent, fun p hp => h3.valid p (hfresh p hp)⟩
  refine ⟨hlead, ?_⟩
  have hcnew : (t.newChild c id).cell c = (t.cell c).withPtr id := by
    unfold Store.newChild
    simp
  have hnew : id ∈ ((t.newChild c id).cell c).hashes := by
    rw [hcnew]
    exact hmem
  have := (hlead.valid c hv).child hnew
  rwa [child, hcnew, Cell.gen, Cell.withPtr_gens, ← Cell.gen, ← child, hchild] at this

theorem Coherent.replaceLeafOrCreate (h : s.Coherent) (roll : Bool) {c : CellPtr} (hv : Valid s c) (id : Nat) :
    Leads s (s.replaceLeafOrCreate roll c id).2 ∧
      ∀ p, (s.replaceLeafOrCreate roll c id).1 = .ok (some p) → Valid (s.replaceLeafOrCreate roll c id).2 p := by
  unfold Store.replaceLeafOrCreate
  split
  · rename_i hid
    refine ⟨.refl h, fun p hp => ?_⟩
    rw [replaceLeafNoCreate_some hp]
    exact hv.child hid
  rename_i hid
  set s1 := if roll then s.snapshot c else s with hs1
  have h1 : Leads s s1 := by
    rw [hs1]
    split
    · exact h.snapshot c
    · exact .refl h
  have hcell : s1.cell = s.cell := by
    rw [hs1]
    split <;> simp
  dsimp only
  split
  · rename_i hp
    refine absurd (h.ptrs c id ?_) hid
    simpa [hcell] using hp
  · obtain ⟨h2, h3⟩ := h1.coherent.newChild (by rwa [hcell]) (h1.valid c hv)
    set t := (s1.setCell c ((s1.cell c).withHash id .empty)) with ht
    have hchild : t.child c id = s1.child c id := by simp [ht, child, Cell.gen]
    rw [hchild]
    have h4 := h1.trans h2
    have h5 := h2.coherent.setDirty roll h3
    refine ⟨h4.trans h5, fun p hp => ?_⟩
    simp only [Except.ok.injEq, Option.some.injEq] at hp
    exact hp ▸ h5.valid _ h3

theorem Coherent.resolveOrCreate (h : s.Coherent) (roll : Bool) (ids : Path) {c : CellPtr} (hv : Valid s c) :
    Leads s (Store.resolveOrCreate roll ids c s).2 ∧
      ∀ p, (Store.resolveOrCreate roll ids c s).1 = .ok (some p) → Valid (Store.resolveOrCreate roll ids c s).2 p := by
  induction ids generalizing c s with
  | nil =>
    refine ⟨.refl h, fun p hp => ?_⟩
    obtain rfl : c = p := by simpa [Store.resolveOrCreate] using hp
    exact hv
  | cons id ids ih =>
    obtain ⟨h1, h2⟩ := h.replaceLeafOrCreate roll hv id
    unfold Store.resolveOrCreate
    split
    · rename_i p t he
      rw [he] at h1 h2
      obtain ⟨h3, h4⟩ := ih h1.coherent (h2 p rfl)
      exact ⟨h1.trans h3, h4⟩
    · rename_i t he
      rw [he] at h1
      exact ⟨h1, fun p hp => by cases hp⟩
    · rename_i e t he
      rw [he] at h1
      exact ⟨h1, fun p hp => by cases hp⟩

/-- A cell gets a new payload object, and the index that is given. -/
theorem Coherent.withObj (h : s.Coherent) {c : CellPtr} {o : DataObj} {t : Store} (hcell : ∀ c', c' ≠ c → t.cell c' = s.cell c')
    (hderef : ∀ d, d.parent ≠ c → t.deref d = s.deref d) (hdata : ∃ g, (t.cell c).data = some g ∧ t.deref ⟨g, c⟩ = o)
    (hidx : (t.cell c).idx = o.payload.hsh) (hgens : (t.cell c).gens = (s.cell c).gens)
    (hh : ∀ id ∈ (s.cell c).hashes, id ∈ (t.cell c).hashes) (hptrs : (t.cell c).ptrs = (s.cell c).ptrs) (hroll : t.roll = s.roll)
    (hdb : t.db = s.db) : Leads s t := by
  refine ⟨⟨fun c' => ?_, fun c' id hid => ?_, by rw [hroll]; exact h.logged, by rw [hroll]; exact h.once,
    by rw [hdb]; exact h.db⟩, fun p hp n id c' hs => ?_⟩
  · unfold Packed.Coherent pack
    by_cases he : c' = c
    · subst he
      obtain ⟨g, hg, ho⟩ := hdata
      simp [hg, ho, hidx]
    · have := h.packed c'
      unfold Packed.Coherent pack at this
      have hd : ∀ g, t.deref ⟨g, c'⟩ = s.deref ⟨g, c'⟩ := fun g => hderef ⟨g, c'⟩ he
      simpa [hcell c' he, hd] using this
  · by_cases he : c' = c
    · subst he
      exact hh id (h.ptrs c' id (hptrs ▸ hid))
    · rw [hcell c' he] at hid ⊢
      exact h.ptrs c' id hid
  · obtain ⟨h1, h2⟩ := hp n id c' hs
    by_cases he : c' = c
    · subst he
      rw [Cell.gen, hgens]
      exact ⟨h1, fun hn => hh id (h2 hn)⟩
    · rw [hcell c' he]
      exact ⟨h1, h2⟩

theorem Coherent.construct (h : s.Coherent) (c : CellPtr) (o : DataObj) : Leads s (s.construct c o) := by
  unfold Store.construct
  refine h.withObj (c := c) (o := o) ?_ ?_ ⟨(s.cell c).objs, by simp, by simp⟩ (by simp) (by simp) ?_ (by simp) rfl rfl
  · intro c' he
    simp [he]
  · intro d hd
    have hne : d ≠ ⟨(s.cell c).objs, c⟩ := fun he => hd (by rw [he])
    simp [hne]
  · intro id hid
    simpa using hid

theorem Coherent.create (h : s.Coherent) (p : Path) (o : DataObj) :
    Leads s (s.create p o).2 ∧ ∀ r, (s.create p o).1 = .ok r → Valid (s.create p o).2 r.2.1.parent := by
  obtain ⟨h1, h2⟩ := h.resolveOrCreate true p valid_nil
  unfold Store.create getByPathOrCreate
  split
  · rename_i c t he
    rw [he] at h1 h2
    split
    · rename_i d hd
      refine ⟨h1, fun r hr => ?_⟩
      cases hr
      simp only [leaf, Option.map_eq_some_iff] at hd
      obtain ⟨g, -, rfl⟩ := hd
      exact h2 c rfl
    · have h3 := h1.coherent.construct c o
      refine ⟨h1.trans h3, fun r hr => ?_⟩
      cases hr
      exact h3.valid c (h2 c rfl)
  · rename_i t he
    rw [he] at h1
    refine ⟨h1, fun r hr => ?_⟩
    cases hr
  · rename_i e t he
    rw [he] at h1
    refine ⟨h1, fun r hr => ?_⟩
    cases hr

/-! ## Deleting -/

theorem Coherent.unlink (h : s.Coherent) (c : CellPtr) (id : Nat) : Leads s (s.unlink c id) := by
  refine ⟨h.setCell rfl rfl fun id' hid' => ?_, fun p hp n id' c' hs => ?_⟩
  · simp only [Cell.without_ptrs, Std.ExtTreeSet.mem_erase, ne_eq, Std.LawfulEqCmp.compare_eq_iff_eq] at hid'
    exact (StdMap.mem_erase _ _ _).2 ⟨hid'.1, h.ptrs c id' hid'.2⟩
  · obtain ⟨h1, h2⟩ := hp n id' c' hs
    unfold Store.unlink
    rw [cell_setCell]
    split
    · rename_i he
      subst he
      by_cases hid : id = id'
      · subst hid
        have hgen : ((s.cell c').without id).gen id = (s.cell c').gen id + 1 := by simp [Cell.gen]
        rw [hgen]
        exact ⟨by omega, fun hn => by omega⟩
      · have hgen : ((s.cell c').without id).gen id' = (s.cell c').gen id' := by
          simp [Cell.gen, StdMap.getElem?_insert, hid]
        rw [hgen]
        exact ⟨h1, fun hn => (StdMap.mem_erase _ _ _).2 ⟨hid, h2 hn⟩⟩
    · exact ⟨h1, h2⟩

theorem Coherent.prune (h : s.Coherent) (p : CellPtr) (d : DbToSave) :
    Leads s (Store.prune p (s, d)).1 ∧ (Store.prune p (s, d)).2.cells = d.cells := by
  induction p generalizing s d with
  | nil => exact ⟨.refl h, rfl⟩
  | cons x p ih =>
    obtain ⟨n, id⟩ := x
    unfold Store.prune
    split
    · have h1 := h.unlink p id
      have h2 := ih h1.coherent (d.del (getDbId ((n, id) :: p)))
      exact ⟨h1.trans h2.1, h2.2⟩
    · exact ⟨.refl h, rfl⟩

theorem Coherent.deleteGranule (h : s.Coherent) {g : DataPtr} (hg : Valid s g.parent) (roll : Bool) (d : DbToSave) :
    Leads s (s.deleteGranule g roll d).1 ∧ (s.deleteGranule g roll d).2.cells = d.cells := by
  have h1 := h.setDirty roll hg
  obtain ⟨h2, h3⟩ := h1.coherent.prune g.parent d
  exact ⟨h1.trans h2, h3⟩

/-! ## Hashing -/

/-- One turn of the loop of `calc_tree_hash`, given what the recursive call keeps. -/
theorem Coherent.hashChild {rec : CellPtr → Store × DbToSave → Store × DbToSave}
    (hrec : ∀ p (x : Store × DbToSave), x.1.Coherent → x.2.Coherent → Leads x.1 (rec p x).1 ∧ (rec p x).2.Coherent)
    {x : Store × DbToSave} (h : x.1.Coherent) (hd : x.2.Coherent) (c : CellPtr) (id : Nat) :
    Leads x.1 (Store.hashChild rec c x id).1 ∧ (Store.hashChild rec c x id).2.Coherent := by
  obtain ⟨h1, h2⟩ := hrec (x.1.child c id) x h hd
  unfold Store.hashChild
  dsimp only
  split
  · split
    · refine ⟨h1.trans (h1.coherent.replace rfl rfl (fun id' hid' => ?_) rfl fun id' hid' => ?_), h2.add (h1.coherent.packed _)⟩
      · exact (StdMap.mem_insert _ _ _ _).2 (.inr (h1.coherent.ptrs c id' hid'))
      · exact (StdMap.mem_insert _ _ _ _).2 (.inr hid')
    · exact ⟨h1, h2⟩
  · exact ⟨.refl h, hd⟩

theorem Coherent.calcTreeHash (n : Nat) (c : CellPtr) {x : Store × DbToSave} (h : x.1.Coherent) (hd : x.2.Coherent) :
    Leads x.1 (Store.calcTreeHash n c x).1 ∧ (Store.calcTreeHash n c x).2.Coherent := by
  induction n generalizing c x with
  | zero => exact ⟨.refl h, hd⟩
  | succ n ih =>
    unfold Store.calcTreeHash
    split
    · have hfold : ∀ (l : List Nat) (y : Store × DbToSave), y.1.Coherent → y.2.Coherent →
          Leads y.1 (l.foldl (Store.hashChild (Store.calcTreeHash n) c) y).1 ∧
            (l.foldl (Store.hashChild (Store.calcTreeHash n) c) y).2.Coherent := by
        intro l
        induction l with
        | nil => exact fun y hy hyd => ⟨.refl hy, hyd⟩
        | cons id l ihl =>
          intro y hy hyd
          obtain ⟨h1, h2⟩ := Coherent.hashChild (fun p x hx hxd => ih p hx hxd) hy hyd c id
          obtain ⟨h3, h4⟩ := ihl _ h1.coherent h2
          exact ⟨h1.trans h3, h4⟩
      obtain ⟨h1, h2⟩ := hfold (x.1.cell c).ptrs.toList x h hd
      exact ⟨h1.trans (h1.coherent.replace rfl rfl (h1.coherent.ptrs c) rfl fun _ hid => hid), h2⟩
    · exact ⟨.refl h, hd⟩

/-! ## Assignments -/

theorem Coherent.assign (h : s.Coherent) (d : DataPtr) (w : Write) : Leads s (s.setObj d (w.apply (s.deref d))) := by
  refine ⟨⟨fun c => ?_, h.ptrs, h.logged, h.once, h.db⟩, fun p hp => hp⟩
  have hc := h.packed c
  unfold Packed.Coherent pack at hc ⊢
  rcases hg : (s.cell c).data with _ | g
  · simpa [hg] using hc
  · by_cases he : (⟨g, c⟩ : DataPtr) = d
    · subst he
      simpa [hg, Write.hsh_apply] using hc
    · simpa [hg, he] using hc

/-! ## The rollback -/

/-- A logged cell is put back that had the children that the cell has, and a payload if it has one. -/
theorem Coherent.unpackMx (h : s.Coherent) {c : CellPtr} {b : Packed} (hb : b.Coherent)
    (hh : ∀ id ∈ (s.cell c).hashes, id ∈ b.hashes) (hd : b.data = none → (s.cell c).data = none) :
    (s.unpackMx c b).1 = .ok () ∧ Leads s (s.unpackMx c b).2 := by
  have hi : b.data.isSome → b.idx ≠ .hshEnd := hb.loadable
  refine ⟨?_, ?_⟩
  · unfold Store.unpackMx
    rcases ho : b.data with _ | o
    · rfl
    · simp [hi (by simp [ho])]
  rcases ho : b.data with _ | o
  · -- without a payload in the log, the cell has none
    have hnone := hd ho
    have hidx : b.idx = .hshEnd := by simpa [Packed.Coherent, ho] using hb
    have hcell := h.packed c
    simp only [Packed.Coherent, pack, hnone, Option.map_none, Option.getD_none] at hcell
    rw [unpackMx_snd, ho]
    exact h.replace (by rw [Cell.withPacked_idx, hidx, hcell]) rfl (fun id hid => hh id (h.ptrs c id hid)) rfl hh
  · have hne := hi (by simp [ho])
    obtain ⟨h1, h2⟩ := data_unpackMx_some (s := s) (c := c) ho hne
    refine h.withObj (c := c) (o := o) (fun c' he => cell_unpackMx_of_ne s b he) (fun d hd' => deref_unpackMx_of_ne s b hd')
      ⟨_, h1, h2⟩ ?_ (gens_unpackMx s c c b) ?_ (ptrs_unpackMx s c c b) (roll_unpackMx s c b) (db_unpackMx s c b)
    · rw [idx_unpackMx]
      simpa [Packed.Coherent, ho] using hb
    · rw [hashes_unpackMx]
      exact hh

theorem Coherent.unpackAll (h : s.Coherent) {l : List (CellPtr × Packed)} (hl : (l.map (·.1)).Nodup)
    (hb : ∀ e ∈ l, e.2.Coherent) (hu : ∀ e ∈ l, (∀ id ∈ (s.cell e.1).hashes, id ∈ e.2.hashes) ∧
      (e.2.data = none → (s.cell e.1).data = none)) :
    (Store.unpackAll l s).1 = .ok () ∧ Leads s (Store.unpackAll l s).2 := by
  induction l generalizing s with
  | nil => exact ⟨rfl, .refl h⟩
  | cons e l ih =>
    obtain ⟨c, b⟩ := e
    obtain ⟨hc, hl⟩ := List.nodup_cons.1 hl
    obtain ⟨h1, h2⟩ := hu (c, b) List.mem_cons_self
    obtain ⟨h3, h4⟩ := h.unpackMx (hb (c, b) List.mem_cons_self) h1 h2
    -- the entries that are left are of other cells
    have hrest : ∀ e ∈ l, (s.unpackMx c b).2.cell e.1 = s.cell e.1 := by
      intro e he
      refine cell_unpackMx_of_ne s b fun heq => hc ?_
      exact List.mem_map.2 ⟨e, he, heq⟩
    obtain ⟨h5, h6⟩ := ih h4.coherent hl (fun e he => hb e (List.mem_cons_of_mem _ he)) fun e he => by
      rw [hrest e he]
      exact hu e (List.mem_cons_of_mem _ he)
    unfold Store.unpackAll
    split
    · rename_i t he
      rw [he] at h4 h5 h6
      exact ⟨h5, h4.trans h6⟩
    · rename_i x t he
      rw [he] at h3
      cases h3

/-- The rollback of a transaction that has made nothing. -/
theorem Coherent.rollback (h : s.Coherent) (hu : Undone s) : (Store.rollback s).1 = .ok () ∧ Leads s (Store.rollback s).2 :=
  h.unpackAll h.once h.logged fun e he => hu e.1 e.2 he

/-- Without its log. -/
theorem Coherent.clearRoll (h : s.Coherent) : Leads s { s with roll := [] } :=
  ⟨⟨h.packed, h.ptrs, fun e he => (by simp at he), List.nodup_nil, h.db⟩, fun _ hp => hp⟩

/-! ## Writing to the database -/

/-- What is in memory stays, what is not is read from the database after the write. -/
theorem Coherent.writeGranulesBatch (h : s.Coherent) {d : DbToSave} (hd : d.Coherent) : (s.writeGranulesBatch d).Coherent := by
  have hdb : ∀ (p : Path) (b : Packed), (s.writeGranulesBatch d).db[p]? = some b → b.Coherent := by
    intro p b hb
    rcases getElem?_foldl_insert hb with ⟨q, hq, rfl⟩ | hb
    · exact hd q b (Std.ExtTreeMap.mem_toList_iff_getElem?_eq_some.1 hq)
    · exact h.db p b (getElem?_foldl_erase hb)
  have hcell : ∀ c, (s.writeGranulesBatch d).cell c =
      if s.inMemory c then s.cell c else ((s.writeGranulesBatch d).granule c).toCell := by
    intro c
    unfold Store.cell
    by_cases hm : s.inMemory c
    · simp only [Store.writeGranulesBatch, hm, if_true, Option.getD_some]
      rfl
    · simp [Store.writeGranulesBatch, hm]
  refine ⟨fun c => ?_, fun c id hid => ?_, h.logged, h.once, hdb⟩
  · have hc := h.packed c
    unfold Packed.Coherent pack at hc ⊢
    rw [hcell]
    by_cases hm : s.inMemory c
    · have hderef : ∀ g, (s.writeGranulesBatch d).deref ⟨g, c⟩ = s.deref ⟨g, c⟩ := by
        intro g
        unfold Store.deref
        simp only [Store.writeGranulesBatch, hm, if_true, Option.getD_some]
        rfl
      simpa [hm, hderef] using hc
    · have hobj : s.obj ⟨0, c⟩ = none := by
        simp only [Store.inMemory, Bool.or_eq_true, not_or, Bool.not_eq_true, Option.isSome_eq_false_iff, Option.isNone_iff_eq_none]
          at hm
        exact hm.2
      have hgr : ((s.writeGranulesBatch d).granule c).Coherent := by
        unfold Store.granule
        rcases hb : (s.writeGranulesBatch d).db[getDbId c]? with _ | b
        · rfl
        · exact hdb _ b hb
      unfold Packed.Coherent at hgr
      rcases ho : ((s.writeGranulesBatch d).granule c).data with _ | o
      · simpa [hm, Packed.toCell, ho] using hgr
      · have hderef : (s.writeGranulesBatch d).deref ⟨0, c⟩ = o := by
          unfold Store.deref
          simp [ho, show (s.writeGranulesBatch d).obj ⟨0, c⟩ = none by simp [Store.writeGranulesBatch, hm, hobj]]
        simpa [hm, Packed.toCell, ho, hderef] using hgr
  · rw [hcell] at hid ⊢
    by_cases hm : s.inMemory c
    · simp only [hm, if_true] at hid ⊢
      exact h.ptrs c id hid
    · simp [hm, Packed.toCell] at hid

end Store

end Grain
