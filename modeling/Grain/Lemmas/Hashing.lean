import Grain.Lemmas.Marking

/-!
# What `calc_tree_hash` leaves

`calc_tree_hash` goes down from a marked cell into the marked children alone. In a tree that is marked as it has to be, that
leaves no mark and every recorded hash that of the child's content (`calcTreeHash_hashed`).
-/

namespace Grain

namespace Store

variable {s t u : Store}

/-- No cell at or below the given one is marked, and the hashes recorded there are those of the children's content. -/
def Hashed (s : Store) (x : CellPtr) : Prop :=
  ∀ c, x <:+ c → InTree s c →
    (s.cell c).dirty = false ∧ ∀ id h, (s.cell c).hashes[id]? = some h → h = (s.pack (s.child c id)).hash

/-- The second store differs at and below the given cell alone, and there in marks and in the values of hashes. -/
structure Rehashed (s t : Store) (x : CellPtr) : Prop where
  gens : ∀ c, (t.cell c).gens = (s.cell c).gens
  ptrs : ∀ c, (t.cell c).ptrs = (s.cell c).ptrs
  idx : ∀ c, (t.cell c).idx = (s.cell c).idx
  data : ∀ c, (t.cell c).data = (s.cell c).data
  keys : ∀ c id, id ∈ (t.cell c).hashes ↔ id ∈ (s.cell c).hashes
  unloaded : ∀ c id, id ∉ (s.cell c).ptrs → (t.cell c).hashes[id]? = (s.cell c).hashes[id]?
  off : ∀ c, ¬ x <:+ c → t.cell c = s.cell c
  deref : t.deref = s.deref
  db : t.db = s.db

namespace Rehashed

variable {x y : CellPtr}

theorem refl (s : Store) (x : CellPtr) : Rehashed s s x :=
  ⟨fun _ => rfl, fun _ => rfl, fun _ => rfl, fun _ => rfl, fun _ _ => Iff.rfl, fun _ _ _ => rfl, fun _ _ => rfl, rfl, rfl⟩

theorem trans (h : Rehashed s t x) (h' : Rehashed t u x) : Rehashed s u x where
  gens c := (h'.gens c).trans (h.gens c)
  ptrs c := (h'.ptrs c).trans (h.ptrs c)
  idx c := (h'.idx c).trans (h.idx c)
  data c := (h'.data c).trans (h.data c)
  keys c id := (h'.keys c id).trans (h.keys c id)
  unloaded c id hid := (h'.unloaded c id (by rwa [h.ptrs])).trans (h.unloaded c id hid)
  off c hc := (h'.off c hc).trans (h.off c hc)
  deref := h'.deref.trans h.deref
  db := h'.db.trans h.db

theorem above (h : Rehashed s t x) (hy : y <:+ x) : Rehashed s t y :=
  { h with off := fun c hc => h.off c fun hx => hc (hy.trans hx) }

theorem child (h : Rehashed s t x) (c : CellPtr) (id : Nat) : t.child c id = s.child c id := by
  rw [Store.child, Cell.gen, h.gens, ← Cell.gen, ← Store.child]

theorem live (h : Rehashed s t x) (c : CellPtr) : InTree t c ↔ InTree s c := by
  unfold InTree Cell.gen
  simp only [h.gens, h.keys]

/-- Cells that are elsewhere are packed as before. -/
theorem pack (h : Rehashed s t x) {c : CellPtr} (hc : t.cell c = s.cell c) : t.pack c = s.pack c := by
  unfold Store.pack
  rw [hc, h.deref]

/-- What is known of the cells below another one, which are as before. -/
theorem settled (h : Rehashed s t x) {p : CellPtr} (hp : ∀ c, p <:+ c → t.cell c = s.cell c) (hs : Hashed s p) : Hashed t p := by
  intro c hc hl
  obtain ⟨h1, h2⟩ := hs c hc ((h.live c).1 hl)
  rw [hp c hc]
  refine ⟨h1, fun id h' hh => ?_⟩
  have hq : p <:+ s.child c id := hc.trans (List.suffix_cons _ _)
  rw [h.child, h.pack (hp _ hq)]
  exact h2 id h' hh

theorem markedBelow (h : Rehashed s t x) {p : CellPtr} (hp : ∀ c, p <:+ c → t.cell c = s.cell c) (hs : MarkedBelow s p) :
    MarkedBelow t p := by
  intro c id h' hc hl hh
  rw [hp c hc] at hh
  have hq : p <:+ s.child c id := hc.trans (List.suffix_cons _ _)
  have he := hs c id h' hc ((h.live c).1 hl) hh
  unfold Edge at he ⊢
  rwa [h.child, h.pack (hp _ hq), hp _ hq, hp c hc]

end Rehashed

/-- Another hash for a child in memory. -/
theorem rehashed_withHash {c : CellPtr} {id : Nat} (hid : id ∈ (s.cell c).hashes) (hp : id ∈ (s.cell c).ptrs) (h : Hash) :
    Rehashed s (s.setCell c ((s.cell c).withHash id h)) c := by
  refine ⟨fun q => ?_, fun q => ?_, fun q => ?_, fun q => ?_, fun q i => ?_, fun q i hi => ?_, fun q hq => ?_, rfl, rfl⟩
  · by_cases he : q = c <;> simp [he]
  · by_cases he : q = c <;> simp [he]
  · by_cases he : q = c <;> simp [he]
  · by_cases he : q = c <;> simp [he]
  · by_cases he : q = c
    · subst he
      simp only [cell_setCell, if_true, Cell.withHash_hashes, StdMap.mem_insert]
      exact ⟨fun hi => hi.elim (fun he => he ▸ hid) fun hi => hi, .inr⟩
    · simp [he]
  · by_cases he : q = c
    · subst he
      have hne : id ≠ i := fun he => hi (he ▸ hp)
      simp [StdMap.getElem?_insert, hne]
    · simp [he]
  · rw [cell_setCell, if_neg]
    rintro rfl
    exact hq (List.suffix_refl _)

theorem rehashed_withDirty (s : Store) (c : CellPtr) (b : Bool) : Rehashed s (s.setCell c ((s.cell c).withDirty b)) c := by
  refine ⟨fun q => ?_, fun q => ?_, fun q => ?_, fun q => ?_, fun q i => ?_, fun q i _ => ?_, fun q hq => ?_, rfl, rfl⟩
  · by_cases he : q = c <;> simp [he]
  · by_cases he : q = c <;> simp [he]
  · by_cases he : q = c <;> simp [he]
  · by_cases he : q = c <;> simp [he]
  · by_cases he : q = c <;> simp [he]
  · by_cases he : q = c <;> simp [he]
  · rw [cell_setCell, if_neg]
    rintro rfl
    exact hq (List.suffix_refl _)

/-- Below a cell that is not marked nothing is. -/
theorem MarkedBelow.settled {x : CellPtr} (h : MarkedBelow s x) (hd : (s.cell x).dirty = false) : Hashed s x := by
  have hclean : ∀ c, x <:+ c → InTree s c → (s.cell c).dirty = false := by
    rintro _ ⟨l, rfl⟩ hl
    induction l with
    | nil => exact hd
    | cons y l ih =>
      obtain ⟨n, id⟩ := y
      rw [List.cons_append] at hl ⊢
      obtain ⟨hl', -, hid⟩ := inTree_cons.1 hl
      obtain ⟨h', hh⟩ := (StdMap.mem_iff _ _).1 hid
      have he := h (l ++ x) id h' (List.suffix_append l x) hl' hh
      rw [hl.eq_child]
      rcases he with ⟨-, h2, -⟩ | ⟨h1, -⟩
      · rw [ih hl'] at h2
        cases h2
      · exact h1
  intro c hc hl
  refine ⟨hclean c hc hl, fun id h' hh => ?_⟩
  rcases h c id h' hc hl hh with ⟨-, h2, -⟩ | ⟨-, h2⟩
  · rw [hclean c hc hl] at h2
    cases h2
  · exact h2

/-- In a tree without marks where the hashes are right, everything is marked as it has to be. -/
theorem Hashed.marked (h : Hashed s []) : Marked s := by
  intro c id h' _ hl hh
  have hid : id ∈ (s.cell c).hashes := (StdMap.mem_iff _ _).2 ⟨h', hh⟩
  exact .inr ⟨(h _ List.nil_suffix (hl.child hid)).1, (h c List.nil_suffix hl).2 id h' hh⟩

/-! ## The loop over the children -/

/-- Two children of one cell have nothing below them in common. -/
theorem not_suffix_of_ne {c q : CellPtr} {id id' : Nat} (hne : id ≠ id') (hq : s.child c id <:+ q) : ¬ s.child c id' <:+ q := by
  intro hq'
  have heq := List.suffix_of_suffix_length_le hq hq' (by simp [child]) |>.eq_of_length (by simp [child])
  simp only [child, List.cons.injEq, Prod.mk.injEq] at heq
  exact hne heq.1.2

theorem ne_of_child_suffix {c q : CellPtr} {id : Nat} (hq : s.child c id <:+ q) : q ≠ c := by
  rintro rfl
  have := hq.length_le
  simp [child] at this

/-- The state of the loop with the children `l` to come: those are marked as they have to be, the others are settled. -/
def Looping (s : Store) (c : CellPtr) (l : List Nat) : Prop :=
  ∀ id h, (s.cell c).hashes[id]? = some h →
    (id ∈ l ∧ MarkedBelow s (s.child c id) ∧ Edge s c id h True) ∨
      (id ∉ l ∧ Hashed s (s.child c id) ∧ h = (s.pack (s.child c id)).hash)

/-- Recording the hash of a child that is settled. -/
theorem Looping.record {c : CellPtr} {id : Nat} {l : List Nat} (h : Looping s c (id :: l)) (hl : id ∉ l)
    (hr : Rehashed s t (s.child c id)) (hs : Hashed t (s.child c id)) (hu : Rehashed t u c)
    (hcell : ∀ q, q ≠ c → u.cell q = t.cell q) (hid : (u.cell c).hashes[id]? = some (t.pack (s.child c id)).hash)
    (hother : ∀ id', id' ≠ id → (u.cell c).hashes[id']? = (t.cell c).hashes[id']?) : Looping u c l := by
  have hbelow : ∀ id' q, s.child c id' <:+ q → u.cell q = t.cell q := fun id' q hq => hcell q (ne_of_child_suffix hq)
  intro id' h' hh
  rw [hu.child, hr.child]
  have hpack : u.pack (s.child c id') = t.pack (s.child c id') := hu.pack (hbelow id' _ (List.suffix_refl _))
  by_cases he : id' = id
  · subst he
    rw [hid] at hh
    cases hh
    exact .inr ⟨hl, hu.settled (hbelow id') hs, by rw [hpack]⟩
  -- another child is as it was
  have hsame : ∀ q, s.child c id' <:+ q → t.cell q = s.cell q := fun q hq => hr.off q (not_suffix_of_ne he hq)
  have hall : ∀ q, s.child c id' <:+ q → u.cell q = s.cell q := fun q hq => (hbelow id' q hq).trans (hsame q hq)
  have hc : t.cell c = s.cell c := hr.off c fun hq => ne_of_child_suffix hq rfl
  have hpack' : u.pack (s.child c id') = s.pack (s.child c id') := hpack.trans (hr.pack (hsame _ (List.suffix_refl _)))
  rw [hother id' he, hc] at hh
  have hm : MarkedBelow s (s.child c id') → MarkedBelow u (s.child c id') :=
    fun hm => hu.markedBelow (hbelow id') (hr.markedBelow hsame hm)
  have hst : Hashed s (s.child c id') → Hashed u (s.child c id') := fun hs => hu.settled (hbelow id') (hr.settled hsame hs)
  rcases h id' h' hh with ⟨h1, h2, h3⟩ | ⟨h1, h2, h3⟩
  · refine .inl ⟨(List.mem_cons.1 h1).resolve_left he, hm h2, ?_⟩
    unfold Edge at h3 ⊢
    rw [hu.child, hr.child, hall _ (List.suffix_refl _), hpack', hu.ptrs, hr.ptrs]
    exact h3
  · exact .inr ⟨fun hm => h1 (List.mem_cons_of_mem _ hm), hst h2, by rw [hpack', h3]⟩

/-- A child that is not marked is settled. -/
theorem Looping.skip {c : CellPtr} {id : Nat} {l : List Nat} (h : Looping s c (id :: l)) (hl : id ∉ l)
    (hd : ¬ (s.cell (s.child c id)).dirty = true) : Looping s c l := by
  intro id' h' hh
  rcases h id' h' hh with ⟨h1, h2, h3⟩ | ⟨h1, h2, h3⟩
  · rcases List.mem_cons.1 h1 with rfl | h1
    · rcases h3 with ⟨h3, -⟩ | ⟨h3, h4⟩
      · exact absurd h3 hd
      · exact .inr ⟨hl, h2.settled h3, h4⟩
    · exact .inl ⟨h1, h2, h3⟩
  · exact .inr ⟨fun hm => h1 (List.mem_cons_of_mem _ hm), h2, h3⟩

/-- One turn of the loop, given what the recursive call does. -/
theorem Looping.hashChild {rec : CellPtr → Store × DbToSave → Store × DbToSave} {c : CellPtr} {id : Nat} {l : List Nat}
    {x : Store × DbToSave} (h : Looping x.1 c (id :: l)) (hl : id ∉ l) (hid : id ∈ (x.1.cell c).hashes)
    (hptr : id ∈ (x.1.cell c).ptrs)
    (hrec : MarkedBelow x.1 (x.1.child c id) →
      Rehashed x.1 (rec (x.1.child c id) x).1 (x.1.child c id) ∧ Hashed (rec (x.1.child c id) x).1 (x.1.child c id)) :
    Rehashed x.1 (Store.hashChild rec c x id).1 c ∧ Looping (Store.hashChild rec c x id).1 c l := by
  obtain ⟨h', hh⟩ := (StdMap.mem_iff _ _).1 hid
  unfold Store.hashChild
  dsimp only
  split
  · have hm : MarkedBelow x.1 (x.1.child c id) := by
      rcases h id h' hh with ⟨-, h2, -⟩ | ⟨h1, -⟩
      · exact h2
      · exact absurd List.mem_cons_self h1
    obtain ⟨h1, h2⟩ := hrec hm
    set y := (rec (x.1.child c id) x).1 with hy
    have hc : y.cell c = x.1.cell c := h1.off c fun hq => ne_of_child_suffix hq rfl
    have hmem : id ∈ (y.cell c).hashes := by rwa [hc]
    have hsuf : c <:+ x.1.child c id := List.suffix_cons _ _
    split
    · have hu := rehashed_withHash hmem (h1.ptrs c ▸ hptr) (y.pack (x.1.child c id)).hash
      refine ⟨(h1.above hsuf).trans hu, h.record hl h1 h2 hu (fun q hq => by simp [hq]) (by simp) fun id' hne => ?_⟩
      simp [StdMap.getElem?_insert, hne.symm]
    · rename_i heq
      refine ⟨h1.above hsuf, h.record hl h1 h2 (.refl y c) (fun _ _ => rfl) ?_ fun _ _ => rfl⟩
      obtain ⟨h'', hh'⟩ := (StdMap.mem_iff _ _).1 hmem
      rw [hh'] at heq ⊢
      simpa using (not_not.1 heq).symm
  · rename_i hd
    exact ⟨.refl x.1 c, h.skip hl hd⟩

/-- The loop of `calc_tree_hash`. -/
theorem Looping.fold {rec : CellPtr → Store × DbToSave → Store × DbToSave} {c : CellPtr} {l : List Nat} {x : Store × DbToSave}
    (h : Looping x.1 c l) (hl : l.Nodup) (hid : ∀ id ∈ l, id ∈ (x.1.cell c).hashes ∧ id ∈ (x.1.cell c).ptrs)
    (hrec : ∀ y : Store × DbToSave, Rehashed x.1 y.1 c → ∀ id ∈ l, MarkedBelow y.1 (y.1.child c id) →
      Rehashed y.1 (rec (y.1.child c id) y).1 (y.1.child c id) ∧ Hashed (rec (y.1.child c id) y).1 (y.1.child c id)) :
    Rehashed x.1 (l.foldl (Store.hashChild rec c) x).1 c ∧ Looping (l.foldl (Store.hashChild rec c) x).1 c [] := by
  induction l generalizing x with
  | nil => exact ⟨.refl x.1 c, h⟩
  | cons id l ih =>
    obtain ⟨hnot, hl⟩ := List.nodup_cons.1 hl
    obtain ⟨hhash, hptr⟩ := hid id List.mem_cons_self
    obtain ⟨h1, h2⟩ := h.hashChild hnot hhash hptr (hrec x (.refl x.1 c) id List.mem_cons_self)
    have hrest : ∀ i ∈ l, i ∈ ((Store.hashChild rec c x id).1.cell c).hashes ∧
        i ∈ ((Store.hashChild rec c x id).1.cell c).ptrs := by
      intro i hi
      obtain ⟨h3, h4⟩ := hid i (List.mem_cons_of_mem _ hi)
      exact ⟨(h1.keys c i).2 h3, by rwa [h1.ptrs]⟩
    obtain ⟨h3, h4⟩ := ih h2 hl hrest
      fun y hy i hi => hrec y (h1.trans hy) i (List.mem_cons_of_mem _ hi)
    exact ⟨h1.trans h3, h4⟩

/-! ## The function -/

theorem toList_nodup (m : StdSet Nat) : m.toList.Nodup := by
  refine m.distinct_toList.imp fun {a b} h he => ?_
  subst he
  exact h Std.ReflCmp.compare_self

/-- `calc_tree_hash` of a marked tree that is no deeper than its levels. -/
theorem calcTreeHash_hashed (n : Nat) (c : CellPtr) (x : Store × DbToSave) (hl : InTree x.1 c) (hm : MarkedBelow x.1 c)
    (hdeep : ∀ p, InTree x.1 p → p.length < c.length + n) (hp : ∀ p id, id ∈ (x.1.cell p).ptrs → id ∈ (x.1.cell p).hashes) :
    Rehashed x.1 (Store.calcTreeHash n c x).1 c ∧ Hashed (Store.calcTreeHash n c x).1 c := by
  induction n generalizing c x with
  | zero => exact absurd (hdeep c hl) (by simp)
  | succ n ih =>
    unfold Store.calcTreeHash
    split
    · have hstart : Looping x.1 c (x.1.cell c).ptrs.toList := by
        intro id h hh
        have hbelow : MarkedBelow x.1 (x.1.child c id) := fun p i h' hp' hlp hh' =>
          hm p i h' ((List.suffix_cons _ _).trans hp') hlp hh'
        have he := hm c id h (List.suffix_refl _) hl hh
        by_cases hid : id ∈ (x.1.cell c).ptrs
        · refine .inl ⟨by simpa using hid, hbelow, ?_⟩
          rcases he with ⟨h1, -, h3⟩ | h1
          · exact .inl ⟨h1, trivial, h3⟩
          · exact .inr h1
        · rcases he with ⟨-, -, h3⟩ | ⟨h1, h2⟩
          · exact absurd h3 hid
          · exact .inr ⟨by simpa using hid, hbelow.settled h1, h2⟩
      have hrec : ∀ y : Store × DbToSave, Rehashed x.1 y.1 c → ∀ id ∈ (x.1.cell c).ptrs.toList, MarkedBelow y.1 (y.1.child c id) →
          Rehashed y.1 (Store.calcTreeHash n (y.1.child c id) y).1 (y.1.child c id) ∧
            Hashed (Store.calcTreeHash n (y.1.child c id) y).1 (y.1.child c id) := by
        intro y hy id hid hmy
        have hmem : id ∈ (x.1.cell c).hashes := hp c id (by simpa using hid)
        refine ih (y.1.child c id) y (((hy.live c).2 hl).child ((hy.keys c id).2 hmem)) hmy (fun p hlp => ?_) fun p i hi => ?_
        · have := hdeep p ((hy.live p).1 hlp)
          simp only [child, List.length_cons]
          omega
        · rw [hy.ptrs] at hi
          exact (hy.keys p i).2 (hp p i hi)
      obtain ⟨h1, h2⟩ := hstart.fold (toList_nodup _) (fun id hid => ⟨hp c id (by simpa using hid), by simpa using hid⟩) hrec
      set z := ((x.1.cell c).ptrs.toList.foldl (Store.hashChild (Store.calcTreeHash n) c) x).1 with hz
      have h3 := rehashed_withDirty z c false
      refine ⟨h1.trans h3, fun q hq hlq => ?_⟩
      have hsub : ∀ id h, (z.cell c).hashes[id]? = some h → Hashed z (z.child c id) ∧ h = (z.pack (z.child c id)).hash := by
        intro id h hh
        rcases h2 id h hh with ⟨hn, -⟩ | ⟨-, h4, h5⟩
        · exact absurd hn List.not_mem_nil
        · exact ⟨h4, h5⟩
      have hcell : ∀ p, p ≠ c → (z.setCell c ((z.cell c).withDirty false)).cell p = z.cell p := fun p hp' => by simp [hp']
      by_cases he : q = c
      · subst he
        refine ⟨by simp, fun id h hh => ?_⟩
        have hne : z.child q id ≠ q := child_ne_self z q id
        rw [h3.child, h3.pack (hcell _ hne)]
        exact (hsub id h (by simpa using hh)).2
      · -- below the cell, one of its children is on the way
        obtain ⟨l, rfl⟩ := hq
        rcases List.eq_nil_or_concat' l with rfl | ⟨l, y, rfl⟩
        · exact absurd rfl he
        obtain ⟨m, id⟩ := y
        have hlz : InTree z (l ++ [(m, id)] ++ c) := (h3.live _).1 hlq
        have hsuf : (m, id) :: c <:+ l ++ [(m, id)] ++ c := ⟨l, by simp⟩
        have hchild := (hlz.suffix hsuf).eq_child
        obtain ⟨h, hh⟩ := (StdMap.mem_iff _ _).1 (hlz m id c hsuf).2
        have hset := h3.settled (p := z.child c id) (fun p hp' => hcell p (ne_of_child_suffix hp')) (hsub id h hh).1
        exact hset _ (hchild ▸ hsuf) hlq
    · rename_i hd
      exact ⟨.refl x.1 c, hm.settled (by simpa using hd)⟩

end Store

end Grain
