import Grain.Reader

/-!
# Reading a tree

A lookup in a tree that is only read loads cells and changes none. What it found is found again, whatever has become of the
database (`Held`); and lookups that come before it do not change what it finds (`Reads`).
-/

namespace Grain

namespace ReadTree

variable {db : StdMap Path Packed} {r r' : ReadTree} {p q : Path} {id : Nat}

/-! ## Trees grow -/

/-- Every cell in memory is still there. -/
def Grows (r r' : ReadTree) : Prop := ∀ p b, r.cells p = some b → r'.cells p = some b

theorem Grows.refl (r : ReadTree) : r.Grows r := fun _ _ h => h

theorem Grows.trans {r₁ r₂ r₃ : ReadTree} (h : r₁.Grows r₂) (h' : r₂.Grows r₃) : r₁.Grows r₃ :=
  fun p b hp => h' p b (h p b hp)

theorem Grows.isSome (h : r.Grows r') (hp : (r.cells p).isSome) : (r'.cells p).isSome := by
  obtain ⟨b, hb⟩ := Option.isSome_iff_exists.1 hp
  rw [h p b hb]
  rfl

theorem Grows.cell (h : r.Grows r') (hp : (r.cells p).isSome) : r'.cell p = r.cell p := by
  obtain ⟨b, hb⟩ := Option.isSome_iff_exists.1 hp
  unfold ReadTree.cell
  rw [h p b hb, hb]

@[simp] theorem insert_cells_self (r : ReadTree) (p : Path) (b : Packed) : (r.insert p b).cells p = some b := if_pos rfl

theorem insert_cells_of_ne {b : Packed} (h : q ≠ p) : (r.insert p b).cells q = r.cells q := if_neg h

theorem grows_insert {b : Packed} (h : r.cells p = none) : r.Grows (r.insert p b) := by
  intro q c hq
  by_cases hqp : q = p
  · subst hqp
    rw [h] at hq
    nomatch hq
  · rw [insert_cells_of_ne hqp]
    exact hq

/-- What a step down does: nothing, or it enters the child, which was not there. -/
theorem replaceLeafNoCreate_cases (db : StdMap Path Packed) (r : ReadTree) (p : Path) (id : Nat) :
    ((r.cells (p ++ [id])).isSome ∧ r.replaceLeafNoCreate db p id = (.ok (some (p ++ [id])), r)) ∨
    (r.cells (p ++ [id]) = none ∧ ∃ b, r.replaceLeafNoCreate db p id = (.ok (some (p ++ [id])), r.insert (p ++ [id]) b)) ∨
    (r.cells (p ++ [id]) = none ∧ ((r.replaceLeafNoCreate db p id).1 = .ok none ∨
      ∃ e, (r.replaceLeafNoCreate db p id).1 = .error e) ∧ (r.replaceLeafNoCreate db p id).2 = r) := by
  unfold replaceLeafNoCreate
  split
  · rename_i h
    exact .inl ⟨h, rfl⟩
  · rename_i h
    have hn : r.cells (p ++ [id]) = none := by simpa using h
    split
    · exact .inr (.inr ⟨hn, .inl rfl, rfl⟩)
    · split
      · exact .inr (.inl ⟨hn, _, rfl⟩)
      · split
        · split
          · exact .inr (.inl ⟨hn, _, rfl⟩)
          · exact .inr (.inr ⟨hn, .inr ⟨_, rfl⟩, rfl⟩)
        · exact .inr (.inr ⟨hn, .inr ⟨_, rfl⟩, rfl⟩)

theorem grows_replaceLeafNoCreate (db : StdMap Path Packed) (r : ReadTree) (p : Path) (id : Nat) :
    r.Grows (r.replaceLeafNoCreate db p id).2 := by
  rcases replaceLeafNoCreate_cases db r p id with ⟨-, h⟩ | ⟨hn, b, h⟩ | ⟨-, -, h⟩
  · rw [h]
    exact .refl r
  · rw [h]
    exact grows_insert hn
  · rw [h]
    exact .refl r

/-- A step down that ends at a cell ends at the child, and the child is in memory. -/
theorem replaceLeafNoCreate_some (h : (r.replaceLeafNoCreate db p id).1 = .ok (some q)) :
    q = p ++ [id] ∧ ((r.replaceLeafNoCreate db p id).2.cells (p ++ [id])).isSome := by
  rcases replaceLeafNoCreate_cases db r p id with ⟨hs, he⟩ | ⟨-, b, he⟩ | ⟨-, he | ⟨e, he⟩, -⟩
  · rw [he] at h ⊢
    exact ⟨(Option.some.inj (Except.ok.inj h)).symm, hs⟩
  · rw [he] at h ⊢
    refine ⟨(Option.some.inj (Except.ok.inj h)).symm, ?_⟩
    rw [insert_cells_self]
    rfl
  · rw [he] at h
    nomatch h
  · rw [he] at h
    nomatch h

/-! ## What was found is found again -/

/-- The cells from below `p` down along the identifiers are in memory. -/
def Held (r : ReadTree) : (ids p : Path) → Prop
  | [], _ => True
  | id :: ids, p => (r.cells (p ++ [id])).isSome ∧ r.Held ids (p ++ [id])

theorem Held.grows (h : r.Grows r') {ids : Path} (hh : r.Held ids p) : r'.Held ids p := by
  induction ids generalizing p with
  | nil => trivial
  | cons id ids ih => exact ⟨h.isSome hh.1, ih hh.2⟩

/-- The last of the cells. -/
theorem Held.last {ids : Path} (hh : r.Held ids p) (hp : (r.cells p).isSome) : (r.cells (p ++ ids)).isSome := by
  induction ids generalizing p with
  | nil =>
    rw [List.append_nil]
    exact hp
  | cons id ids ih =>
    have := ih hh.2 hh.1
    rwa [List.append_assoc] at this

/-- A lookup along cells in memory does not ask the database. -/
theorem getByPathNoCreate_of_held {ids : Path} (hh : r.Held ids p) (db : StdMap Path Packed) :
    getByPathNoCreate db ids p r = (.ok (some (p ++ ids)), r) := by
  induction ids generalizing p with
  | nil => rw [List.append_nil]; rfl
  | cons id ids ih =>
    have h1 : r.replaceLeafNoCreate db p id = (.ok (some (p ++ [id])), r) := if_pos hh.1
    unfold getByPathNoCreate
    rw [h1]
    change getByPathNoCreate db ids (p ++ [id]) r = _
    rw [ih hh.2, List.append_assoc]
    rfl

theorem grows_getByPathNoCreate (db : StdMap Path Packed) (ids p : Path) (r : ReadTree) :
    r.Grows (getByPathNoCreate db ids p r).2 := by
  induction ids generalizing p r with
  | nil => exact .refl r
  | cons id ids ih =>
    have hg := grows_replaceLeafNoCreate db r p id
    unfold getByPathNoCreate
    split
    · rename_i q r' h
      rw [h] at hg
      exact hg.trans (ih q r')
    · rename_i r' h
      rw [h] at hg
      exact hg
    · rename_i e r' h
      rw [h] at hg
      exact hg

/-- A lookup that finds a cell leaves the cells on the way in memory. -/
theorem held_of_getByPathNoCreate {ids : Path} (h : (getByPathNoCreate db ids p r).1 = .ok (some q)) :
    (getByPathNoCreate db ids p r).2.Held ids p ∧ q = p ++ ids := by
  induction ids generalizing p r with
  | nil =>
    rw [List.append_nil]
    exact ⟨trivial, (Option.some.inj (Except.ok.inj h)).symm⟩
  | cons id ids ih =>
    unfold getByPathNoCreate at h ⊢
    split at h
    · rename_i z r' hz
      have hs := replaceLeafNoCreate_some (show (r.replaceLeafNoCreate db p id).1 = .ok (some z) by rw [hz])
      rw [hz] at hs
      obtain ⟨rfl, hs⟩ := hs
      obtain ⟨hh, hq⟩ := ih h
      refine ⟨⟨(grows_getByPathNoCreate db ids _ r').isSome hs, hh⟩, ?_⟩
      rw [hq, List.append_assoc]
      rfl
    · nomatch h
    · nomatch h

/-! ## Earlier lookups change nothing -/

/-- A step down from a cell in memory enters the child in the tree. -/
structure Loads (db : StdMap Path Packed) (r : ReadTree) (p : Path) (id : Nat) (b : Packed) : Prop where
  parent : (r.cells p).isSome
  absent : r.cells (p ++ [id]) = none
  loads : r.replaceLeafNoCreate db p id = (.ok (some (p ++ [id])), r.insert (p ++ [id]) b)

/-- A step down looks at two cells only. -/
theorem replaceLeafNoCreate_congr (db : StdMap Path Packed) (hc : r'.cells (p ++ [id]) = r.cells (p ++ [id])) (hp : r'.cell p = r.cell p) :
    (r'.replaceLeafNoCreate db p id).1 = (r.replaceLeafNoCreate db p id).1 ∧
    ((r.replaceLeafNoCreate db p id).2 = r ∧ (r'.replaceLeafNoCreate db p id).2 = r' ∨
      r.cells (p ++ [id]) = none ∧ ∃ b, (r.replaceLeafNoCreate db p id).2 = r.insert (p ++ [id]) b ∧
        (r'.replaceLeafNoCreate db p id).2 = r'.insert (p ++ [id]) b) := by
  unfold replaceLeafNoCreate
  rw [hc, hp]
  split
  · exact ⟨rfl, .inl ⟨rfl, rfl⟩⟩
  · rename_i h
    have hn : r.cells (p ++ [id]) = none := by simpa using h
    split
    · exact ⟨rfl, .inl ⟨rfl, rfl⟩⟩
    · split
      · exact ⟨rfl, .inr ⟨hn, _, rfl, rfl⟩⟩
      · split
        · split
          · exact ⟨rfl, .inr ⟨hn, _, rfl, rfl⟩⟩
          · exact ⟨rfl, .inl ⟨rfl, rfl⟩⟩
        · exact ⟨rfl, .inl ⟨rfl, rfl⟩⟩

theorem insert_comm {a c : Packed} (h : p ≠ q) : (r.insert p a).insert q c = (r.insert q c).insert p a := by
  unfold insert
  congr 1
  funext z
  by_cases hz : z = q
  · subst hz
    simp [Ne.symm h]
  · simp [hz]

/-- Another load of the same tree is still to come, unless it was the same. -/
theorem Loads.insert {b c : Packed} (h : Loads db r p id b) (hne : q ≠ p ++ [id]) (hq : r.cells q = none) :
    Loads db (r.insert q c) p id b := by
  have hg : r.Grows (r.insert q c) := grows_insert hq
  have habs : (r.insert q c).cells (p ++ [id]) = r.cells (p ++ [id]) := insert_cells_of_ne (Ne.symm hne)
  refine ⟨hg.isSome h.parent, habs.trans h.absent, ?_⟩
  obtain ⟨h1, h2⟩ := replaceLeafNoCreate_congr db habs (hg.cell h.parent)
  rw [h.loads] at h1 h2
  rcases h2 with ⟨h2, -⟩ | ⟨-, b', h2, h3⟩
  · exfalso
    have := congrArg (fun t : ReadTree => t.cells (p ++ [id])) h2
    simp [h.absent] at this
  · have hb := congrArg (fun t : ReadTree => t.cells (p ++ [id])) h2
    simp only [insert_cells_self, Option.some.injEq] at hb
    subst hb
    exact Prod.ext h1 h3

/-- A lookup finds the same after a load as before it. -/
theorem getByPathNoCreate_after {b : Packed} (ids : Path) (hl : Loads db r p id b) (hq : (r.cells q).isSome) :
    (getByPathNoCreate db ids q (r.insert (p ++ [id]) b)).1 = (getByPathNoCreate db ids q r).1 ∧
    ∀ z, (getByPathNoCreate db ids q r).1 = .ok (some z) →
      (getByPathNoCreate db ids q (r.insert (p ++ [id]) b)).2.cell z = (getByPathNoCreate db ids q r).2.cell z := by
  induction ids generalizing q r with
  | nil =>
    refine ⟨rfl, ?_⟩
    intro z hz
    obtain rfl : q = z := Option.some.inj (Except.ok.inj hz)
    exact (grows_insert hl.absent).cell hq
  | cons j ids ih =>
    have hg : r.Grows (r.insert (p ++ [id]) b) := grows_insert hl.absent
    by_cases hx : q ++ [j] = p ++ [id]
    · -- the step is the load itself: afterwards the trees are equal
      obtain ⟨rfl, hj⟩ := List.append_inj' hx rfl
      obtain rfl : j = id := List.head_eq_of_cons_eq hj
      have h' : (r.insert (q ++ [j]) b).replaceLeafNoCreate db q j = (.ok (some (q ++ [j])), r.insert (q ++ [j]) b) :=
        if_pos (by rw [insert_cells_self]; rfl)
      unfold getByPathNoCreate
      rw [h', hl.loads]
      exact ⟨rfl, fun z _ => rfl⟩
    · obtain ⟨h1, h2⟩ := replaceLeafNoCreate_congr db (insert_cells_of_ne hx) (hg.cell hq)
      unfold getByPathNoCreate
      rcases hr : (r.replaceLeafNoCreate db q j) with ⟨x, t⟩
      rcases hr' : ((r.insert (p ++ [id]) b).replaceLeafNoCreate db q j) with ⟨x', t'⟩
      rw [hr, hr'] at h1 h2
      obtain rfl : x' = x := h1
      match x' with
      | .error e => exact ⟨rfl, fun z hz => nomatch hz⟩
      | .ok none => exact ⟨rfl, fun z hz => nomatch hz⟩
      | .ok (some y) =>
        have hy := replaceLeafNoCreate_some (show (r.replaceLeafNoCreate db q j).1 = .ok (some y) by rw [hr])
        rw [hr] at hy
        obtain ⟨rfl, hy⟩ := hy
        rcases h2 with ⟨rfl, rfl⟩ | ⟨hn, c, rfl, rfl⟩
        · exact ih hl hy
        · have hab := insert_comm (r := r) (a := b) (c := c) (Ne.symm hx)
          rw [hab]
          exact ih (hl.insert hx hn) hy

/-- A tree after some steps down from cells in memory. -/
inductive Reads (db : StdMap Path Packed) : ReadTree → ReadTree → Prop
  | refl (r : ReadTree) : Reads db r r
  | step {r r' : ReadTree} {p : Path} {id : Nat} (hp : (r.cells p).isSome)
      (h : Reads db (r.replaceLeafNoCreate db p id).2 r') : Reads db r r'

theorem Reads.trans {r₁ r₂ r₃ : ReadTree} (h : Reads db r₁ r₂) (h' : Reads db r₂ r₃) : Reads db r₁ r₃ := by
  induction h with
  | refl => exact h'
  | step hp _ ih => exact .step hp (ih h')

theorem Reads.grows (h : Reads db r r') : r.Grows r' := by
  induction h with
  | refl r => exact .refl r
  | step _ _ ih => exact (grows_replaceLeafNoCreate db _ _ _).trans ih

/-- A lookup is a sequence of such steps. -/
theorem reads_getByPathNoCreate (db : StdMap Path Packed) (ids : Path) (hp : (r.cells p).isSome) : Reads db r (getByPathNoCreate db ids p r).2 := by
  induction ids generalizing p r with
  | nil => exact .refl r
  | cons id ids ih =>
    have h1 : Reads db r (r.replaceLeafNoCreate db p id).2 := .step hp (.refl _)
    unfold getByPathNoCreate
    split
    · rename_i q t h
      have hq := replaceLeafNoCreate_some (show (r.replaceLeafNoCreate db p id).1 = .ok (some q) by rw [h])
      rw [h] at h1 hq
      obtain ⟨rfl, hq⟩ := hq
      exact h1.trans (ih hq)
    · rename_i t h
      rw [h] at h1
      exact h1
    · rename_i e t h
      rw [h] at h1
      exact h1

/-- A lookup from a cell in memory finds the same before and after other lookups. -/
theorem Reads.getByPathNoCreate_eq (ids : Path) (h : Reads db r r') (hq : (r.cells q).isSome) :
    (getByPathNoCreate db ids q r').1 = (getByPathNoCreate db ids q r).1 ∧
    ∀ z, (getByPathNoCreate db ids q r).1 = .ok (some z) →
      (getByPathNoCreate db ids q r').2.cell z = (getByPathNoCreate db ids q r).2.cell z := by
  induction h with
  | refl => exact ⟨rfl, fun _ _ => rfl⟩
  | step hp _ ih =>
    rename_i r₁ r₂ p id _
    rcases replaceLeafNoCreate_cases db r₁ p id with ⟨-, he⟩ | ⟨hn, b, he⟩ | ⟨-, -, he⟩
    · rw [he] at ih
      exact ih hq
    · have hl : Loads db r₁ p id b := ⟨hp, hn, he⟩
      rw [he] at ih
      obtain ⟨h1, h2⟩ := getByPathNoCreate_after ids hl hq
      obtain ⟨i1, i2⟩ := ih ((grows_insert hn).isSome hq)
      exact ⟨i1.trans h1, fun z hz => (i2 z (h1.trans hz)).trans (h2 z hz)⟩
    · rw [he] at ih
      exact ih hq

/-! ## Leaves -/

section Leaves

variable {Γ : Ctx} {τ : Type} {cast : Payload → Option τ} {n : Name}

/-- The root of the tree is in memory. -/
def Rooted (r : ReadTree) : Prop := (r.cells []).isSome

theorem Reads.rooted (h : Reads db r r') (hr : r.Rooted) : r'.Rooted := h.grows.isSome hr

theorem reads_getNoCreate (hr : r.Rooted) : Reads db r (getNoCreate Γ db n cast r).2 := by
  have h := reads_getByPathNoCreate db (Γ.path n.text) hr
  unfold getNoCreate
  split
  all_goals
    rename_i he
    rw [he] at h
    exact h

/-- A lookup of a leaf finds the same before and after other lookups. -/
theorem Reads.getNoCreate_eq (h : Reads db r r') (hr : r.Rooted) :
    (getNoCreate Γ db n cast r').1 = (getNoCreate Γ db n cast r).1 := by
  obtain ⟨h1, h2⟩ := h.getByPathNoCreate_eq (Γ.path n.text) hr
  unfold getNoCreate
  rcases hx : getByPathNoCreate db (Γ.path n.text) [] r with ⟨x, t⟩
  rcases hx' : getByPathNoCreate db (Γ.path n.text) [] r' with ⟨x', t'⟩
  rw [hx, hx'] at h1 h2
  obtain rfl : x' = x := h1
  match x' with
  | .error _ => rfl
  | .ok none => rfl
  | .ok (some z) =>
    have hz : t'.cell z = t.cell z := h2 z rfl
    change Except.ok ((t'.cell z).data.bind _) = Except.ok ((t.cell z).data.bind _)
    rw [hz]

/-- The tree shows a leaf: the cells on the way are in memory, and the last has this payload. -/
def Shows (Γ : Ctx) (r : ReadTree) (n : Name) (cast : Payload → Option τ) (v : DataObj × τ) : Prop :=
  r.Rooted ∧ r.Held (Γ.path n.text) [] ∧
    ((r.cell (Γ.path n.text)).data.bind fun o => (cast o.payload).map (o, ·)) = some v

theorem Shows.grows {v : DataObj × τ} (h : Shows Γ r n cast v) (hg : r.Grows r') : Shows Γ r' n cast v := by
  obtain ⟨hr, hh, hv⟩ := h
  refine ⟨hg.isSome hr, hh.grows hg, ?_⟩
  rw [hg.cell (by simpa using hh.last hr)]
  exact hv

/-- A leaf that is found is shown from then on. -/
theorem shows_of_getNoCreate {v : DataObj × τ} (hr : r.Rooted) (h : (getNoCreate Γ db n cast r).1 = .ok (some v)) :
    Shows Γ (getNoCreate Γ db n cast r).2 n cast v := by
  have hg := grows_getByPathNoCreate db (Γ.path n.text) [] r
  unfold getNoCreate at h ⊢
  split at h
  · rename_i q t he
    obtain ⟨hh, hq⟩ := held_of_getByPathNoCreate (show (getByPathNoCreate db (Γ.path n.text) [] r).1 = .ok (some q) by rw [he])
    rw [he] at hg hh
    rw [List.nil_append] at hq
    subst hq
    exact ⟨hg.isSome hr, hh, Except.ok.inj h⟩
  · nomatch h
  · nomatch h

/-- A leaf that is shown is found, whatever the database holds. -/
theorem Shows.getNoCreate_eq {v : DataObj × τ} (h : Shows Γ r n cast v) (db : StdMap Path Packed) :
    getNoCreate Γ db n cast r = (.ok (some v), r) := by
  obtain ⟨-, hh, hv⟩ := h
  unfold getNoCreate
  rw [getByPathNoCreate_of_held hh db]
  change (Except.ok ((r.cell ([] ++ Γ.path n.text)).data.bind _), r) = _
  rw [List.nil_append, hv]

end Leaves

end ReadTree

end Grain
