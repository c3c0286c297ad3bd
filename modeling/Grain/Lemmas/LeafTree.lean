import Grain.LeafMap
import Grain.Lemmas.Coherent
import Grain.Lemmas.Hashing

/-!
# The tree between operations

The leaves are five levels below the root and have payloads; the cells above them have no payload and, the root apart, they have
children (`Shaped`). What is not in memory is in the database with the recorded hash (`Covered`). With the representation of the
cells and their marks that is what the operations keep (`Sturdy`), and they change the leaves as the map of leaves says (`Mirrors`).
-/

namespace Grain

namespace Store

variable {s t : Store}

/-! ## The cells of the tree -/

/-- There is one cell of the tree on a path. -/
theorem InTree.unique {c q : CellPtr} (hc : InTree s c) (hq : InTree s q) (h : getDbId c = getDbId q) : c = q :=
  hc.current.eq hq.current h

/-- The cell of the tree at an initial part of a cell's path. -/
theorem InTree.above {c : CellPtr} (h : InTree s c) {p q : Path} (hp : getDbId c = p ++ q) :
    ∃ a, InTree s a ∧ a <:+ c ∧ getDbId a = p := by
  refine ⟨c.drop q.length, h.suffix (List.drop_suffix _ _), List.drop_suffix _ _, ?_⟩
  have hr : c.map (·.2) = q.reverse ++ p.reverse := by
    rw [← List.reverse_append, ← hp, getDbId, List.reverse_reverse]
  rw [getDbId, List.map_drop, hr, List.drop_left' (by simp), List.reverse_reverse]

/-- The next cell on the way to a cell of the tree. -/
theorem InTree.next {c q : CellPtr} (hc : InTree s c) (hq : InTree s q) {id : Nat} {ids : Path}
    (h : getDbId q = getDbId c ++ id :: ids) :
    id ∈ (s.cell c).hashes ∧ s.child c id <:+ q := by
  obtain ⟨a, ha, hs, hp⟩ := hq.above (p := getDbId c ++ [id]) (q := ids) (by rw [h, List.append_assoc, List.singleton_append])
  rcases a with _ | ⟨⟨n, id'⟩, a⟩
  · simp at hp
  · rw [getDbId_cons] at hp
    obtain ⟨h1, h2⟩ := List.append_inj' hp rfl
    obtain rfl : id' = id := by simpa using h2
    obtain ⟨hla, -, hid⟩ := inTree_cons.1 ha
    obtain rfl := hla.unique hc h1
    exact ⟨hid, ha.eq_child ▸ hs⟩

/-- A cell stays in the tree if on the way to it the numbers stay and no hash is taken away. -/
theorem InTree.mono {c : CellPtr} (h : InTree s c)
    (hk : ∀ a id, InTree s a → s.child a id <:+ c → (t.cell a).gen id = (s.cell a).gen id ∧ id ∈ (t.cell a).hashes) :
    InTree t c := by
  intro n id a hs
  have ha := h.suffix hs
  obtain ⟨h1, h2⟩ := hk a id (inTree_cons.1 ha).1 (ha.eq_child ▸ hs)
  exact ⟨by rw [h1]; exact (h n id a hs).1, h2⟩

/-! ## The invariant -/

/-- The leaves have payloads, the cells above them have children; the cells `e` may lack them. -/
structure Shaped (s : Store) (e : CellPtr → Prop) : Prop where
  depth : ∀ c, InTree s c → c.length ≤ 5
  leaf : ∀ c, InTree s c → c.length = 5 → ¬ e c → (s.cell c).data.isSome
  inner : ∀ c, InTree s c → c.length < 5 → (s.cell c).data = none
  full : ∀ c, InTree s c → c.length < 5 → c ≠ [] → ¬ e c → ∃ id, id ∈ (s.cell c).hashes

/-- A child that is not in memory is in the database with the hash that is recorded for it. -/
def Covered (s : Store) : Prop :=
  ∀ c id h, InTree s c → (s.cell c).hashes[id]? = some h → id ∉ (s.cell c).ptrs → ∃ b, s.db[getDbId c ++ [id]]? = some b ∧
    b.hash = h

/-- What holds of the tree, where the cells `e` may lack their content. -/
structure Sturdy (s : Store) (e : CellPtr → Prop) : Prop where
  coherent : s.Coherent
  marked : s.Marked
  shaped : Shaped s e
  backed : Covered s

/-- What holds of the tree between operations. -/
abbrev Intact (s : Store) : Prop := Sturdy s fun _ => False

/-- Every cell of the tree is marked. -/
def AllDirty (s : Store) : Prop := ∀ c, InTree s c → (s.cell c).dirty = true

/-- The leaves of the tree are those of the map. -/
structure Mirrors (s : Store) (L : LeafMap) : Prop where
  payload : ∀ c, InTree s c → c.length = 5 → L (getDbId c) = (s.pack c).data
  absent : ∀ p, p.length = 5 → (∀ c, InTree s c → getDbId c ≠ p) → L p = none

variable {e : CellPtr → Prop} {L : LeafMap}

theorem Mirrors.congr (h : Mirrors s L) (hl : ∀ c, c.length = 5 → (InTree t c ↔ InTree s c))
    (hd : ∀ c, InTree s c → c.length = 5 → (t.pack c).data = (s.pack c).data) : Mirrors t L where
  payload c hc hlen := by
    have hc' := (hl c hlen).1 hc
    rw [hd c hc' hlen]
    exact h.payload c hc' hlen
  absent p hp hn := h.absent p hp fun c hc hpath => hn c ((hl c (by rw [← length_getDbId, hpath, hp])).2 hc) hpath

theorem Mirrors.map {L' : LeafMap} (h : Mirrors s L) (hL : ∀ p, p.length = 5 → L' p = L p) : Mirrors s L' where
  payload c hc hlen := by
    rw [hL _ (by rw [length_getDbId, hlen])]
    exact h.payload c hc hlen
  absent p hp hn := by
    rw [hL p hp]
    exact h.absent p hp hn

theorem Mirrors.same (h : Mirrors s L) (hs : SameContent s t) : Mirrors t L :=
  h.congr (fun c _ => hs.live c) fun c _ _ => by rw [hs.pack]

theorem Shaped.same (h : Shaped s e) (hs : SameContent s t) : Shaped t e where
  depth c hc := h.depth c ((hs.live c).1 hc)
  leaf c hc hlen he := by
    rw [hs.data]
    exact h.leaf c ((hs.live c).1 hc) hlen he
  inner c hc hlen := by
    rw [hs.data]
    exact h.inner c ((hs.live c).1 hc) hlen
  full c hc hlen hne he := by
    rw [hs.hashes]
    exact h.full c ((hs.live c).1 hc) hlen hne he

theorem Covered.marks {x : CellPtr} (h : Covered s) (hm : Marks s t x) : Covered t := by
  intro c id h' hc hh hp
  rw [hm.same.db]
  rw [hm.same.hashes] at hh
  exact h c id h' ((hm.same.live c).1 hc) hh fun hid => hp ((hm.ptrs c id).2 (.inl hid))

/-- A cell that does not lack its content needs no exception. -/
theorem Sturdy.strict (h : Sturdy s e) (he : ∀ c, InTree s c → e c → (c.length = 5 → (s.cell c).data.isSome) ∧
    (c.length < 5 → c ≠ [] → ∃ id, id ∈ (s.cell c).hashes)) : Intact s where
  coherent := h.coherent
  marked := h.marked
  backed := h.backed
  shaped := by
    refine ⟨h.shaped.depth, fun c hc hlen _ => ?_, h.shaped.inner, fun c hc hlen hne _ => ?_⟩
    · by_cases hec : e c
      · exact (he c hc hec).1 hlen
      · exact h.shaped.leaf c hc hlen hec
    · by_cases hec : e c
      · exact (he c hc hec).2 hlen hne
      · exact h.shaped.full c hc hlen hne hec

/-- A store whose marks have been restored. -/
theorem Sturdy.of_marks {x : CellPtr} (hm : Marks s t x) (hc : t.Coherent) (ho : MarkedOff s x) (hs : Shaped s e) (hb : Covered s) :
    Sturdy t e := ⟨hc, ho.marks hm, hs.same hm.same, hb.marks hm⟩

/-- The tree has kept its cells; a hash that is recorded in it was so before, or it is the empty one of a new cell. -/
structure Accrues (s t : Store) : Prop where
  live : ∀ c, InTree s c → InTree t c
  recorded : ∀ (c : CellPtr) (id : Nat) (h : Hash), InTree t c → (t.cell c).hashes[id]? = some h → h = Hash.empty ∨ InTree s c ∧
    (s.cell c).hashes[id]? = some h
  dirty : AllDirty s → AllDirty t
  db : t.db = s.db

namespace Accrues

variable {u : Store}

theorem refl (s : Store) : Accrues s s := ⟨fun _ h => h, fun _ _ _ hc hh => .inr ⟨hc, hh⟩, fun h => h, rfl⟩

theorem trans (h : Accrues s t) (h' : Accrues t u) : Accrues s u where
  live c hc := h'.live c (h.live c hc)
  recorded c id x hc hx := by
    rcases h'.recorded c id x hc hx with h1 | ⟨h1, h2⟩
    · exact .inl h1
    · exact h.recorded c id x h1 h2
  dirty hs := h'.dirty (h.dirty hs)
  db := h'.db.trans h.db

theorem of_marks {x : CellPtr} (hm : Marks s t x) : Accrues s t where
  live c hc := (hm.same.live c).2 hc
  recorded c id h hc hh := .inr ⟨(hm.same.live c).1 hc, by rwa [← hm.same.hashes]⟩
  dirty hs c hc := (hm.dirty c).2 (.inl (hs c ((hm.same.live c).1 hc)))
  db := hm.same.db

end Accrues

/-! ## The payload of a leaf -/

/-- The second store is the first with another payload of a leaf. -/
structure LeafSet (s t : Store) (c : CellPtr) (o : DataObj) : Prop where
  gens : ∀ q, (t.cell q).gens = (s.cell q).gens
  hashes : ∀ q, (t.cell q).hashes = (s.cell q).hashes
  ptrs : ∀ q, (t.cell q).ptrs = (s.cell q).ptrs
  dirty : ∀ q, (t.cell q).dirty = (s.cell q).dirty
  other : ∀ q, q ≠ c → t.pack q = s.pack q
  data : (t.pack c).data = some o
  db : t.db = s.db

theorem pack_data_isSome (s : Store) (c : CellPtr) : (s.pack c).data.isSome = (s.cell c).data.isSome := Option.isSome_map

namespace LeafSet

variable {c : CellPtr} {o : DataObj}

theorem live (h : LeafSet s t c o) (q : CellPtr) : InTree t q ↔ InTree s q := by
  unfold InTree Cell.gen
  simp only [h.gens, h.hashes]

theorem child (h : LeafSet s t c o) (q : CellPtr) (i : Nat) : t.child q i = s.child q i := by
  rw [Store.child, Cell.gen, h.gens, ← Cell.gen, ← Store.child]

theorem markedOff (h : LeafSet s t c o) (hm : Marked s) : MarkedOff t c := by
  intro q i x hq hx hne
  rw [h.hashes] at hx
  rw [h.child] at hne
  have he := hm.off c q i x ((h.live q).1 hq) hx hne
  unfold Edge at he ⊢
  rwa [h.child, h.dirty, h.dirty, h.ptrs, h.other _ fun heq => hne (heq ▸ List.suffix_refl _)]

/-- A marked leaf need not be marked again. -/
theorem marked (h : LeafSet s t c o) (hm : Marked s) (hd : (s.cell c).dirty = true) : Marked t := by
  intro q i x _ hq hx
  rw [h.hashes] at hx
  have he := hm q i x List.nil_suffix ((h.live q).1 hq) hx
  unfold Edge at he ⊢
  rw [h.child, h.dirty, h.dirty, h.ptrs]
  by_cases hqc : s.child q i = c
  · rcases he with he | ⟨h1, -⟩
    · exact .inl he
    · rw [hqc, hd] at h1
      cases h1
  · rwa [h.other _ hqc]

theorem shaped (h : LeafSet s t c o) (hlen : c.length = 5) (he : ∀ q, e q → q = c) (hs : Shaped s e) : Shaped t fun _ => False := by
  refine ⟨fun q hq => hs.depth q ((h.live q).1 hq), fun q hq hqlen _ => ?_, fun q hq hqlen => ?_, fun q hq hqlen hnil _ => ?_⟩
  · rw [← pack_data_isSome]
    by_cases hqc : q = c
    · rw [hqc, h.data, Option.isSome_some]
    · rw [h.other q hqc, pack_data_isSome]
      exact hs.leaf q ((h.live q).1 hq) hqlen fun hqe => hqc (he q hqe)
  · have hqc : q ≠ c := by
      rintro rfl
      omega
    have hnone := pack_data_isSome t q
    rw [h.other q hqc, pack_data_isSome, hs.inner q ((h.live q).1 hq) hqlen] at hnone
    simpa using hnone.symm
  · have hqc : q ≠ c := by
      rintro rfl
      omega
    rw [h.hashes]
    exact hs.full q ((h.live q).1 hq) hqlen hnil fun hqe => hqc (he q hqe)

theorem backed (h : LeafSet s t c o) (hb : Covered s) : Covered t := by
  intro q i x hq hx hp
  rw [h.hashes] at hx
  rw [h.ptrs] at hp
  rw [h.db]
  exact hb q i x ((h.live q).1 hq) hx hp

theorem holds (h : LeafSet s t c o) (hc : InTree s c) (hh : Mirrors s L) : Mirrors t fun q =>
    if q = getDbId c then some o else L q where
  payload q hq hqlen := by
    have hl := (h.live q).1 hq
    by_cases hqc : q = c
    · rw [hqc, if_pos rfl, h.data]
    · rw [if_neg fun hp => hqc (hl.unique hc hp), h.other q hqc]
      exact hh.payload q hl hqlen
  absent p hp hn := by
    rw [if_neg fun he => hn c ((h.live c).2 hc) he.symm]
    exact hh.absent p hp fun q hq => hn q ((h.live q).2 hq)

theorem grows (h : LeafSet s t c o) : Accrues s t where
  live q hq := (h.live q).2 hq
  recorded q i x hq hx := by
    rw [h.hashes] at hx
    exact .inr ⟨(h.live q).1 hq, hx⟩
  dirty hs q hq := by
    rw [h.dirty]
    exact hs q ((h.live q).1 hq)
  db := h.db

end LeafSet

/-- A leaf gets another payload and is marked. -/
theorem Sturdy.setLeaf (h : Sturdy s e) (hh : Mirrors s L) {c : CellPtr} {o : DataObj} (ht : LeafSet s t c o) (hco : t.Coherent)
    (he : ∀ q, e q → q = c) (hc : InTree s c) (hlen : c.length = 5) (roll : Bool) :
    Intact (t.setDirty roll c) ∧ Mirrors (t.setDirty roll c) (fun q => if q = getDbId c then some o else L q) ∧
      Accrues s (t.setDirty roll c) := by
  have hm := setDirty_marks t roll c
  have hct := (ht.live c).2 hc
  exact ⟨.of_marks hm (hco.setDirty roll hct.valid).coherent (ht.markedOff h.marked) (ht.shaped hlen he h.shaped)
    (ht.backed h.backed),
    (ht.holds hc hh).same hm.same, ht.grows.trans (.of_marks hm)⟩

/-! ## Lookups -/

/-- A child that has a hash is found. -/
theorem Sturdy.replaceLeafNoCreate (h : Sturdy s e) {c : CellPtr} (hc : InTree s c) (id : Nat) :
    s.replaceLeafNoCreate c id = .ok (if id ∈ (s.cell c).hashes then some (s.child c id) else none) := by
  unfold Store.replaceLeafNoCreate
  split
  · rename_i hid
    rw [if_pos (h.coherent.ptrs c id hid)]
  · rename_i hptr
    rcases hx : (s.cell c).hashes[id]? with _ | x
    · rw [if_neg]
      intro hid
      obtain ⟨x, hx'⟩ := (StdMap.mem_iff _ _).1 hid
      rw [hx] at hx'
      cases hx'
    · rw [if_pos ((StdMap.mem_iff _ _).2 ⟨x, hx⟩)]
      obtain ⟨b, hb, hhash⟩ := h.backed c id x hc hx hptr
      simp [hb, hhash, (h.coherent.db _ _ hb).loadable]

/-- A lookup finds the cell of the tree on its path. -/
theorem Sturdy.resolve (h : Sturdy s e) (ids : Path) {c : CellPtr} (hc : InTree s c) :
    ∃ r, s.resolve ids c = .ok r ∧ ∀ q, r = some q ↔ InTree s q ∧ getDbId q = getDbId c ++ ids := by
  induction ids generalizing c with
  | nil =>
    refine ⟨some c, rfl, fun q => ?_⟩
    rw [List.append_nil, Option.some.injEq]
    constructor
    · rintro rfl
      exact ⟨hc, rfl⟩
    · exact fun hq => hc.unique hq.1 hq.2.symm
  | cons id ids ih =>
    unfold Store.resolve
    rw [h.replaceLeafNoCreate hc id]
    by_cases hid : id ∈ (s.cell c).hashes
    · obtain ⟨r, hr, hq⟩ := ih (hc.child hid)
      refine ⟨r, by simpa [hid] using hr, fun q => ?_⟩
      rw [hq, getDbId_child, List.append_assoc, List.singleton_append]
    · refine ⟨none, by simp [hid], fun q => ?_⟩
      simp only [reduceCtorEq, false_iff, not_and]
      exact fun hq hp => hid (hc.next hq hp).1

/-- A lookup shows the payload that the map has, or nothing if it has none. -/
theorem Sturdy.look (h : Intact s) (hh : Mirrors s L) {p : Path} (hp : p.length = 5) :
    (∃ c g, InTree s c ∧ getDbId c = p ∧ (s.cell c).data = some g ∧ L p = some (s.deref ⟨g, c⟩) ∧
      s.look p = .ok (some ((s.deref ⟨g, c⟩).payload.hsh, some (⟨g, c⟩, s.deref ⟨g, c⟩)))) ∨
      L p = none ∧ s.look p = .ok none := by
  obtain ⟨r, hr, hq⟩ := h.resolve p (inTree_nil s)
  rcases r with _ | c
  · refine .inr ⟨hh.absent p hp fun c hc hpath => ?_, by simp [Store.look, getByPathNoCreate, hr]⟩
    exact absurd ((hq c).2 ⟨hc, by simpa using hpath⟩) (by simp)
  · obtain ⟨hc, hpath⟩ := (hq c).1 rfl
    have hpath : getDbId c = p := by simpa using hpath
    have hlen : c.length = 5 := by rw [← length_getDbId, hpath, hp]
    obtain ⟨g, hg⟩ := Option.isSome_iff_exists.1 (h.shaped.leaf c hc hlen not_false)
    have hidx : (s.cell c).idx = (s.deref ⟨g, c⟩).payload.hsh := by
      simpa [Packed.Coherent, pack, hg] using h.coherent.packed c
    refine .inl ⟨c, g, hc, hpath, hg, ?_, ?_⟩
    · rw [← hpath, hh.payload c hc hlen]
      simp [pack, hg]
    · simp [Store.look, getByPathNoCreate, hr, view, Store.leaf, hg, hidx]

/-! ## Assignments -/

/-- A leaf is assigned to and marked. -/
theorem Sturdy.assign (h : Intact s) (hh : Mirrors s L) {c : CellPtr} (hc : InTree s c) (hlen : c.length = 5) {g : Nat}
    (hg : (s.cell c).data = some g) (w : Write) (roll : Bool) :
    Intact ((s.setObj ⟨g, c⟩ (w.apply (s.deref ⟨g, c⟩))).setDirty roll c) ∧
      Mirrors ((s.setObj ⟨g, c⟩ (w.apply (s.deref ⟨g, c⟩))).setDirty roll c)
        (fun q => if q = getDbId c then (L q).map w.apply else L q) ∧
      Accrues s ((s.setObj ⟨g, c⟩ (w.apply (s.deref ⟨g, c⟩))).setDirty roll c) := by
  have hset : LeafSet s (s.setObj ⟨g, c⟩ (w.apply (s.deref ⟨g, c⟩))) c (w.apply (s.deref ⟨g, c⟩)) := by
    refine ⟨fun _ => rfl, fun _ => rfl, fun _ => rfl, fun _ => rfl, fun q hq => ?_, by simp [pack, hg], rfl⟩
    have hd : ∀ i, (⟨i, q⟩ : DataPtr) ≠ ⟨g, c⟩ := fun i he => hq (congrArg DataPtr.parent he)
    simp [pack, hd]
  obtain ⟨h1, h2, h3⟩ := h.setLeaf hh hset (h.coherent.assign ⟨g, c⟩ w).coherent (fun _ hf => hf.elim) hc hlen roll
  refine ⟨h1, h2.map fun q _ => ?_, h3⟩
  by_cases he : q = getDbId c
  · subst he
    rw [if_pos rfl, if_pos rfl, hh.payload c hc hlen]
    simp [pack, hg]
  · rw [if_neg he, if_neg he]

/-! ## Making leaves -/

/-- The second store is the first with a new child of a cell, which is empty. -/
structure Made (s t : Store) (c : CellPtr) (id : Nat) : Prop where
  parent : t.cell c = ((s.cell c).withHash id .empty).withPtr id
  new : t.cell (s.child c id) = {}
  other : ∀ q, q ≠ c → q ≠ s.child c id → t.cell q = s.cell q
  deref : t.deref = s.deref
  db : t.db = s.db

theorem newChild_made (s : Store) (roll : Bool) (c : CellPtr) (id : Nat) :
    let r := if roll then s.snapshot c else s
    Made s ((r.setCell c ((r.cell c).withHash id .empty)).newChild c id) c id := by
  intro r
  have hcell : r.cell = s.cell := by
    cases roll <;> simp [r]
  have hderef : r.deref = s.deref := by
    cases roll <;> simp [r]
  have hdb : r.db = s.db := by
    cases roll <;> simp [r]
  have hchild : (r.setCell c ((r.cell c).withHash id .empty)).child c id = s.child c id := by
    simp [child, Cell.gen, hcell]
  have hne := child_ne_self s c id
  unfold newChild
  rw [hchild, hcell]
  refine ⟨by simp, by simp [hne], fun q hq hq' => by simp [hq, hq', hcell], by simpa using hderef, by simpa using hdb⟩

namespace Made

variable {c : CellPtr} {id : Nat}

theorem gen (h : Made s t c id) {q : CellPtr} (hq : q ≠ s.child c id) (i : Nat) : (t.cell q).gen i = (s.cell q).gen i := by
  by_cases he : q = c
  · subst he
    rw [h.parent]
    simp [Cell.gen]
  · rw [h.other q he hq]

theorem child (h : Made s t c id) {q : CellPtr} (hq : q ≠ s.child c id) (i : Nat) : t.child q i = s.child q i := by
  rw [Store.child, h.gen hq, ← Store.child]

theorem pack_data (h : Made s t c id) {q : CellPtr} (hq : q ≠ s.child c id) : (t.pack q).data = (s.pack q).data := by
  by_cases he : q = c
  · subst he
    simp [pack, h.parent, h.deref]
  · simp [pack, h.other q he hq, h.deref]

theorem pack (h : Made s t c id) {q : CellPtr} (hc : q ≠ c) (hq : q ≠ s.child c id) : t.pack q = s.pack q := by
  simp [Store.pack, h.other q hc hq, h.deref]

theorem not_inTree (hid : id ∉ (s.cell c).hashes) : ¬ InTree s (s.child c id) := fun hl => hid (inTree_cons.1 hl).2.2

theorem live (h : Made s t c id) (hid : id ∉ (s.cell c).hashes) (hc : InTree s c) (q : CellPtr) :
    InTree t q ↔ InTree s q ∨ q = s.child c id := by
  have hkeep : ∀ q, InTree s q → InTree t q := by
    intro q hq
    refine hq.mono fun a i ha hs => ?_
    have hne : a ≠ s.child c id := fun he => not_inTree hid (he ▸ ha)
    refine ⟨h.gen hne i, ?_⟩
    have hi := (inTree_cons.1 (hq.suffix hs)).2.2
    by_cases he : a = c
    · subst he
      rw [h.parent]
      simp [hi]
    · rwa [h.other a he hne]
  constructor
  · intro hq
    induction q with
    | nil => exact .inl (inTree_nil s)
    | cons y q ih =>
      obtain ⟨n, i⟩ := y
      obtain ⟨hl, hn, hi⟩ := inTree_cons.1 hq
      rcases ih hl with hl | rfl
      · have hne : q ≠ s.child c id := fun he => not_inTree hid (he ▸ hl)
        rw [h.gen hne] at hn
        by_cases he : q = c
        · subst he
          by_cases heq : i = id
          · subst heq
            rw [hn]
            exact .inr rfl
          · rw [h.parent] at hi
            simp only [Cell.withPtr_hashes, Cell.withHash_hashes, StdMap.mem_insert] at hi
            exact .inl (inTree_cons.2 ⟨hl, hn, hi.resolve_left fun he => heq he.symm⟩)
        · rw [h.other q he hne] at hi
          exact .inl (inTree_cons.2 ⟨hl, hn, hi⟩)
      · rw [h.new] at hi
        simp at hi
  · rintro (hq | rfl)
    · exact hkeep q hq
    · refine inTree_cons.2 ⟨hkeep c hc, (h.gen (child_ne_self s c id).symm id).symm, ?_⟩
      rw [h.parent]
      simp

/-- The hashes of the cells that were there, but for that of the new child. -/
theorem hashes (h : Made s t c id) {q : CellPtr} (hq : q ≠ s.child c id) {i : Nat} {x : Hash} (hx : (t.cell q).hashes[i]? = some x)
    (hi : t.child q i ≠ s.child c id) : (s.cell q).hashes[i]? = some x ∧ (i ∈ (s.cell q).ptrs ↔ i ∈ (t.cell q).ptrs) := by
  by_cases he : q = c
  · subst he
    have hne : id ≠ i := by
      rintro rfl
      exact hi (h.child hq id)
    rw [h.parent] at hx ⊢
    simp only [Cell.withPtr_hashes, Cell.withHash_hashes, StdMap.getElem?_insert, hne, if_false] at hx
    simp [hx, hne]
  · rw [h.other q he hq] at hx ⊢
    exact ⟨hx, Iff.rfl⟩

theorem markedOff (h : Made s t c id) (hid : id ∉ (s.cell c).hashes) (hc : InTree s c) (hm : Marked s) :
    MarkedOff t (s.child c id) := by
  intro q i x hq hx hne
  rcases (h.live hid hc q).1 hq with hl | rfl
  · have hqne : q ≠ s.child c id := fun he => not_inTree hid (he ▸ hl)
    obtain ⟨hx, hp⟩ := h.hashes hqne hx fun he => hne (he ▸ List.suffix_refl _)
    have he := hm q i x List.nil_suffix hl hx
    rw [h.child hqne] at hne
    unfold Edge at he ⊢
    have hci : s.child q i ≠ c := fun he => hne (he ▸ List.suffix_cons _ _)
    have hni : s.child q i ≠ s.child c id := fun he => hne (he ▸ List.suffix_refl _)
    rw [h.child hqne, h.other _ hci hni, h.pack hci hni, ← hp]
    have hd : (t.cell q).dirty = (s.cell q).dirty := by
      by_cases hqc : q = c
      · subst hqc
        rw [h.parent]
        rfl
      · rw [h.other q hqc hqne]
    rw [hd]
    rcases he with ⟨h1, h2, h3⟩ | h1
    · exact .inl ⟨h1, .inl h2, h3⟩
    · exact .inr h1
  · rw [h.new] at hx
    simp at hx

theorem shaped (h : Made s t c id) (hid : id ∉ (s.cell c).hashes) (hc : InTree s c) (hlen : c.length < 5) (he : ∀ q, e q → q = c)
    (hs : Shaped s e) : Shaped t (· = s.child c id) := by
  have hdata : ∀ q, q ≠ s.child c id → (t.cell q).data = (s.cell q).data := by
    intro q hq
    by_cases hqc : q = c
    · subst hqc
      rw [h.parent]
      rfl
    · rw [h.other q hqc hq]
  refine ⟨fun q hq => ?_, fun q hq hqlen hne => ?_, fun q hq hqlen => ?_, fun q hq hqlen hnil hne => ?_⟩ <;>
    rcases (h.live hid hc q).1 hq with hl | rfl
  · exact hs.depth q hl
  · simp only [Store.child, List.length_cons]
    omega
  · rw [hdata q hne]
    refine hs.leaf q hl hqlen fun hqe => ?_
    rw [he q hqe] at hqlen
    omega
  · exact absurd rfl hne
  · by_cases hne : q = s.child c id
    · rw [hne, h.new]
    · rw [hdata q hne]
      exact hs.inner q hl hqlen
  · rw [h.new]
  · by_cases hqc : q = c
    · subst hqc
      exact ⟨id, by rw [h.parent]; simp⟩
    · rw [h.other q hqc hne]
      exact hs.full q hl hqlen hnil fun hqe => hqc (he q hqe)
  · exact absurd rfl hne

theorem backed (h : Made s t c id) (hid : id ∉ (s.cell c).hashes) (hc : InTree s c) (hb : Covered s) : Covered t := by
  intro q i x hq hx hp
  rw [h.db]
  rcases (h.live hid hc q).1 hq with hl | rfl
  · have hqne : q ≠ s.child c id := fun he => not_inTree hid (he ▸ hl)
    obtain ⟨hx', hp'⟩ := h.hashes hqne hx fun he => by
      rw [h.child hqne] at he
      simp only [Store.child, List.cons.injEq, Prod.mk.injEq] at he
      obtain ⟨⟨-, rfl⟩, rfl⟩ := he
      rw [h.parent] at hp
      simp at hp
    exact hb q i x hl hx' fun hi => hp (hp'.1 hi)
  · rw [h.new] at hx
    simp at hx

theorem holds (h : Made s t c id) (hid : id ∉ (s.cell c).hashes) (hc : InTree s c) (hh : Mirrors s L) : Mirrors t L where
  payload q hq hlen := by
    rcases (h.live hid hc q).1 hq with hl | rfl
    · rw [h.pack_data fun he => not_inTree hid (he ▸ hl)]
      exact hh.payload q hl hlen
    · -- there was no cell on the path
      rw [hh.absent _ (by rw [length_getDbId, hlen]) fun a ha hpath => ?_]
      · simp [Store.pack, h.new]
      · have hway : getDbId a = getDbId c ++ id :: [] := by rw [hpath, getDbId_child]
        exact hid (hc.next ha hway).1
  absent p hp hn := hh.absent p hp fun q hq hpath => hn q ((h.live hid hc q).2 (.inl hq)) hpath

end Made

theorem Made.grows {c : CellPtr} {id : Nat} (h : Made s t c id) (hid : id ∉ (s.cell c).hashes) (hc : InTree s c) {u : Store}
    (hm : Marks t u (s.child c id)) : Accrues s u where
  live q hq := (hm.same.live q).2 ((h.live hid hc q).2 (.inl hq))
  recorded q i x hq hx := by
    rw [hm.same.hashes] at hx
    rcases (h.live hid hc q).1 ((hm.same.live q).1 hq) with hl | rfl
    · have hne : q ≠ s.child c id := fun he => not_inTree hid (he ▸ hl)
      by_cases hi : t.child q i = s.child c id
      · -- the hash of the new child
        rw [h.child hne] at hi
        simp only [Store.child, List.cons.injEq, Prod.mk.injEq] at hi
        obtain ⟨⟨-, rfl⟩, rfl⟩ := hi
        rw [h.parent] at hx
        exact .inl (by simpa using hx.symm)
      · exact .inr ⟨hl, (h.hashes hne hx hi).1⟩
    · rw [h.new] at hx
      simp at hx
  dirty hs q hq := by
    rcases (h.live hid hc q).1 ((hm.same.live q).1 hq) with hl | rfl
    · have hne : q ≠ s.child c id := fun he => not_inTree hid (he ▸ hl)
      refine (hm.dirty q).2 (.inl ?_)
      by_cases hqc : q = c
      · subst hqc
        rw [h.parent]
        exact hs q hl
      · rw [h.other q hqc hne]
        exact hs q hl
    · exact (hm.dirty _).2 (.inr (List.suffix_refl _))
  db := hm.same.db.trans h.db

/-- A child that is not there is made. -/
theorem Sturdy.replaceLeafOrCreate (h : Sturdy s e) (hh : Mirrors s L) (roll : Bool) {c : CellPtr} (he : ∀ q, e q → q = c)
    (hc : InTree s c)
    (hlen : c.length < 5) {id : Nat} (hid : id ∉ (s.cell c).hashes) :
    ∃ t, Store.replaceLeafOrCreate roll s c id = (.ok (some (s.child c id)), t) ∧ Sturdy t (· = s.child c id) ∧
      InTree t (s.child c id) ∧ (t.cell (s.child c id)).dirty = true ∧ (t.cell (s.child c id)).data = none ∧ Mirrors t L ∧
      Accrues s t := by
  have hmade := newChild_made s roll c id
  dsimp only at hmade
  set r := if roll then s.snapshot c else s with hr
  set u := (r.setCell c ((r.cell c).withHash id .empty)).newChild c id with hu
  have hcell : r.cell = s.cell := by
    rw [hr]
    cases roll <;> simp
  have hchild : (r.setCell c ((r.cell c).withHash id .empty)).child c id = s.child c id := by
    simp [Store.child, Cell.gen, hcell]
  have hptr : id ∉ (s.cell c).ptrs := fun hp => hid (h.coherent.ptrs c id hp)
  have heq : Store.replaceLeafOrCreate roll s c id = (.ok (some (s.child c id)), u.setDirty roll (s.child c id)) := by
    unfold Store.replaceLeafOrCreate
    rw [if_neg hid]
    dsimp only
    rw [← hr, if_neg (by simpa [hcell] using hptr), hchild]
  have hm := setDirty_marks u roll (s.child c id)
  have hco := (h.coherent.replaceLeafOrCreate roll hc.valid id).1.coherent
  rw [heq] at hco
  refine ⟨_, heq, .of_marks hm hco (hmade.markedOff hid hc h.marked) (hmade.shaped hid hc hlen he h.shaped)
    (hmade.backed hid hc h.backed),
    (hm.same.live _).2 ((hmade.live hid hc _).2 (.inr rfl)), (hm.dirty _).2 (.inr (List.suffix_refl _)), ?_,
    (hmade.holds hid hc hh).same hm.same, hmade.grows hid hc hm⟩
  rw [hm.same.data, hmade.new]

/-- Nothing is missing, or the cell is one that was just made. -/
def Poised (s : Store) (c : CellPtr) : Prop :=
  Intact s ∨ Sturdy s (· = c) ∧ (s.cell c).dirty = true ∧ (s.cell c).data = none

/-- The creating lookup finds or makes the cell on its path. -/
theorem Poised.resolveOrCreate (roll : Bool) (ids : Path) {c : CellPtr} (h : Poised s c) (hh : Mirrors s L) (hc : InTree s c)
    (hlen : c.length + ids.length = 5) :
    ∃ q t, Store.resolveOrCreate roll ids c s = (.ok (some q), t) ∧ Poised t q ∧ InTree t q ∧ getDbId q = getDbId c ++ ids ∧
      Mirrors t L ∧ Accrues s t := by
  induction ids generalizing c s with
  | nil => exact ⟨c, s, rfl, h, hc, by simp, hh, .refl s⟩
  | cons id ids ih =>
    rw [List.length_cons] at hlen
    have hpath : ∀ q, getDbId q = getDbId (s.child c id) ++ ids → getDbId q = getDbId c ++ id :: ids := by
      intro q hq
      rw [hq, getDbId_child, List.append_assoc, List.singleton_append]
    have hchild : (s.child c id).length + ids.length = 5 := by
      simp only [Store.child, List.length_cons]
      omega
    by_cases hid : id ∈ (s.cell c).hashes
    · -- the cell has a child, so it lacks nothing
      have hi : Intact s := by
        rcases h with h | ⟨h, -, -⟩
        · exact h
        · refine h.strict fun a _ ha => ?_
          subst ha
          exact ⟨fun h5 => by omega, fun _ _ => ⟨id, hid⟩⟩
      have heq : Store.replaceLeafOrCreate roll s c id = (.ok (some (s.child c id)), s) := by
        unfold Store.replaceLeafOrCreate
        rw [if_pos hid, hi.replaceLeafNoCreate hc id, if_pos hid]
      obtain ⟨q, t, h1, h2, h3, h4, h5, h6⟩ := ih (.inl hi) hh (hc.child hid) hchild
      refine ⟨q, t, ?_, h2, h3, hpath q h4, h5, h6⟩
      unfold Store.resolveOrCreate
      rw [heq]
      exact h1
    · obtain ⟨u, heq, hw, hl, hd, hn, hu, hdu⟩ : ∃ u, Store.replaceLeafOrCreate roll s c id = (.ok (some (s.child c id)), u) ∧
          Sturdy u (· = s.child c id) ∧ InTree u (s.child c id) ∧ (u.cell (s.child c id)).dirty = true ∧
          (u.cell (s.child c id)).data = none ∧ Mirrors u L ∧ Accrues s u := by
        rcases h with h | ⟨h, -, -⟩
        · exact h.replaceLeafOrCreate hh roll (fun _ hf => hf.elim) hc (by omega) hid
        · exact h.replaceLeafOrCreate hh roll (fun _ hq => hq) hc (by omega) hid
      obtain ⟨q, t, h1, h2, h3, h4, h5, h6⟩ := ih (.inr ⟨hw, hd, hn⟩) hu hl hchild
      refine ⟨q, t, ?_, h2, h3, hpath q h4, h5, hdu.trans h6⟩
      unfold Store.resolveOrCreate
      rw [heq]
      exact h1

theorem construct_leafSet (s : Store) (c : CellPtr) (o : DataObj) : LeafSet s (s.construct c o) c o := by
  have hcell : ∀ q, (s.construct c o).cell q = if q = c then (s.cell c).withData.withIdx o.payload.hsh else s.cell q := by
    intro q
    by_cases he : q = c <;> simp [Store.construct, he]
  have hderef : ∀ d, (s.construct c o).deref d = if d = ⟨(s.cell c).objs, c⟩ then o else s.deref d := by
    intro d
    simp [Store.construct]
  refine ⟨fun q => ?_, fun q => ?_, fun q => ?_, fun q => ?_, fun q hq => ?_, ?_, by simp [Store.construct]⟩
  · by_cases he : q = c <;> simp [hcell, he]
  · by_cases he : q = c <;> simp [hcell, he]
  · by_cases he : q = c <;> simp [hcell, he]
  · by_cases he : q = c <;> simp [hcell, he]
  · have hne : ∀ g, (⟨g, q⟩ : DataPtr) ≠ ⟨(s.cell c).objs, c⟩ := fun g he => hq (congrArg DataPtr.parent he)
    simp [pack, hcell, hq, hderef, hne]
  · simp [pack, hcell, hderef]

/-- The payload of a leaf that was just made. -/
theorem Sturdy.construct {c : CellPtr} (h : Sturdy s (· = c)) (hh : Mirrors s L) (hd : (s.cell c).dirty = true) (hc : InTree s c)
    (hlen : c.length = 5) (o : DataObj) :
    Intact (s.construct c o) ∧ Mirrors (s.construct c o) (fun q => if q = getDbId c then some o else L q) ∧
      Accrues s (s.construct c o) := by
  have hset := construct_leafSet s c o
  exact ⟨⟨(h.coherent.construct c o).coherent, hset.marked h.marked hd, hset.shaped hlen (fun _ hq => hq) h.shaped,
    hset.backed h.backed⟩,
    hset.holds hc hh, hset.grows⟩

/-- Looking a leaf up and creating it shows the payload that the map has, or makes the one that is given. -/
theorem Sturdy.create (h : Intact s) (hh : Mirrors s L) {p : Path} (hp : p.length = 5) (o : DataObj) :
    ∃ d t, s.create p o = (.ok ((L p).isSome, d, (L p).getD o), t) ∧ Intact t ∧
      Mirrors t (fun q => if q = p then some ((L q).getD o) else L q) ∧ Accrues s t := by
  obtain ⟨c, t, h1, h2, h3, h4, h5, h6⟩ := Poised.resolveOrCreate true p (.inl h) hh (inTree_nil s) (by simpa using hp)
  have hpath : getDbId c = p := by simpa using h4
  have hlen : c.length = 5 := by rw [← length_getDbId, hpath, hp]
  have hL := h5.payload c h3 hlen
  rw [hpath] at hL
  unfold Store.create getByPathOrCreate
  rw [h1]
  rcases hg : (t.cell c).data with _ | g
  · -- the leaf is new
    have hnone : L p = none := by simpa [pack, hg] using hL
    obtain ⟨hw, hd⟩ : Sturdy t (· = c) ∧ (t.cell c).dirty = true := by
      rcases h2 with h2 | ⟨h2, h2', -⟩
      · have := h2.shaped.leaf c h3 hlen not_false
        simp [hg] at this
      · exact ⟨h2, h2'⟩
    obtain ⟨hi, hholds, hall⟩ := hw.construct h5 hd h3 hlen o
    refine ⟨⟨(t.cell c).objs, c⟩, t.construct c o, ?_, hi, ?_, h6.trans hall⟩
    · simp [Store.leaf, hg, hnone]
    refine hholds.map fun q _ => ?_
    rw [hpath]
    by_cases he : q = p
    · simp [he, hnone]
    · simp [he]
  · have hsome : L p = some (t.deref ⟨g, c⟩) := by simpa [pack, hg] using hL
    have hi : Intact t := by
      rcases h2 with h2 | ⟨-, -, h2⟩
      · exact h2
      · rw [hg] at h2
        cases h2
    refine ⟨⟨g, c⟩, t, ?_, hi, ?_, h6⟩
    · simp [Store.leaf, hg, hsome]
    refine h5.map fun q _ => ?_
    by_cases he : q = p
    · simp [he, hsome]
    · simp [he]

theorem unpackMx_leafSet {c : CellPtr} {b : Packed} {o : DataObj} (hb : b.Coherent) (ho : b.data = some o)
    (hh : b.hashes = (s.cell c).hashes) : LeafSet s (s.unpackMx c b).2 c o := by
  have hidx : b.idx ≠ .hshEnd := hb.loadable (by simp [ho])
  obtain ⟨h1, h2⟩ := data_unpackMx_some (s := s) (c := c) ho hidx
  refine ⟨fun q => by simp, fun q => ?_, fun q => by simp, fun q => by simp, fun q hq => ?_, by simp [pack, h1, h2], by simp⟩
  · by_cases he : q = c
    · rw [he, hashes_unpackMx, hh]
    · rw [cell_unpackMx_of_ne s b he]
  · have hd : ∀ g, (s.unpackMx c b).2.deref ⟨g, q⟩ = s.deref ⟨g, q⟩ := fun g => deref_unpackMx_of_ne s b hq
    simp [pack, cell_unpackMx_of_ne s b hq, hd]

/-- A leaf of the tree has no children. -/
theorem Sturdy.hashes_leaf (h : Sturdy s e) {c : CellPtr} (hc : InTree s c) (hlen : c.length = 5) : (s.cell c).hashes = ∅ := by
  refine Std.ExtTreeMap.eq_empty_iff_forall_not_mem.2 fun i hi => ?_
  have := h.shaped.depth _ (hc.child hi)
  simp only [child, List.length_cons] at this
  omega

/-- A leaf is replaced by a packed one, or made from it. -/
theorem Sturdy.replaceLeaf (h : Intact s) (hh : Mirrors s L) {p : Path} (hp : p.length = 5) {b : Packed} {o : DataObj}
    (hb : b.Coherent)
    (ho : b.data = some o) (hnone : b.hashes = ∅) :
    ∃ t, s.replaceLeaf p b = (.ok (), t) ∧ Intact t ∧ Mirrors t (fun q => if q = p then some o else L q) ∧ Accrues s t := by
  obtain ⟨c, t, h1, h2, h3, h4, h5, h6⟩ := Poised.resolveOrCreate true p (.inl h) hh (inTree_nil s) (by simpa using hp)
  have hpath : getDbId c = p := by simpa using h4
  have hlen : c.length = 5 := by rw [← length_getDbId, hpath, hp]
  have hidx : b.idx ≠ .hshEnd := hb.loadable (by simp [ho])
  obtain ⟨e, hw, he⟩ : ∃ e : CellPtr → Prop, Sturdy t e ∧ ∀ q, e q → q = c := by
    rcases h2 with h2 | ⟨h2, -, -⟩
    · exact ⟨_, h2, fun _ hf => hf.elim⟩
    · exact ⟨_, h2, fun _ hq => hq⟩
  have hempty : b.hashes = (t.cell c).hashes := by rw [hnone, hw.hashes_leaf h3 hlen]
  have hset := unpackMx_leafSet hb ho hempty
  obtain ⟨h7, h8⟩ := hw.coherent.unpackMx hb (c := c) (fun id hid => by rwa [hempty]) fun hn => by
    rw [ho] at hn
    cases hn
  obtain ⟨h9, h10, h11⟩ := hw.setLeaf h5 hset h8.coherent he h3 hlen true
  refine ⟨(t.unpackMx c b).2.setDirty true c, ?_, h9, by rwa [hpath] at h10, h6.trans h11⟩
  have hsome : ((t.unpackMx c b).2.cell c).data.isSome := by
    rw [(data_unpackMx_some (s := t) (c := c) ho hidx).1, Option.isSome_some]
  unfold Store.replaceLeaf getByPathOrCreate
  rw [h1]
  have hr : t.unpackMx c b = (.ok (), (t.unpackMx c b).2) := Prod.ext h7 rfl
  dsimp only
  rw [hr]
  dsimp only
  rw [if_pos hsome]

/-! ## Deleting leaves -/

theorem Sturdy.mono {e' : CellPtr → Prop} (h : Sturdy s e) (he : ∀ c, e c → e' c) : Sturdy s e' :=
  ⟨h.coherent, h.marked, ⟨h.shaped.depth, fun c hc hlen hne => h.shaped.leaf c hc hlen fun hec => hne (he c hec), h.shaped.inner,
    fun c hc hlen hnil hne => h.shaped.full c hc hlen hnil fun hec => hne (he c hec)⟩, h.backed⟩

/-- On the way to a cell below another one there is a child of that. -/
theorem InTree.exists_child {c q : CellPtr} (hq : InTree s q) (hs : c <:+ q) (hne : q ≠ c) :
    ∃ id, id ∈ (s.cell c).hashes ∧ s.child c id <:+ q := by
  obtain ⟨l, rfl⟩ := hs
  rcases List.eq_nil_or_concat' l with rfl | ⟨l, y, rfl⟩
  · exact absurd rfl hne
  · obtain ⟨m, id⟩ := y
    have hsuf : (m, id) :: c <:+ l ++ [(m, id)] ++ c := ⟨l, by simp⟩
    have hl := hq.suffix hsuf
    exact ⟨id, (inTree_cons.1 hl).2.2, hl.eq_child ▸ hsuf⟩

/-- The second tree is the first without some cells, which are filed as deleted. -/
structure Prunes (x y : Store × DbToSave) : Prop where
  live : ∀ q, InTree y.1 q → InTree x.1 q
  recorded : ∀ (q : CellPtr) (i : Nat) (h : Hash), InTree y.1 q → (y.1.cell q).hashes[i]? = some h →
    (x.1.cell q).hashes[i]? = some h
  gone : ∀ q, InTree x.1 q → InTree y.1 q ∨ getDbId q ∈ y.2.deleted
  cells : y.2.cells = x.2.cells
  deleted : ∀ p ∈ y.2.deleted, p ∈ x.2.deleted ∨ ∀ q, InTree y.1 q → getDbId q ≠ p
  kept : ∀ p ∈ x.2.deleted, p ∈ y.2.deleted
  db : y.1.db = x.1.db

theorem Prunes.refl (x : Store × DbToSave) : Prunes x x :=
  ⟨fun _ h => h, fun _ _ _ _ h => h, fun _ h => .inl h, rfl, fun _ h => .inl h, fun _ h => h, rfl⟩

theorem Prunes.trans {x y z : Store × DbToSave} (h : Prunes x y) (h' : Prunes y z) : Prunes x z where
  live q hq := h.live q (h'.live q hq)
  recorded q i a hq ha := h.recorded q i a (h'.live q hq) (h'.recorded q i a hq ha)
  gone q hq := by
    rcases h.gone q hq with h1 | h1
    · exact h'.gone q h1
    · exact .inr (h'.kept _ h1)
  cells := h'.cells.trans h.cells
  deleted p hp := by
    rcases h'.deleted p hp with h1 | h1
    · rcases h.deleted p h1 with h2 | h2
      · exact .inl h2
      · exact .inr fun q hq => h2 q (h'.live q hq)
    · exact .inr h1
  kept p hp := h'.kept p (h.kept p hp)
  db := h'.db.trans h.db

/-- A marked cell is taken out of its parent. -/
theorem Sturdy.unlink {n id : Nat} {c : CellPtr} (h : Sturdy s (· = (n, id) :: c)) (hl : InTree s ((n, id) :: c))
    (hd : (s.cell ((n, id) :: c)).dirty = true) (hempty : (s.cell ((n, id) :: c)).hashes = ∅) (d : DbToSave) :
    Sturdy (s.unlink c id) (· = c) ∧ ((s.unlink c id).cell c).dirty = true ∧
      (∀ q, InTree (s.unlink c id) q ↔ InTree s q ∧ ¬ (n, id) :: c <:+ q) ∧ (∀ q, ((s.unlink c id).pack q).data = (s.pack q).data) ∧
      Prunes (s, d) (s.unlink c id, d.del (getDbId ((n, id) :: c))) := by
  obtain ⟨hc, hn, hid⟩ := inTree_cons.1 hl
  set t := s.unlink c id with ht
  have hself : t.cell c = (s.cell c).without id := by simp [ht, Store.unlink]
  have hother : ∀ q, q ≠ c → t.cell q = s.cell q := fun q hq => by simp [ht, Store.unlink, hq]
  have hderef : t.deref = s.deref := by simp [ht, Store.unlink]
  have hgen : ∀ q i, (q = c → i ≠ id) → (t.cell q).gen i = (s.cell q).gen i := by
    intro q i hi
    by_cases he : q = c
    · subst he
      have hne : id ≠ i := fun he => hi rfl he.symm
      rw [hself]
      simp [Cell.gen, StdMap.getElem?_insert, hne]
    · rw [hother q he]
  have hdirty : ∀ q, (t.cell q).dirty = (s.cell q).dirty := by
    intro q
    by_cases he : q = c
    · rw [he, hself]
      rfl
    · rw [hother q he]
  have hdata : ∀ q, (t.cell q).data = (s.cell q).data := by
    intro q
    by_cases he : q = c
    · rw [he, hself]
      rfl
    · rw [hother q he]
  -- what is left of the hashes
  have hhash : ∀ q i x, (t.cell q).hashes[i]? = some x →
      (q = c → i ≠ id) ∧ (s.cell q).hashes[i]? = some x ∧ (i ∈ (t.cell q).ptrs ↔ i ∈ (s.cell q).ptrs) := by
    intro q i x hx
    by_cases he : q = c
    · subst he
      rw [hself] at hx ⊢
      simp only [Cell.without_hashes, StdMap.getElem?_erase] at hx
      split at hx
      · cases hx
      · rename_i hne
        exact ⟨fun _ hi => hne hi.symm, hx, by simp [hne]⟩
    · rw [hother q he] at hx ⊢
      exact ⟨fun hq => absurd hq he, hx, Iff.rfl⟩
  have hlive : ∀ q, InTree t q ↔ InTree s q ∧ ¬ (n, id) :: c <:+ q := by
    intro q
    constructor
    · intro hq
      induction q with
      | nil => exact ⟨inTree_nil s, by simp⟩
      | cons y q ih =>
        obtain ⟨m, i⟩ := y
        obtain ⟨hlq, hm, hi⟩ := inTree_cons.1 hq
        obtain ⟨h1, h2⟩ := ih hlq
        obtain ⟨x, hx⟩ := (StdMap.mem_iff _ _).1 hi
        obtain ⟨h3, h4, -⟩ := hhash q i x hx
        rw [hgen q i h3] at hm
        refine ⟨inTree_cons.2 ⟨h1, hm, (StdMap.mem_iff _ _).2 ⟨x, h4⟩⟩, fun hs => ?_⟩
        rcases List.suffix_cons_iff.1 hs with he | hs
        · simp only [List.cons.injEq, Prod.mk.injEq] at he
          exact h3 he.2.symm he.1.2.symm
        · exact h2 hs
    · rintro ⟨hq, hs⟩
      refine hq.mono fun a i ha hsuf => ?_
      have hne : a = c → i ≠ id := by
        rintro rfl rfl
        exact hs (hl.eq_child ▸ hsuf)
      refine ⟨hgen a i hne, ?_⟩
      have hi := (inTree_cons.1 (hq.suffix hsuf)).2.2
      by_cases he : a = c
      · subst he
        rw [hself]
        exact (StdMap.mem_erase _ _ _).2 ⟨fun he => hne rfl he.symm, hi⟩
      · rwa [hother a he]
  have hchild : ∀ q i, (q = c → i ≠ id) → t.child q i = s.child q i := by
    intro q i hi
    rw [child, hgen q i hi, ← child]
  have hpd : ∀ q, (t.pack q).data = (s.pack q).data := by
    intro q
    simp [pack, hdata, hderef]
  -- the parent is marked, as the child is
  have hcd : (s.cell c).dirty = true := by
    obtain ⟨x, hx⟩ := (StdMap.mem_iff _ _).1 hid
    rcases h.marked c id x List.nil_suffix hc hx with ⟨-, h2, -⟩ | ⟨h1, -⟩
    · exact h2
    · rw [← hl.eq_child, hd] at h1
      cases h1
  refine ⟨⟨(h.coherent.unlink c id).coherent, fun q i x _ hq hx => ?_,
    ⟨fun q hq => ?_, fun q hq hqlen _ => ?_, fun q hq hqlen => ?_,
    fun q hq hqlen hne hqc => ?_⟩, fun q i x hq hx hp => ?_⟩, by rw [hdirty, hcd], hlive, hpd, fun q hq =>
      ((hlive q).1 hq).1, fun q i x _ hx => (hhash q i x hx).2.1,
    fun q hq => ?_, rfl, fun p hp => ?_, fun p hp => ?_, by simp [ht, Store.unlink]⟩
  · obtain ⟨hi, hx, hp⟩ := hhash q i x hx
    have he := h.marked q i x List.nil_suffix ((hlive q).1 hq).1 hx
    unfold Edge at he ⊢
    rw [hchild q i hi, hdirty, hdirty, hp]
    by_cases hqc : s.child q i = c
    · rcases he with he | ⟨h1, -⟩
      · exact .inl he
      · rw [hqc, hcd] at h1
        cases h1
    · have hpack : t.pack (s.child q i) = s.pack (s.child q i) := by
        simp [pack, hother _ hqc, hderef]
      rw [hpack]
      exact he
  · exact h.shaped.depth q ((hlive q).1 hq).1
  · rw [hdata]
    exact h.shaped.leaf q ((hlive q).1 hq).1 hqlen fun he => ((hlive q).1 hq).2 (he ▸ List.suffix_refl _)
  · rw [hdata]
    exact h.shaped.inner q ((hlive q).1 hq).1 hqlen
  · rw [hother q hqc]
    exact h.shaped.full q ((hlive q).1 hq).1 hqlen hne fun he => ((hlive q).1 hq).2 (he ▸ List.suffix_refl _)
  · obtain ⟨-, hx, hp'⟩ := hhash q i x hx
    exact h.backed q i x ((hlive q).1 hq).1 hx fun hi => hp (hp'.2 hi)
  · -- there is nothing below the cell
    by_cases hs : (n, id) :: c <:+ q
    · by_cases he : q = (n, id) :: c
      · exact .inr (by simp [DbToSave.del, he])
      · obtain ⟨i, hi, -⟩ := hq.exists_child hs he
        rw [hempty] at hi
        simp at hi
    · exact .inl ((hlive q).2 ⟨hq, hs⟩)
  · simp only [DbToSave.del, Std.ExtTreeSet.mem_insert, Std.LawfulEqCmp.compare_eq_iff_eq] at hp
    rcases hp with rfl | hp
    · exact .inr fun q hq he => ((hlive q).1 hq).2 (((hlive q).1 hq).1.unique hl he ▸ List.suffix_refl _)
    · exact .inl hp
  · simp only [DbToSave.del, Std.ExtTreeSet.mem_insert]
    exact .inr hp

/-- Cells above the leaves that have no children are taken out. -/
theorem Sturdy.prune {c : CellPtr} (h : Sturdy s (· = c)) (hh : Mirrors s L) (hc : InTree s c) (hd : (s.cell c).dirty = true)
    (hlen : c.length < 5) (d : DbToSave) :
    Intact (Store.prune c (s, d)).1 ∧ Mirrors (Store.prune c (s, d)).1 L ∧ Prunes (s, d) (Store.prune c (s, d)) := by
  induction c generalizing s d with
  | nil =>
    refine ⟨h.strict fun a _ ha => ?_, hh, .refl _⟩
    subst ha
    exact ⟨fun h5 => by simp at h5, fun _ hne => absurd rfl hne⟩
  | cons y c ih =>
    obtain ⟨n, id⟩ := y
    rw [List.length_cons] at hlen
    unfold Store.prune
    split
    · rename_i hempty
      have hempty : (s.cell ((n, id) :: c)).hashes = ∅ := Std.ExtTreeMap.isEmpty_iff.1 hempty
      obtain ⟨h1, h2, h3, h4, h5⟩ := h.unlink hc hd hempty d
      have htail : InTree (s.unlink c id) c := (h3 c).2 ⟨(inTree_cons.1 hc).1, fun hs => by simpa using hs.length_le⟩
      have hsame : Mirrors (s.unlink c id) L := by
        refine hh.congr (fun q hq => ⟨fun hl => ((h3 q).1 hl).1, fun hl => (h3 q).2 ⟨hl, fun hs => ?_⟩⟩) fun q _ _ => h4 q
        -- a leaf below the cell would be below a child
        obtain ⟨i, hi, -⟩ := hl.exists_child hs fun he => by
          rw [he, List.length_cons] at hq
          omega
        rw [hempty] at hi
        simp at hi
      obtain ⟨h6, h7, h8⟩ := ih h1 hsame htail h2 (by omega) (d.del (getDbId ((n, id) :: c)))
      exact ⟨h6, h7, h5.trans h8⟩
    · rename_i hne
      refine ⟨h.strict fun a _ ha => ?_, hh, .refl _⟩
      subst ha
      refine ⟨fun h5 => by simp only [List.length_cons] at h5; omega, fun _ _ => ?_⟩
      by_contra hno
      exact hne (Std.ExtTreeMap.isEmpty_iff.2 (Std.ExtTreeMap.eq_empty_iff_forall_not_mem.2 fun i hi => hno ⟨i, hi⟩))

/-- A leaf is deleted. -/
theorem Sturdy.deleteGranule (h : Intact s) (hh : Mirrors s L) {c : CellPtr} (hc : InTree s c) (hlen : c.length = 5) (g : Nat)
    (roll : Bool)
    (d : DbToSave) : Intact (s.deleteGranule ⟨g, c⟩ roll d).1 ∧
      Mirrors (s.deleteGranule ⟨g, c⟩ roll d).1 (fun q => if q = getDbId c then none else L q) ∧
      ∃ u, Accrues s u ∧ Prunes (u, d) (s.deleteGranule ⟨g, c⟩ roll d) := by
  set u := s.setDirty roll c with hu
  have hm := setDirty_marks s roll c
  have hw : Intact u := .of_marks hm (h.coherent.setDirty roll hc.valid).coherent (h.marked.off c) h.shaped h.backed
  have hhu : Mirrors u L := hh.same hm.same
  have hcu : InTree u c := (hm.same.live c).2 hc
  have hdu : (u.cell c).dirty = true := (hm.dirty c).2 (.inr (List.suffix_refl _))
  unfold Store.deleteGranule
  rw [← hu]
  rcases c with _ | ⟨⟨n, id⟩, c⟩
  · simp at hlen
  rw [List.length_cons] at hlen
  have hempty : (u.cell ((n, id) :: c)).hashes = ∅ := hw.hashes_leaf hcu (by rw [List.length_cons, hlen])
  have hleaf : Sturdy u (· = (n, id) :: c) := hw.mono fun _ hf => hf.elim
  obtain ⟨h1, h2, h3, h4, h5⟩ := hleaf.unlink hcu hdu hempty d
  unfold Store.prune
  rw [if_pos (Std.ExtTreeMap.isEmpty_iff.2 hempty)]
  have hless : Mirrors (u.unlink c id) fun q => if q = getDbId ((n, id) :: c) then none else L q := by
    refine ⟨fun q hq hqlen => ?_, fun p hp hn => ?_⟩
    · obtain ⟨hl, hs⟩ := (h3 q).1 hq
      rw [if_neg fun hp => hs (hl.unique hcu hp ▸ List.suffix_refl _), h4]
      exact hhu.payload q hl hqlen
    · by_cases he : p = getDbId ((n, id) :: c)
      · rw [if_pos he]
      · rw [if_neg he]
        refine hhu.absent p hp fun q hq hpath => hn q ((h3 q).2 ⟨hq, fun hs => he ?_⟩) hpath
        have hqlen : q.length = 5 := by rw [← length_getDbId, hpath, hp]
        rw [← hpath, hs.eq_of_length (by rw [List.length_cons, hqlen, hlen])]
  obtain ⟨h6, h7, h8⟩ := h1.prune hless ((h3 c).2 ⟨(inTree_cons.1 hcu).1, fun hs => by simpa using hs.length_le⟩) h2 (by omega)
    (d.del (getDbId ((n, id) :: c)))
  exact ⟨h6, h7, u, .of_marks hm, h5.trans h8⟩

/-! ## Hashing -/

/-- `calc_tree_hash` leaves no mark and every recorded hash right. -/
theorem Sturdy.calcTreeHash (h : Intact s) (hh : Mirrors s L) {d : DbToSave} (hd : d.Coherent) :
    Intact (Store.calcTreeHash treeLevels [] (s, d)).1 ∧ Mirrors (Store.calcTreeHash treeLevels [] (s, d)).1 L ∧
      (Store.calcTreeHash treeLevels [] (s, d)).2.Coherent ∧ Hashed (Store.calcTreeHash treeLevels [] (s, d)).1 [] := by
  obtain ⟨h1, h2⟩ := calcTreeHash_hashed treeLevels [] (s, d) (inTree_nil s) h.marked
    (fun p hp => by have := h.shaped.depth p hp; simp only [treeLevels, List.length_nil]; omega) h.coherent.ptrs
  obtain ⟨h3, h4⟩ := h.coherent.calcTreeHash treeLevels [] (x := (s, d)) hd
  set t := (Store.calcTreeHash treeLevels [] (s, d)).1 with ht
  have hpack : ∀ q, (t.pack q).data = (s.pack q).data := by
    intro q
    simp [pack, h1.data, h1.deref]
  refine ⟨⟨h3.coherent, h2.marked, ⟨fun q hq => ?_, fun q hq hqlen he => ?_, fun q hq hqlen => ?_, fun q hq hqlen hne he => ?_⟩,
    fun q i x hq hx hp => ?_⟩, hh.congr (fun q _ => h1.live q) fun q _ _ => hpack q, h4, h2⟩
  · exact h.shaped.depth q ((h1.live q).1 hq)
  · rw [h1.data]
    exact h.shaped.leaf q ((h1.live q).1 hq) hqlen he
  · rw [h1.data]
    exact h.shaped.inner q ((h1.live q).1 hq) hqlen
  · obtain ⟨i, hi⟩ := h.shaped.full q ((h1.live q).1 hq) hqlen hne he
    exact ⟨i, (h1.keys q i).2 hi⟩
  · rw [h1.db]
    rw [h1.ptrs] at hp
    rw [h1.unloaded q i hp] at hx
    exact h.backed q i x ((h1.live q).1 hq) hx hp

/-- There is a leaf below every cell of the tree other than the root. -/
theorem Sturdy.below (h : Intact s) (hh : Mirrors s L) (n : Nat) {c : CellPtr} (hc : InTree s c) (hne : c ≠ [])
    (hlen : c.length + n = 5) :
    Merkle.Below L n (getDbId c) := by
  induction n generalizing c with
  | zero =>
    refine ⟨[], rfl, ?_⟩
    rw [List.append_nil, hh.payload c hc hlen]
    simpa [pack] using h.shaped.leaf c hc hlen not_false
  | succ n ih =>
    obtain ⟨id, hid⟩ := h.shaped.full c hc (by omega) hne not_false
    obtain ⟨q, hq, hv⟩ := ih (hc.child hid) (by simp [child]) (by simp only [child, List.length_cons]; omega)
    refine ⟨id :: q, by simp [hq], ?_⟩
    rwa [getDbId_child, List.append_assoc, List.singleton_append] at hv

/-- Where the hashes are right, that of a cell is the digest of the leaves below it. -/
theorem Sturdy.digest (h : Intact s) (hh : Mirrors s L) (hs : Hashed s []) (n : Nat) {c : CellPtr} (hc : InTree s c)
    (hlen : c.length + n = 5) : Merkle.Digest cellScheme L n (getDbId c) (s.pack c).hash := by
  induction n generalizing c with
  | zero =>
    obtain ⟨g, hg⟩ := Option.isSome_iff_exists.1 (h.shaped.leaf c hc hlen not_false)
    have hempty := h.hashes_leaf hc hlen
    have hidx : (s.cell c).idx = (s.deref ⟨g, c⟩).payload.hsh := by
      simpa [Packed.Coherent, pack, hg] using h.coherent.packed c
    refine ⟨s.deref ⟨g, c⟩, ?_, ?_⟩
    · rw [hh.payload c hc hlen]
      simp [pack, hg]
    · simp [cellScheme, leafGranule, pack, hg, hempty, hidx]
  | succ n ih =>
    have hchild : ∀ id, id ∈ (s.cell c).hashes →
        Merkle.Digest cellScheme L n (getDbId c ++ [id]) (s.pack (s.child c id)).hash := by
      intro id hid
      have := ih (hc.child hid) (by simp only [child, List.length_cons]; omega)
      rwa [getDbId_child] at this
    have hnone := h.shaped.inner c hc (by omega)
    have hidx : (s.cell c).idx = .hshEnd := by
      simpa [Packed.Coherent, pack, hnone] using h.coherent.packed c
    refine ⟨(s.cell c).hashes, fun id => ⟨fun hid => ?_, ?_⟩, fun id x hx => ?_, by simp [cellScheme, pack, hnone, hidx]⟩
    · have hb := h.below hh n (hc.child hid) (by simp [child]) (by simp only [child, List.length_cons]; omega)
      rwa [getDbId_child] at hb
    · rintro ⟨q, hq, hv⟩
      -- the leaf is in the tree, so the child is on the way to it
      have hleaf : ∃ a, InTree s a ∧ getDbId a = getDbId c ++ [id] ++ q := by
        by_contra hno
        push Not at hno
        rw [hh.absent _ (by simp only [List.length_append, length_getDbId, List.length_singleton, hq]; omega) hno] at hv
        cases hv
      obtain ⟨a, ha, hpath⟩ := hleaf
      exact (hc.next ha (by rw [hpath, List.append_assoc, List.singleton_append])).1
    · rw [(hs c List.nil_suffix hc).2 id x hx]
      exact hchild id ((StdMap.mem_iff _ _).2 ⟨x, hx⟩)

end Store

end Grain
