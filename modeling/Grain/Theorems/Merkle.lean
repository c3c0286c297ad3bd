import Grain.Lemmas.LeafTree

/-!
# Incremental hashes and lazy loading

The operations on the tree answer and change what the map of its leaves says (`TreeGood.run`), so how much of a stored tree is in
memory does not show (`runTree_opened`), and the root hash is that of the leaves, whichever cells were hashed before
(`calcTreeHash_scratch`).
-/

namespace Grain

open Store

/-! ## The operations on the map -/

/-- The tree is intact, has the leaves of the map, and files coherent granules. -/
structure TreeGood (x : Tree) (L : LeafMap) : Prop where
  intact : Intact x.1
  holds : Mirrors x.1 L
  dump : x.2.Coherent

/-- One operation answers as the map says and changes the tree as the map. -/
theorem TreeGood.run {x : Tree} {L : LeafMap} (h : TreeGood x L) (o : TreeOp) : o.Answers L (o.run x).1 ∧
    TreeGood (o.run x).2 (o.after L) := by
  obtain ⟨s, d⟩ := x
  obtain ⟨hi, hh, hd⟩ := h
  cases o with
  | look p =>
    obtain ⟨p, hp⟩ := p
    rcases hi.look hh hp with ⟨c, g, -, -, -, hL, hlook⟩ | ⟨hL, hlook⟩
    · refine ⟨?_, ?_⟩
      · simp [TreeOp.run, hlook, TreeOp.Answers, hL]
      · simpa only [TreeOp.run, hlook] using ⟨hi, hh, hd⟩
    · refine ⟨?_, ?_⟩
      · simp [TreeOp.run, hlook, TreeOp.Answers, hL]
      · simpa only [TreeOp.run, hlook] using ⟨hi, hh, hd⟩
  | create p o =>
    obtain ⟨p, hp⟩ := p
    obtain ⟨r, t, hc, h1, h2, -⟩ := hi.create hh hp o
    simp only [TreeOp.run, hc, TreeOp.Answers, true_and]
    exact ⟨h1, h2, hd⟩
  | write p w roll =>
    obtain ⟨p, hp⟩ := p
    rcases hi.look hh hp with ⟨c, g, hl, rfl, hg, hL, hlook⟩ | ⟨hL, hlook⟩
    · simp only [TreeOp.run, hlook, TreeOp.Answers, true_and]
      obtain ⟨h1, h2, -⟩ := hi.assign hh hl (by rw [← length_getDbId, hp]) hg w roll
      exact ⟨h1, h2, hd⟩
    · simp only [TreeOp.run, hlook, TreeOp.Answers, true_and]
      refine ⟨hi, hh.map fun q _ => ?_, hd⟩
      by_cases he : q = p
      · simp [TreeOp.after, he, hL]
      · simp [TreeOp.after, he]
  | replace p o =>
    obtain ⟨p, hp⟩ := p
    obtain ⟨t, hr, h1, h2, -⟩ := hi.replaceLeaf hh hp (b := leafGranule o) rfl rfl rfl
    simp only [TreeOp.run, hr, TreeOp.Answers, true_and]
    exact ⟨h1, h2, hd⟩
  | delete p roll =>
    obtain ⟨p, hp⟩ := p
    rcases hi.look hh hp with ⟨c, g, hl, rfl, hg, hL, hlook⟩ | ⟨hL, hlook⟩
    · simp only [TreeOp.run, hlook, TreeOp.Answers, true_and]
      obtain ⟨h1, h2, -⟩ := Sturdy.deleteGranule hi hh hl (by rw [← length_getDbId, hp]) g roll d
      have hdump := (hi.coherent.deleteGranule (g := ⟨g, c⟩) hl.valid roll d).2
      refine ⟨h1, h2, fun q b hb => hd q b ?_⟩
      rwa [hdump] at hb
    · simp only [TreeOp.run, hlook, TreeOp.Answers, true_and]
      refine ⟨hi, hh.map fun q _ => ?_, hd⟩
      by_cases he : q = p
      · simp [TreeOp.after, he, hL]
      · simp [TreeOp.after, he]
  | hash =>
    obtain ⟨h1, h2, h3, h4⟩ := hi.calcTreeHash hh hd
    exact ⟨⟨_, h1.digest h2 h4 5 (inTree_nil _) rfl, rfl⟩, h1, h2, h3⟩

/-- The map after a sequence of operations. -/
def TreeOp.afterAll (ops : List TreeOp) (L : LeafMap) : LeafMap := ops.foldl (fun L o => o.after L) L

theorem TreeGood.runTree {x : Tree} {L : LeafMap} (h : TreeGood x L) (ops : List TreeOp) :
    TreeGood (Grain.runTree ops x).2 (TreeOp.afterAll ops L) := by
  induction ops generalizing x L with
  | nil => exact h
  | cons o ops ih => exact ih (h.run o).2

/-- Trees with the same leaves answer the same. -/
theorem TreeGood.runTree_eq {x y : Tree} {L : LeafMap} (hx : TreeGood x L) (hy : TreeGood y L) (ops : List TreeOp) :
    (Grain.runTree ops x).1 = (Grain.runTree ops y).1 := by
  induction ops generalizing x y L with
  | nil => rfl
  | cons o ops ih =>
    obtain ⟨hx1, hx2⟩ := hx.run o
    obtain ⟨hy1, hy2⟩ := hy.run o
    simp only [Grain.runTree, hx1.unique hy1, ih hx2 hy2]

/-! ## Stored trees -/

/-- A database in which the tree is stored completely: the root granule is that of the last block, every recorded hash has its
granule, the leaves have payloads and the granules above them have children. -/
structure StoredTree where
  db : StdMap Path Packed
  lastBlock : Option Hash
  coherent : ∀ (p : Path) (b : Packed), db[p]? = some b → b.Coherent
  last : ∀ h, lastBlock = some h → ∃ b, db[([] : Path)]? = some b ∧ b.hash = h
  complete : ∀ p id h, OnRecord db p → (granuleAt db p).hashes[id]? = some h → ∃ b, db[p ++ [id]]? = some b ∧ b.hash = h
  depth : ∀ p, OnRecord db p → p.length ≤ 5
  leaf : ∀ p, OnRecord db p → p.length = 5 → (granuleAt db p).data.isSome
  inner : ∀ p, OnRecord db p → p.length < 5 → (granuleAt db p).data = none
  full : ∀ p, OnRecord db p → p.length < 5 → p ≠ [] → ∃ id, id ∈ (granuleAt db p).hashes

theorem onRecord_empty {p : Path} (h : OnRecord ∅ p) : p = [] := by
  cases h with
  | root => rfl
  | child hp hh => simp [granuleAt] at hh

/-- The empty database. -/
def StoredTree.new : StoredTree where
  db := ∅
  lastBlock := none
  coherent p b hb := by simp at hb
  last h hh := by cases hh
  complete p id h hp hh := by simp [granuleAt] at hh
  depth p hp := by simp [onRecord_empty hp]
  leaf p hp hlen := by simp [onRecord_empty hp] at hlen
  inner p hp hlen := by simp [granuleAt]
  full p hp _ hne := absurd (onRecord_empty hp) hne

/-- `getRoot` for a last block: a root without content if the root granule does not have the block's root hash. -/
def openRoot (db : StdMap Path Packed) (lastBlock : Option Hash) : Store :=
  match lastBlock, db[([] : Path)]? with
  | some h, some b => if h = b.hash then Store.getRoot { db := db } else
    { heap := fun c => if c = [] then some {} else none, db := db }
  | _, _ => Store.getRoot { db := db }

namespace StoredTree

variable (T : StoredTree) (loaded : Path → Bool)

/-- The tree with the cells at the given paths in memory. -/
def opened : Store where
  heap c := if loaded (getDbId c) then
      some { (granuleAt T.db (getDbId c)).toCell with
        ptrs := Std.ExtTreeSet.ofList ((granuleAt T.db (getDbId c)).hashes.keys.filter fun id => loaded (getDbId c ++ [id]))
          compare }
    else none
  db := T.db

/-- The leaves that are stored. -/
noncomputable def leaves : LeafMap := fun p =>
  open Classical in if OnRecord T.db p then (granuleAt T.db p).data else none

theorem opened_cell (c : CellPtr) : ∃ P : StdSet Nat, (T.opened loaded).cell c =
    { (granuleAt T.db (getDbId c)).toCell with ptrs := P } ∧
    ∀ id ∈ P, id ∈ (granuleAt T.db (getDbId c)).hashes := by
  unfold Store.cell opened
  dsimp only
  split
  · refine ⟨_, rfl, fun id hid => ?_⟩
    simp only [Std.ExtTreeSet.mem_ofList, List.contains_eq_mem, List.mem_filter, decide_eq_true_eq] at hid
    simpa using hid.1
  · exact ⟨∅, rfl, fun id hid => by simp at hid⟩

theorem opened_pack (c : CellPtr) : (T.opened loaded).pack c = granuleAt T.db (getDbId c) := by
  obtain ⟨P, hc, -⟩ := T.opened_cell loaded c
  have hderef : ∀ g, (T.opened loaded).deref ⟨g, c⟩ = (granuleAt T.db (getDbId c)).data.getD { payload := .nodelist ∅ } :=
      fun _ => rfl
  unfold Store.pack
  rw [hc]
  rcases hb : granuleAt T.db (getDbId c) with ⟨i, m, _ | o⟩
  · simp [Packed.toCell]
  · simp [Packed.toCell, hderef, hb]

theorem opened_hashes (c : CellPtr) : ((T.opened loaded).cell c).hashes = (granuleAt T.db (getDbId c)).hashes :=
  congrArg Packed.hashes (T.opened_pack loaded c)

theorem opened_gen (c : CellPtr) (id : Nat) : ((T.opened loaded).cell c).gen id = 0 := by
  obtain ⟨P, hc, -⟩ := T.opened_cell loaded c
  simp [hc, Cell.gen, Packed.toCell]

theorem opened_data (c : CellPtr) : ((T.opened loaded).cell c).data = (granuleAt T.db (getDbId c)).data.map fun _ => 0 := by
  obtain ⟨P, hc, -⟩ := T.opened_cell loaded c
  rw [hc]
  rfl

theorem opened_dirty (c : CellPtr) : ((T.opened loaded).cell c).dirty = false := by
  obtain ⟨P, hc, -⟩ := T.opened_cell loaded c
  rw [hc]
  rfl

/-- The cells of the tree are at the recorded paths. -/
theorem onRecord_of_inTree {c : CellPtr} (h : InTree (T.opened loaded) c) : OnRecord T.db (getDbId c) := by
  induction c with
  | nil => exact .root
  | cons y c ih =>
    obtain ⟨n, id⟩ := y
    obtain ⟨hc, -, hid⟩ := inTree_cons.1 h
    rw [T.opened_hashes] at hid
    obtain ⟨x, hx⟩ := (StdMap.mem_iff _ _).1 hid
    rw [getDbId_cons]
    exact (ih hc).child hx

theorem exists_inTree {p : Path} (h : OnRecord T.db p) : ∃ c, InTree (T.opened loaded) c ∧ getDbId c = p := by
  induction h with
  | root => exact ⟨[], inTree_nil _, rfl⟩
  | child hp hh ih =>
    obtain ⟨c, hc, rfl⟩ := ih
    refine ⟨(T.opened loaded).child c _, hc.child ?_, getDbId_child _ _ _⟩
    rw [T.opened_hashes]
    exact (StdMap.mem_iff _ _).2 ⟨_, hh⟩

theorem coherent_granuleAt (p : Path) : (granuleAt T.db p).Coherent := by
  unfold granuleAt
  rcases hb : T.db[p]? with _ | b
  · rfl
  · exact T.coherent p b hb

theorem intact : Intact (T.opened loaded) := by
  refine ⟨⟨fun c => ?_, fun c id hid => ?_, fun e he => ?_, List.nodup_nil, T.coherent⟩, fun c id h _ hc hh => ?_, ⟨fun c hc => ?_,
    fun c hc hlen _ => ?_, fun c hc hlen => ?_, fun c hc hlen hne _ => ?_⟩, fun c id h hc hh _ => ?_⟩
  · rw [T.opened_pack]
    exact T.coherent_granuleAt _
  · obtain ⟨P, hc, hP⟩ := T.opened_cell loaded c
    rw [T.opened_hashes]
    rw [hc] at hid
    exact hP id hid
  · exact absurd he List.not_mem_nil
  · rw [T.opened_hashes] at hh
    obtain ⟨b, hb, rfl⟩ := T.complete _ id h (T.onRecord_of_inTree loaded hc) hh
    refine .inr ⟨T.opened_dirty loaded _, ?_⟩
    rw [T.opened_pack, getDbId_child, granuleAt, hb, Option.getD_some]
  · rw [← length_getDbId]
    exact T.depth _ (T.onRecord_of_inTree loaded hc)
  · rw [T.opened_data]
    simpa using T.leaf _ (T.onRecord_of_inTree loaded hc) (by rw [length_getDbId, hlen])
  · rw [T.opened_data, T.inner _ (T.onRecord_of_inTree loaded hc) (by rwa [length_getDbId]), Option.map_none]
  · rw [T.opened_hashes]
    refine T.full _ (T.onRecord_of_inTree loaded hc) (by rwa [length_getDbId]) fun he => hne ?_
    rw [← List.length_eq_zero_iff, ← length_getDbId, he, List.length_nil]
  · rw [T.opened_hashes] at hh
    exact T.complete _ id h (T.onRecord_of_inTree loaded hc) hh

theorem holds : Mirrors (T.opened loaded) T.leaves := by
  refine ⟨fun c hc _ => ?_, fun p _ hn => ?_⟩
  · rw [T.opened_pack, leaves, if_pos (T.onRecord_of_inTree loaded hc)]
  · rw [leaves, if_neg]
    intro hp
    obtain ⟨c, hc, hpath⟩ := T.exists_inTree loaded hp
    exact hn c hc hpath

theorem good : TreeGood (T.opened loaded, {}) T.leaves := ⟨T.intact loaded, T.holds loaded, fun _ _ hb => by simp at hb⟩

/-- `getRoot` opens a stored tree with nothing but the root read. -/
theorem openRoot_eq : openRoot T.db T.lastBlock = T.opened fun _ => false := by
  unfold openRoot
  split
  · rename_i h b hl hb
    obtain ⟨b', hb', rfl⟩ := T.last h hl
    rw [hb] at hb'
    cases hb'
    rw [if_pos rfl]
    simp [Store.getRoot, opened]
  · simp [Store.getRoot, opened]

end StoredTree

/-- Whatever part of a stored tree is in memory, it answers as the fully loaded tree does, and so does the one that `getRoot` opens.
-/
theorem runTree_opened (T : StoredTree) (loaded : Path → Bool) (ops : List TreeOp) :
    (runTree ops (openRoot T.db T.lastBlock, {})).1 = (runTree ops (T.opened fun _ => true, {})).1 ∧
      (runTree ops (T.opened loaded, {})).1 = (runTree ops (T.opened fun _ => true, {})).1 := by
  rw [T.openRoot_eq]
  exact ⟨(T.good _).runTree_eq (T.good _) ops, (T.good _).runTree_eq (T.good _) ops⟩

/-! ## Hashing from scratch -/

namespace Store

/-- The leaves that are `n` levels below a cell. -/
def leavesBelow (s : Store) : Nat → CellPtr → List (LeafPath × DataObj)
  | 0, c => if h : (getDbId c).length = 5 then ((s.leaf c).map fun d => (⟨getDbId c, h⟩, d.2)).toList else []
  | n + 1, c => (s.cell c).hashes.keys.flatMap fun id => s.leavesBelow n (s.child c id)

/-- The leaves of the tree. -/
def leaves (s : Store) : List (LeafPath × DataObj) := s.leavesBelow 5 []

variable {s : Store} {L : LeafMap}

theorem Mirrors.mem_leavesBelow (hh : Mirrors s L) (n : Nat) {c : CellPtr} (hc : InTree s c) (hlen : c.length + n = 5)
    (p : LeafPath) (o : DataObj) : (p, o) ∈ s.leavesBelow n c ↔ L p = some o ∧ getDbId c <+: p.1 := by
  induction n generalizing c with
  | zero =>
    have hpath : (getDbId c).length = 5 := by rw [length_getDbId]; exact hlen
    have hL := hh.payload c hc hlen
    have hleaf : (s.leaf c).map (·.2) = (s.pack c).data := by
      simp [Store.leaf, pack, Function.comp_def]
    rw [← hleaf] at hL
    unfold leavesBelow
    rw [dif_pos hpath]
    constructor
    · intro hm
      simp only [Option.mem_toList, Option.map_eq_some_iff, Prod.mk.injEq] at hm
      obtain ⟨d, hd, rfl, rfl⟩ := hm
      exact ⟨by rw [hL, hd, Option.map_some], List.prefix_refl _⟩
    · rintro ⟨ho, hs⟩
      have heq : getDbId c = p.1 := hs.eq_of_length (by rw [hpath, p.2])
      rw [← heq, hL, Option.map_eq_some_iff] at ho
      obtain ⟨d, hd, rfl⟩ := ho
      simp only [hd, Option.map_some, Option.mem_toList, Option.some.injEq, Prod.mk.injEq, and_true]
      exact Subtype.ext heq
  | succ n ih =>
    have hchild : ∀ id ∈ (s.cell c).hashes, ((p, o) ∈ s.leavesBelow n (s.child c id) ↔ L p = some o ∧ getDbId c ++ [id] <+:
        p.1) := by
      intro id hid
      rw [ih (hc.child hid) (by simp only [child, List.length_cons]; omega), getDbId_child]
    unfold leavesBelow
    rw [List.mem_flatMap]
    constructor
    · rintro ⟨id, hid, hm⟩
      obtain ⟨ho, hs⟩ := (hchild id (by simpa using hid)).1 hm
      exact ⟨ho, (List.prefix_append _ _).trans hs⟩
    · rintro ⟨ho, ⟨q, hq⟩⟩
      -- the leaf is in the tree, below a child
      obtain ⟨a, ha, hpath⟩ : ∃ a, InTree s a ∧ getDbId a = p.1 := by
        by_contra hno
        push Not at hno
        rw [hh.absent _ p.2 hno] at ho
        cases ho
      rcases q with _ | ⟨id, q⟩
      · have := p.2
        rw [← hq, List.append_nil, length_getDbId] at this
        omega
      · have hid := (hc.next ha (hpath.trans hq.symm)).1
        exact ⟨id, by simpa using hid, (hchild id hid).2 ⟨ho, ⟨q, by rw [← hq, List.append_assoc, List.singleton_append]⟩⟩⟩

theorem Mirrors.mem_leaves (hh : Mirrors s L) (p : LeafPath) (o : DataObj) : (p, o) ∈ s.leaves ↔ L p = some o := by
  rw [leaves, hh.mem_leavesBelow 5 (inTree_nil s) rfl]
  simp

end Store

/-- A tree without leaves, with the root marked. -/
def freshTree : Store := ({} : Store).setDirty false []

/-- The operations that make the given leaves. -/
def creations (l : List (LeafPath × DataObj)) : List TreeOp := l.map fun z => .create z.1 z.2

/-- A tree of new cells alone, with the given leaves. -/
def scratch (l : List (LeafPath × DataObj)) : Store := (runTree (creations l) (freshTree, {})).2.1

theorem cell_freshTree (c : CellPtr) : freshTree.cell c = if c = [] then ({} : Cell).withDirty true else {} := by
  by_cases he : c = [] <;> simp [freshTree, setDirty, Store.mark, he, Store.cell, setCell, granule, Packed.toCell]

theorem hashes_freshTree (c : CellPtr) (id : Nat) : id ∉ (freshTree.cell c).hashes := by
  by_cases he : c = [] <;> simp [cell_freshTree, he]

theorem treeGood_freshTree : TreeGood (freshTree, {}) fun _ => none := by
  have hroot : ∀ c, InTree freshTree c → c = [] := by
    intro c hc
    rcases c with _ | ⟨⟨n, id⟩, c⟩
    · rfl
    · exact absurd (inTree_cons.1 hc).2.2 (hashes_freshTree c id)
  have hempty : ({} : Store).Coherent := by
    refine ⟨fun c => ?_, fun c id hid => ?_, fun e he => by simp at he, List.nodup_nil, fun p b hb => by simp at hb⟩
    · simp [Packed.Coherent, pack, Store.cell, granule, Packed.toCell]
    · simp [Store.cell, granule, Packed.toCell] at hid
  refine ⟨⟨(hempty.setDirty false valid_nil).coherent, fun c id x _ _ hx => ?_,
    ⟨fun c hc => ?_, fun c hc hlen _ => ?_, fun c hc _ => ?_,
    fun c hc _ hne _ => ?_⟩, fun c id x _ hx _ => ?_⟩, ⟨fun c hc hlen => ?_, fun _ _ _ => rfl⟩, fun _ _ hb => by simp at hb⟩
  · exact absurd ((StdMap.mem_iff _ _).2 ⟨x, hx⟩) (hashes_freshTree c id)
  · simp [hroot c hc]
  · simp [hroot c hc] at hlen
  · simp [hroot c hc, cell_freshTree]
  · exact absurd (hroot c hc) hne
  · exact absurd ((StdMap.mem_iff _ _).2 ⟨x, hx⟩) (hashes_freshTree c id)
  · simp [hroot c hc] at hlen

theorem allDirty_freshTree : AllDirty freshTree := by
  intro c hc
  rcases c with _ | ⟨⟨n, id⟩, c⟩
  · exact ((setDirty_marks {} false []).dirty []).2 (.inr (List.suffix_refl _))
  · exact absurd (inTree_cons.1 hc).2.2 (hashes_freshTree c id)

/-- A tree to which leaves are added has no cell that is not marked, if it had none before. -/
theorem TreeGood.allDirty {x : Tree} {L : LeafMap} (h : TreeGood x L) (l : List (LeafPath × DataObj)) (hx : AllDirty x.1) :
    AllDirty (Grain.runTree (creations l) x).2.1 := by
  induction l generalizing x L with
  | nil => exact hx
  | cons z l ih =>
    refine ih (h.run (.create z.1 z.2)).2 ?_
    obtain ⟨r, t, hc, -, -, ht⟩ := h.intact.create h.holds z.1.2 z.2
    simp only [TreeOp.run, hc]
    exact ht.dirty hx

/-- What the map has after leaves of a map were added to another one that agrees with it. -/
theorem afterAll_creations {L : LeafMap} (l : List (LeafPath × DataObj)) {M : LeafMap} (hl : ∀ z ∈ l, L z.1 = some z.2)
    (hM : ∀ q o, M q = some o → L q = some o) :
    (∀ q o, TreeOp.afterAll (creations l) M q = some o → L q = some o) ∧
      ∀ q, (M q).isSome ∨ (∃ z ∈ l, z.1.1 = q) → (TreeOp.afterAll (creations l) M q).isSome := by
  induction l generalizing M with
  | nil => exact ⟨hM, fun q hq => by simpa [TreeOp.afterAll, creations] using hq⟩
  | cons z l ih =>
    have hz := hl z List.mem_cons_self
    obtain ⟨h1, h2⟩ := ih (M := (TreeOp.create z.1 z.2).after M) (fun y hy => hl y (List.mem_cons_of_mem _ hy)) fun q o ho => by
      simp only [TreeOp.after] at ho
      split at ho
      · rename_i he
        subst he
        rcases hq : M z.1.1 with _ | o'
        · rw [hq] at ho
          cases ho
          exact hz
        · rw [hq] at ho
          cases ho
          exact hM _ _ hq
      · exact hM q o ho
    refine ⟨h1, fun q hq => h2 q ?_⟩
    rcases hq with hq | ⟨y, hy, rfl⟩
    · left
      simp only [TreeOp.after]
      split
      · rfl
      · exact hq
    · rcases List.mem_cons.1 hy with rfl | hy
      · left
        simp [TreeOp.after]
      · exact .inr ⟨y, hy, rfl⟩

/-- The tree made of the leaves of a tree has the same map. -/
theorem mirrors_scratch {s : Store} {L : LeafMap} (hh : Mirrors s L) :
    Intact (scratch s.leaves) ∧ Mirrors (scratch s.leaves) L ∧ AllDirty (scratch s.leaves) := by
  have hgood := treeGood_freshTree.runTree (creations s.leaves)
  obtain ⟨h1, h2⟩ := afterAll_creations (L := L) (M := fun _ => none) s.leaves (fun z hz => (hh.mem_leaves z.1 z.2).1 hz)
    fun q o ho => by cases ho
  refine ⟨hgood.intact, hgood.holds.map fun q hq => ?_, treeGood_freshTree.allDirty _ allDirty_freshTree⟩
  rcases ho : L q with _ | o
  · rcases hM : TreeOp.afterAll (creations s.leaves) (fun _ => none) q with _ | o
    · rfl
    · rw [h1 q o hM] at ho
      cases ho
  · have hsome := h2 q (.inr ⟨(⟨q, hq⟩, o), (hh.mem_leaves ⟨q, hq⟩ o).2 ho, rfl⟩)
    obtain ⟨o', ho'⟩ := Option.isSome_iff_exists.1 hsome
    rw [ho', ← h1 q o' ho', ho]

/-- After any operations on a stored tree, however much of it is in memory, `calc_tree_hash` gives the root hash that a tree of new
cells with the same leaves has, all of which are marked and hashed, and every recorded hash is that of the child. -/
theorem calcTreeHash_scratch (T : StoredTree) (loaded : Path → Bool) (ops : List TreeOp) :
    let x := (runTree ops (T.opened loaded, {})).2
    let t := (Store.calcTreeHash treeLevels [] x).1
    let u := scratch x.1.leaves
    (∀ (p : LeafPath) o, (p, o) ∈ x.1.leaves ↔ ∃ d, x.1.look p = .ok (some (o.payload.hsh, some (d, o)))) ∧
      AllDirty u ∧ (t.pack []).hash = ((Store.calcTreeHash treeLevels [] (u, {})).1.pack []).hash ∧
      ∀ c id h, InTree t c → (t.cell c).hashes[id]? = some h → h = (t.pack (t.child c id)).hash := by
  intro x t u
  have hx := (T.good loaded).runTree ops
  set L := TreeOp.afterAll ops T.leaves
  obtain ⟨h1, h2, -, h3⟩ := hx.intact.calcTreeHash hx.holds hx.dump
  obtain ⟨h4, h5, h6⟩ := mirrors_scratch hx.holds
  obtain ⟨h7, h8, -, h9⟩ := h4.calcTreeHash (d := {}) h5 fun _ _ hb => by simp at hb
  refine ⟨fun p o => ?_, h6, ?_, fun c id h hc => (h3 c List.nil_suffix hc).2 id h⟩
  · rw [hx.holds.mem_leaves]
    rcases hx.intact.look hx.holds p.2 with ⟨c, g, -, -, -, hL, hlook⟩ | ⟨hL, hlook⟩
    · rw [hL]
      constructor
      · intro ho
        cases ho
        exact ⟨_, hlook⟩
      · rintro ⟨d, hd⟩
        rw [hlook] at hd
        simp only [Except.ok.injEq, Option.some.injEq, Prod.mk.injEq] at hd
        rw [hd.2.2]
    · rw [hL]
      constructor
      · exact fun ho => by cases ho
      · rintro ⟨d, hd⟩
        rw [hlook] at hd
        cases hd
  · exact (h1.digest h2 h3 5 (inTree_nil _) rfl).unique (h7.digest h8 h9 5 (inTree_nil _) rfl)

end Grain
