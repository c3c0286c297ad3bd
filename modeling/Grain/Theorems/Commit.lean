import Grain.Lemmas.WriteSet
import Grain.Theorems.Merkle

/-!
# The tree and the database over blocks and restarts

A node changes the tree, writes what it has collected with the block's root hash, and may at any time start again from the
database. For whoever uses the tree that is a map of leaves with a copy of it as of the last block: an operation works on the map,
a block makes the map the copy, a restart makes the copy the map (`runStore_refines`).
-/

namespace Grain

open Store

/-- What happens to the tree: an operation, the end of a block with its write, and a start from the database. -/
inductive StoreStep
  | op (o : TreeOp)
  | block
  | restart

/-- The tree with what is collected, and the root hash of the last block. -/
abbrev NodeTree := Tree × Option Hash

/-- The step on the cells and the database. -/
def StoreStep.run : StoreStep → NodeTree → TreeAns × NodeTree
  | .op o, (x, last) =>
    let r := o.run x
    (r.1, (r.2, last))
  | .block, (x, _) =>
    let x := Store.calcTreeHash treeLevels [] x
    let h := (x.1.pack []).hash
    (.root h, ((x.1.writeGranulesBatch (x.2.add [] (x.1.pack [])), {}), some h))
  | .restart, (x, last) => (.done, ((openRoot x.1.db last, {}), last))

/-- The answers to a list of steps. -/
def runStore : List StoreStep → NodeTree → List TreeAns
  | [], _ => []
  | a :: as, x => (a.run x).1 :: runStore as (a.run x).2

/-! ## The map and its copy -/

/-- The leaves, and the leaves as of the last block. -/
abbrev LeafMaps := LeafMap × LeafMap

/-- The maps after the step. -/
def StoreStep.after : StoreStep → LeafMaps → LeafMaps
  | .op o, (L, C) => (o.after L, C)
  | .block, (L, _) => (L, L)
  | .restart, (_, C) => (C, C)

/-- What the step answers. -/
def StoreStep.Answers : StoreStep → LeafMaps → TreeAns → Prop
  | .op o, (L, _), a => o.Answers L a
  | .block, (L, _), a => TreeOp.hash.Answers L a
  | .restart, _, a => a = .done

/-- The answers to a list of steps. -/
def AnswersAll : List StoreStep → LeafMaps → List TreeAns → Prop
  | [], _, as => as = []
  | a :: l, m, as => ∃ b bs, as = b :: bs ∧ a.Answers m b ∧ AnswersAll l (a.after m) bs

/-! ## The operations -/

/-- An operation keeps the account of the tree, and it does not write to the database. -/
theorem TreeGood.accounted {x : Tree} {L : LeafMap} (h : TreeGood x L) (ha : Accounted x) (o : TreeOp) :
    Accounted (o.run x).2 ∧ (o.run x).2.1.db = x.1.db := by
  obtain ⟨s, d⟩ := x
  obtain ⟨hi, hh, hd⟩ := h
  cases o with
  | look p =>
    obtain ⟨p, hp⟩ := p
    rcases hi.look hh hp with ⟨c, g, -, -, -, -, hlook⟩ | ⟨-, hlook⟩ <;> simpa only [TreeOp.run, hlook, and_true] using ha
  | create p o =>
    obtain ⟨p, hp⟩ := p
    obtain ⟨r, t, hc, -, -, h3⟩ := hi.create hh hp o
    simp only [TreeOp.run, hc]
    exact ⟨ha.accrues h3, h3.db⟩
  | write p w roll =>
    obtain ⟨p, hp⟩ := p
    rcases hi.look hh hp with ⟨c, g, hl, rfl, hg, -, hlook⟩ | ⟨-, hlook⟩
    · simp only [TreeOp.run, hlook]
      obtain ⟨-, -, h3⟩ := hi.assign hh hl (by rw [← length_getDbId, hp]) hg w roll
      exact ⟨ha.accrues h3, h3.db⟩
    · simpa only [TreeOp.run, hlook, and_true] using ha
  | replace p o =>
    obtain ⟨p, hp⟩ := p
    obtain ⟨t, hr, -, -, h3⟩ := hi.replaceLeaf hh hp (b := leafGranule o) rfl rfl rfl
    simp only [TreeOp.run, hr]
    exact ⟨ha.accrues h3, h3.db⟩
  | delete p roll =>
    obtain ⟨p, hp⟩ := p
    rcases hi.look hh hp with ⟨c, g, hl, rfl, -, -, hlook⟩ | ⟨-, hlook⟩
    · simp only [TreeOp.run, hlook]
      obtain ⟨-, -, u, h3, h4⟩ := Sturdy.deleteGranule hi hh hl (by rw [← length_getDbId, hp]) g roll d
      exact ⟨(ha.accrues h3).prunes h4, h4.db.trans h3.db⟩
    · simpa only [TreeOp.run, hlook, and_true] using ha
  | hash =>
    obtain ⟨h1, h2⟩ := ha.calcTreeHash treeLevels [] (inTree_nil s) hi.coherent.ptrs hi.leafFull
    exact ⟨h2, h1.db⟩

/-! ## The write -/

namespace Store

variable {s : Store} {d : DbToSave} {L : LeafMap}

/-- Once everything is hashed and the root is filed, the database after the write has the granules of the tree. -/
theorem Accounted.over (ha : Accounted (s, d)) (hs : Hashed s []) {c : CellPtr} (hc : InTree s c) :
    (d.add [] (s.pack [])).over s.db (getDbId c) = some (s.pack c) := by
  rcases c with _ | ⟨⟨n, id⟩, c⟩
  · simp [DbToSave.over, DbToSave.add, getDbId]
  · obtain ⟨hl, -, hid⟩ := inTree_cons.1 hc
    obtain ⟨h, hh⟩ := (StdMap.mem_iff _ _).1 hid
    have hhash : h = (s.pack ((n, id) :: c)).hash := by
      rw [hc.eq_child]
      exact (hs c List.nil_suffix hl).2 id h hh
    rw [getDbId_cons]
    have hne : ([] : Path) ≠ getDbId c ++ [id] := by simp
    have hadd : (d.add [] (s.pack [])).cells[getDbId c ++ [id]]? = d.cells[getDbId c ++ [id]]? := by
      rw [DbToSave.add, StdMap.getElem?_insert, if_neg hne]
    unfold DbToSave.over
    rw [hadd]
    rcases ha.recorded c id h hl hh with rfl | ⟨b, hb, hbh⟩ | ⟨hnone, hdel, -, b, hb, hbh⟩
    · exact absurd hhash.symm (Packed.hash_ne_empty _)
    · rw [hb, Packed.hash_inj (hbh.trans hhash)]
    · rw [hnone]
      have hkeep : getDbId c ++ [id] ∉ (d.add [] (s.pack [])).deleted := hdel
      dsimp only
      rw [if_neg hkeep, hb, Packed.hash_inj (hbh.trans hhash)]

/-- The tree and the database after a write that leaves the granules of the tree in the database. -/
structure Filed (s t : Store) : Prop where
  cell : ∀ c, InTree s c → t.cell c = s.cell c
  pack : ∀ c, InTree s c → t.pack c = s.pack c
  db : ∀ c, InTree s c → t.db[getDbId c]? = some (s.pack c)

theorem filed_writeGranulesBatch (hd : ∀ c, InTree s c → d.over s.db (getDbId c) = some (s.pack c)) :
    Filed s (s.writeGranulesBatch d) := by
  have hdb : ∀ c, InTree s c → (s.writeGranulesBatch d).db[getDbId c]? = some (s.pack c) := by
    intro c hc
    rw [db_writeGranulesBatch, hd c hc]
  have hboth : ∀ c, InTree s c →
      (s.writeGranulesBatch d).cell c = s.cell c ∧ (s.writeGranulesBatch d).pack c = s.pack c := by
    intro c hc
    by_cases hm : s.inMemory c
    · have hcell : (s.writeGranulesBatch d).cell c = s.cell c := by
        unfold Store.cell
        simp only [Store.writeGranulesBatch, hm, if_true, Option.getD_some]
        rfl
      have hderef : ∀ g, (s.writeGranulesBatch d).deref ⟨g, c⟩ = s.deref ⟨g, c⟩ := by
        intro g
        unfold Store.deref
        simp only [Store.writeGranulesBatch, hm, if_true, Option.getD_some]
        rfl
      exact ⟨hcell, by simp [Store.pack, hcell, hderef]⟩
    · -- the cell is read from the database before the write and after it
      have hnot : s.heap c = none ∧ s.obj ⟨0, c⟩ = none := by
        simpa [Store.inMemory] using hm
      have hgr : s.pack c = s.granule c := by
        have hcell : s.cell c = (s.granule c).toCell := by simp [Store.cell, hnot.1]
        have hobj : s.deref ⟨0, c⟩ = (s.granule c).data.getD { payload := .nodelist ∅ } := by simp [Store.deref, hnot.2]
        unfold Store.pack
        rw [hcell]
        rcases hb : s.granule c with ⟨i, m, _ | o⟩ <;> simp [Packed.toCell, hobj, hb]
      have hgr' : (s.writeGranulesBatch d).granule c = s.granule c := by
        rw [Store.granule, hdb c hc, Option.getD_some, hgr]
      have hcell : (s.writeGranulesBatch d).cell c = s.cell c := by
        have h1 : (s.writeGranulesBatch d).heap c = none := by simp [Store.writeGranulesBatch, hm]
        simp [Store.cell, h1, hnot.1, hgr']
      refine ⟨hcell, ?_⟩
      have hderef : (s.writeGranulesBatch d).deref ⟨0, c⟩ = s.deref ⟨0, c⟩ := by
        have h1 : (s.writeGranulesBatch d).obj ⟨0, c⟩ = none := by simp [Store.writeGranulesBatch, hm, hnot.2]
        simp [Store.deref, h1, hnot.2, hgr']
      have hdata : ∀ g, (s.cell c).data = some g → g = 0 := by
        intro g hg
        have h1 : s.cell c = (s.granule c).toCell := by simp [Store.cell, hnot.1]
        rw [h1] at hg
        simp only [Packed.toCell, Option.map_eq_some_iff] at hg
        exact hg.choose_spec.2.symm
      unfold Store.pack
      rw [hcell]
      rcases hg : (s.cell c).data with _ | g
      · rfl
      · obtain rfl := hdata g hg
        simp [hderef]
  exact ⟨fun c hc => (hboth c hc).1, fun c hc => (hboth c hc).2, hdb⟩

namespace Filed

variable {t : Store}

theorem live (h : Filed s t) (c : CellPtr) : InTree t c ↔ InTree s c := by
  induction c with
  | nil => simp [inTree_nil]
  | cons y c ih =>
    obtain ⟨n, id⟩ := y
    rw [inTree_cons, inTree_cons, ih]
    constructor
    · rintro ⟨hc, hn, hid⟩
      rw [h.cell c hc] at hn hid
      exact ⟨hc, hn, hid⟩
    · rintro ⟨hc, hn, hid⟩
      rw [h.cell c hc]
      exact ⟨hc, hn, hid⟩

theorem granuleAt (h : Filed s t) {c : CellPtr} (hc : InTree s c) : Grain.granuleAt t.db (getDbId c) = s.pack c := by
  rw [Grain.granuleAt, h.db c hc, Option.getD_some]

/-- The paths on record are those of the cells of the tree. -/
theorem onRecord (h : Filed s t) (p : Path) : OnRecord t.db p ↔ ∃ c, InTree s c ∧ getDbId c = p := by
  constructor
  · intro hp
    induction hp with
    | root => exact ⟨[], inTree_nil s, rfl⟩
    | child hp hh ih =>
      obtain ⟨c, hc, rfl⟩ := ih
      rw [h.granuleAt hc] at hh
      exact ⟨s.child c _, hc.child ((StdMap.mem_iff _ _).2 ⟨_, hh⟩), getDbId_child _ _ _⟩
  · rintro ⟨c, hc, rfl⟩
    induction c with
    | nil => exact .root
    | cons y c ih =>
      obtain ⟨n, id⟩ := y
      obtain ⟨hl, -, hid⟩ := inTree_cons.1 hc
      obtain ⟨x, hx⟩ := (StdMap.mem_iff _ _).1 hid
      rw [getDbId_cons]
      refine (ih hl).child (h := x) ?_
      rw [h.granuleAt hl]
      exact hx

/-- The tree after the write. -/
theorem intact (h : Filed s t) (hi : Intact s) (hs : Hashed s []) (hco : t.Coherent) : Intact t where
  coherent := hco
  marked c id x _ hc hx := by
    have hl := (h.live c).1 hc
    rw [h.cell c hl] at hx
    have hchild : t.child c id = s.child c id := by rw [child, h.cell c hl, ← child]
    have hm := hl.child ((StdMap.mem_iff _ _).2 ⟨x, hx⟩)
    unfold Edge
    rw [hchild, h.cell _ hm, h.pack _ hm]
    exact .inr ⟨(hs _ List.nil_suffix hm).1, (hs c List.nil_suffix hl).2 id x hx⟩
  shaped := by
    refine ⟨fun c hc => ?_, fun c hc => ?_, fun c hc => ?_, fun c hc => ?_⟩ <;> have hl := (h.live c).1 hc <;> try rw [h.cell c hl]
    · exact hi.shaped.depth c hl
    · exact hi.shaped.leaf c hl
    · exact hi.shaped.inner c hl
    · exact hi.shaped.full c hl
  backed c id x hc hx _ := by
    have hl := (h.live c).1 hc
    rw [h.cell c hl] at hx
    have hm := hl.child ((StdMap.mem_iff _ _).2 ⟨x, hx⟩)
    refine ⟨s.pack (s.child c id), ?_, ((hs c List.nil_suffix hl).2 id x hx).symm⟩
    rw [← getDbId_child s c id]
    exact h.db _ hm

theorem mirrors (h : Filed s t) (hh : Mirrors s L) : Mirrors t L :=
  hh.congr (fun c _ => h.live c) fun c hc _ => by rw [h.pack c hc]

/-- With nothing collected, the database alone accounts for the tree. -/
theorem accounted (h : Filed s t) (hs : Hashed s []) : Accounted (t, {}) where
  recorded c id x hc hx := by
    have hl := (h.live c).1 hc
    rw [h.cell c hl] at hx
    have hm := hl.child ((StdMap.mem_iff _ _).2 ⟨x, hx⟩)
    refine .inr (.inr ⟨by simp, by simp, ?_, s.pack (s.child c id), ?_, ((hs c List.nil_suffix hl).2 id x hx).symm⟩)
    · exact (h.onRecord _).2 ⟨_, hm, getDbId_child s c id⟩
    · rw [← getDbId_child s c id]
      exact h.db _ hm
  gone p _ hp := by
    obtain ⟨c, hc, rfl⟩ := (h.onRecord p).1 hp
    exact .inl ⟨c, (h.live c).2 hc, rfl⟩
  leaf p b hb := by simp at hb

/-- The tree is stored. -/
def stored (h : Filed s t) (hi : Intact s) (hs : Hashed s []) (hco : t.Coherent) : StoredTree where
  db := t.db
  lastBlock := some (s.pack []).hash
  coherent := hco.db
  last x hx := by
    cases hx
    exact ⟨s.pack [], h.db [] (inTree_nil s), rfl⟩
  complete p id x hp hx := by
    obtain ⟨c, hc, rfl⟩ := (h.onRecord p).1 hp
    rw [h.granuleAt hc] at hx
    have hm := hc.child ((StdMap.mem_iff _ _).2 ⟨x, hx⟩)
    refine ⟨s.pack (s.child c id), ?_, ((hs c List.nil_suffix hc).2 id x hx).symm⟩
    rw [← getDbId_child s c id]
    exact h.db _ hm
  depth p hp := by
    obtain ⟨c, hc, rfl⟩ := (h.onRecord p).1 hp
    rw [length_getDbId]
    exact hi.shaped.depth c hc
  leaf p hp hlen := by
    obtain ⟨c, hc, rfl⟩ := (h.onRecord p).1 hp
    rw [length_getDbId] at hlen
    rw [h.granuleAt hc, pack_data_isSome]
    exact hi.shaped.leaf c hc hlen not_false
  inner p hp hlen := by
    obtain ⟨c, hc, rfl⟩ := (h.onRecord p).1 hp
    rw [length_getDbId] at hlen
    rw [h.granuleAt hc]
    simp [Store.pack, hi.shaped.inner c hc hlen]
  full p hp hlen hne := by
    obtain ⟨c, hc, rfl⟩ := (h.onRecord p).1 hp
    rw [length_getDbId] at hlen
    rw [h.granuleAt hc]
    exact hi.shaped.full c hc hlen (fun he => hne (by rw [he]; rfl)) not_false

theorem leaves_stored (h : Filed s t) (hi : Intact s) (hs : Hashed s []) (hco : t.Coherent) (hh : Mirrors s L) {p : Path}
    (hp : p.length = 5) : (h.stored hi hs hco).leaves p = L p := by
  unfold StoredTree.leaves
  split
  · rename_i hr
    obtain ⟨c, hc, rfl⟩ := (h.onRecord p).1 hr
    rw [length_getDbId] at hp
    rw [hh.payload c hc hp]
    exact congrArg Packed.data (h.granuleAt hc)
  · rename_i hr
    exact (hh.absent p hp fun c hc hpath => hr ((h.onRecord p).2 ⟨c, hc, hpath⟩)).symm

end Filed

end Store

/-! ## Runs -/

theorem StoredTree.accounted (T : StoredTree) (loaded : Path → Bool) : Accounted (T.opened loaded, {}) where
  recorded c id h hc hh := by
    rw [T.opened_hashes] at hh
    have hr := T.onRecord_of_inTree loaded hc
    exact .inr (.inr ⟨by simp, by simp, hr.child hh, T.complete _ id h hr hh⟩)
  gone p _ hp := .inl (T.exists_inTree loaded hp)
  leaf p b hb := by simp at hb

/-- The tree has the leaves of the first map, what is collected accounts for it, and the database has the second map's. -/
structure StoreGood (x : NodeTree) (m : LeafMaps) : Prop where
  good : TreeGood x.1 m.1
  accounted : Accounted x.1
  stored : ∃ T : StoredTree, T.db = x.1.1.db ∧ T.lastBlock = x.2 ∧ ∀ p, p.length = 5 → T.leaves p = m.2 p

theorem StoredTree.storeGood (T : StoredTree) (loaded : Path → Bool) :
    StoreGood ((T.opened loaded, {}), T.lastBlock) (T.leaves, T.leaves) :=
  ⟨T.good loaded, T.accounted loaded, T, rfl, rfl, fun _ _ => rfl⟩

/-- One step answers as the maps say and changes the tree and the database as the maps. -/
theorem StoreGood.run {x : NodeTree} {m : LeafMaps} (h : StoreGood x m) (a : StoreStep) :
    a.Answers m (a.run x).1 ∧ StoreGood (a.run x).2 (a.after m) := by
  obtain ⟨⟨s, d⟩, last⟩ := x
  obtain ⟨L, C⟩ := m
  obtain ⟨hg, ha, T, hdb, hlast, hC⟩ := h
  cases a with
  | op o =>
    obtain ⟨h1, h2⟩ := hg.run o
    obtain ⟨h3, h4⟩ := hg.accounted ha o
    exact ⟨h1, h2, h3, T, hdb.trans h4.symm, hlast, hC⟩
  | block =>
    obtain ⟨h1, h2⟩ := hg.run .hash
    obtain ⟨h3, -⟩ := hg.accounted ha .hash
    obtain ⟨-, -, -, hs⟩ := hg.intact.calcTreeHash hg.holds hg.dump
    simp only [StoreStep.run, StoreStep.Answers, StoreStep.after]
    refine ⟨h1, ?_⟩
    simp only [TreeOp.run] at h2 h3
    generalize Store.calcTreeHash treeLevels [] (s, d) = x at h2 h3 hs
    obtain ⟨t, e⟩ := x
    have hdump : (e.add [] (t.pack [])).Coherent := h2.dump.add (h2.intact.coherent.packed [])
    have hf : Store.Filed t (t.writeGranulesBatch (e.add [] (t.pack []))) := filed_writeGranulesBatch fun c hc => h3.over hs hc
    have hco := h2.intact.coherent.writeGranulesBatch hdump
    exact ⟨⟨hf.intact h2.intact hs hco, hf.mirrors h2.holds, fun p b hb => by simp at hb⟩, hf.accounted hs,
      hf.stored h2.intact hs hco, rfl, rfl,
      fun p hp => hf.leaves_stored h2.intact hs hco h2.holds hp⟩
  | restart =>
    simp only [StoreStep.run, StoreStep.Answers, StoreStep.after, true_and]
    obtain rfl := hlast
    dsimp only at hdb
    rw [← hdb, T.openRoot_eq]
    obtain ⟨h1, h2, h3⟩ := T.good fun _ => false
    exact ⟨⟨h1, h2.map fun p hp => (hC p hp).symm, h3⟩, T.accounted _, T, rfl, rfl, hC⟩

/-- Over operations, blocks and restarts in any order, the tree answers as a map of leaves does that every block copies and every
restart takes back from the copy; how much of the tree is in memory does not show. -/
theorem runStore_refines (T : StoredTree) (loaded : Path → Bool) (steps : List StoreStep) :
    AnswersAll steps (T.leaves, T.leaves) (runStore steps ((T.opened loaded, {}), T.lastBlock)) := by
  have hrun : ∀ (l : List StoreStep) (x : NodeTree) (m : LeafMaps), StoreGood x m → AnswersAll l m (runStore l x) := by
    intro l
    induction l with
    | nil => exact fun _ _ _ => rfl
    | cons a l ih =>
      intro x m h
      obtain ⟨h1, h2⟩ := h.run a
      exact ⟨_, _, rfl, h1, ih _ _ h2⟩
  exact hrun steps _ _ (T.storeGood loaded)

end Grain
