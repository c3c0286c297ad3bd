import Grain.Lemmas.LeafTree

/-!
# The collected granules

What `_db_to_save` has collected accounts for the tree (`Accounted`): a recorded hash is that of the granule that was collected
for the child, or of the one in the database if none was, and a leaf of the database that is no longer in the tree is collected as
deleted. The operations keep that, so a write of the collection brings the database to the tree.
-/

namespace Grain

/-- What the database holds at a path once the collection is written. -/
def DbToSave.over (d : DbToSave) (db : StdMap Path Packed) (p : Path) : Option Packed :=
  match d.cells[p]? with
  | some b => some b
  | none => if p ∈ d.deleted then none else db[p]?

section Folds

variable {κ ν : Type} [Ord κ] [Std.TransOrd κ] [Std.LawfulEqOrd κ] [DecidableEq κ]

/-- A list without repeated keys is entered into a map. -/
theorem getElem?_foldl_insert_eq {l : List (κ × ν)} (hl : (l.map (·.1)).Nodup) (m : StdMap κ ν) (a : κ) :
    (∀ v, (a, v) ∈ l → (l.foldl (fun m z => m.insert z.1 z.2) m)[a]? = some v) ∧
      (a ∉ l.map (·.1) → (l.foldl (fun m z => m.insert z.1 z.2) m)[a]? = m[a]?) := by
  induction l generalizing m with
  | nil => exact ⟨fun v hv => absurd hv List.not_mem_nil, fun _ => rfl⟩
  | cons z l ih =>
    obtain ⟨hz, hl⟩ := List.nodup_cons.1 hl
    obtain ⟨h1, h2⟩ := ih hl (m.insert z.1 z.2)
    refine ⟨fun v hv => ?_, fun ha => ?_⟩
    · rcases List.mem_cons.1 hv with rfl | hv
      · rw [List.foldl_cons, h2 hz, StdMap.getElem?_insert, if_pos rfl]
      · exact h1 v hv
    · rw [List.map_cons, List.mem_cons, not_or] at ha
      rw [List.foldl_cons, h2 ha.2, StdMap.getElem?_insert, if_neg fun he => ha.1 he.symm]

theorem getElem?_foldl_erase_eq (l : List κ) (m : StdMap κ ν) (a : κ) :
    (l.foldl (fun m z => m.erase z) m)[a]? = if a ∈ l then none else m[a]? := by
  induction l generalizing m with
  | nil => simp
  | cons z l ih =>
    rw [List.foldl_cons, ih, StdMap.getElem?_erase]
    by_cases hz : z = a
    · simp [hz]
    · by_cases ha : a ∈ l <;> simp [hz, ha, Ne.symm hz]

end Folds

theorem db_writeGranulesBatch (s : Store) (d : DbToSave) (p : Path) : (s.writeGranulesBatch d).db[p]? = d.over s.db p := by
  have hkeys : (d.cells.toList.map (·.1)).Nodup := by
    rw [Std.ExtTreeMap.map_fst_toList_eq_keys]
    exact d.cells.nodup_keys
  obtain ⟨h1, h2⟩ := getElem?_foldl_insert_eq hkeys (d.deleted.toList.foldl (fun m z => m.erase z) s.db) p
  unfold Store.writeGranulesBatch DbToSave.over
  dsimp only
  rcases hp : d.cells[p]? with _ | b
  · have hnot : p ∉ d.cells.toList.map (·.1) := by
      intro hm
      obtain ⟨⟨q, b⟩, hz, rfl⟩ := List.mem_map.1 hm
      rw [Std.ExtTreeMap.mem_toList_iff_getElem?_eq_some.1 hz] at hp
      cases hp
    rw [h2 hnot, getElem?_foldl_erase_eq]
    simp
  · exact h1 b (Std.ExtTreeMap.mem_toList_iff_getElem?_eq_some.2 hp)

namespace Store

variable {s t : Store} {d : DbToSave} {L : LeafMap}

/-- What the database and the collected granules have for a child with a recorded hash. -/
def Traced (db : StdMap Path Packed) (d : DbToSave) (p : Path) (h : Hash) : Prop :=
  h = .empty ∨ (∃ b, d.cells[p]? = some b ∧ b.hash = h) ∨
    (d.cells[p]? = none ∧ p ∉ d.deleted ∧ OnRecord db p ∧ ∃ b, db[p]? = some b ∧ b.hash = h)

/-- The leaves of the tree have payloads and no children. -/
def LeafFull (s : Store) : Prop := ∀ c, InTree s c → c.length = 5 → ∃ o, s.pack c = leafGranule o

theorem Sturdy.leafFull (h : Intact s) : LeafFull s := by
  intro c hc hlen
  obtain ⟨g, hg⟩ := Option.isSome_iff_exists.1 (h.shaped.leaf c hc hlen not_false)
  have hidx : (s.cell c).idx = (s.deref ⟨g, c⟩).payload.hsh := by
    simpa [Packed.Coherent, pack, hg] using h.coherent.packed c
  exact ⟨s.deref ⟨g, c⟩, by simp [leafGranule, pack, hg, hidx, h.hashes_leaf hc hlen]⟩

theorem LeafFull.rehashed (h : LeafFull s) {c : CellPtr} (hr : Rehashed s t c) : LeafFull t := by
  intro q hq hlen
  obtain ⟨o, ho⟩ := h q ((hr.live q).1 hq) hlen
  have hempty : (s.cell q).hashes = ∅ := congrArg Packed.hashes ho
  refine ⟨o, ho ▸ ?_⟩
  have hnone : (t.cell q).hashes = ∅ := by
    refine Std.ExtTreeMap.eq_empty_iff_forall_not_mem.2 fun i hi => ?_
    rw [hr.keys, hempty] at hi
    simp at hi
  simp [pack, hr.idx, hr.data, hr.deref, hempty, hnone]

/-- The database and the collected granules account for the tree. -/
structure Accounted (x : Tree) : Prop where
  recorded : ∀ (c : CellPtr) (id : Nat) (h : Hash), InTree x.1 c → (x.1.cell c).hashes[id]? = some h →
    Traced x.1.db x.2 (getDbId c ++ [id]) h
  gone : ∀ p, p.length = 5 → OnRecord x.1.db p → (∃ c, InTree x.1 c ∧ getDbId c = p) ∨ p ∈ x.2.deleted
  leaf : ∀ (p : Path) (b : Packed), x.2.cells[p]? = some b → p.length = 5 → ∃ o, b = leafGranule o

namespace Accounted

theorem accrues (h : Accounted (s, d)) (hg : Accrues s t) : Accounted (t, d) where
  recorded c id x hc hx := by
    rcases hg.recorded c id x hc hx with rfl | ⟨h1, h2⟩
    · exact .inl rfl
    · have := h.recorded c id x h1 h2
      rwa [← hg.db] at this
  gone p hp hr := by
    rw [hg.db] at hr
    rcases h.gone p hp hr with ⟨c, hc, hpath⟩ | hd
    · exact .inl ⟨c, hg.live c hc, hpath⟩
    · exact .inr hd
  leaf := h.leaf

theorem prunes {x y : Tree} (h : Accounted x) (hp : Prunes x y) : Accounted y where
  recorded c id a hc ha := by
    have hchild : InTree y.1 (y.1.child c id) := hc.child ((StdMap.mem_iff _ _).2 ⟨a, ha⟩)
    rcases h.recorded c id a (hp.live c hc) (hp.recorded c id a hc ha) with h1 | h1 | ⟨h1, h2, h3⟩
    · exact .inl h1
    · rw [← hp.cells] at h1
      exact .inr (.inl h1)
    · rw [← hp.cells] at h1
      rw [← hp.db] at h3
      refine .inr (.inr ⟨h1, fun hd => ?_, h3⟩)
      rcases hp.deleted _ hd with hd | hd
      · exact h2 hd
      · exact hd _ hchild (getDbId_child _ _ _)
  gone p hlen hr := by
    rw [hp.db] at hr
    rcases h.gone p hlen hr with ⟨c, hc, rfl⟩ | hd
    · rcases hp.gone c hc with hc | hd
      · exact .inl ⟨c, hc, rfl⟩
      · exact .inr hd
    · exact .inr (hp.kept p hd)
  leaf p b hb := by
    rw [hp.cells] at hb
    exact h.leaf p b hb

/-- Marks alone are changed. -/
theorem withDirty {x : Tree} (h : Accounted x) (c : CellPtr) (b : Bool) :
    Accounted (x.1.setCell c ((x.1.cell c).withDirty b), x.2) := by
  have hr := rehashed_withDirty x.1 c b
  refine ⟨fun q i a hq ha => h.recorded q i a ((hr.live q).1 hq) ?_, fun p hp ho => ?_, h.leaf⟩
  · by_cases he : q = c
    · subst he
      simpa using ha
    · simpa [he] using ha
  · rcases h.gone p hp ho with ⟨q, hq, hpath⟩ | hd
    · exact .inl ⟨q, (hr.live q).2 hq, hpath⟩
    · exact .inr hd

/-- The granule of a child is collected and its hash recorded. -/
theorem add {x : Tree} (h : Accounted x) (hleaf : LeafFull x.1) {c : CellPtr}
    (hc : InTree x.1 c) {id : Nat} (hid : id ∈ (x.1.cell c).hashes) (hp : id ∈ (x.1.cell c).ptrs) :
    Accounted (x.1.setCell c ((x.1.cell c).withHash id (x.1.pack (x.1.child c id)).hash),
      x.2.add (getDbId (x.1.child c id)) (x.1.pack (x.1.child c id))) := by
  have hr := rehashed_withHash hid hp (x.1.pack (x.1.child c id)).hash
  have hadd : ∀ p, (x.2.add (getDbId (x.1.child c id)) (x.1.pack (x.1.child c id))).cells[p]? =
      if getDbId c ++ [id] = p then some (x.1.pack (x.1.child c id)) else x.2.cells[p]? := by
    intro p
    rw [DbToSave.add, StdMap.getElem?_insert, getDbId_child]
  refine ⟨fun q i a hq ha => ?_, fun p hplen ho => ?_, fun p b hb hplen => ?_⟩
  · have hq := (hr.live q).1 hq
    unfold Traced
    rw [hadd]
    by_cases he : q = c ∧ i = id
    · obtain ⟨rfl, rfl⟩ := he
      rw [if_pos rfl]
      simp only [cell_setCell, if_true, Cell.withHash_hashes, StdMap.getElem?_insert, Option.some.injEq] at ha
      exact .inr (.inl ⟨_, rfl, ha⟩)
    · -- another child is at another path
      have hne : ¬ getDbId c ++ [id] = getDbId q ++ [i] := by
        intro heq
        obtain ⟨h1, h2⟩ := List.append_inj' heq rfl
        exact he ⟨hq.unique hc h1.symm, by simpa using h2.symm⟩
      rw [if_neg hne]
      refine h.recorded q i a hq ?_
      by_cases hqc : q = c
      · subst hqc
        have hid' : id ≠ i := fun hi => he ⟨rfl, hi.symm⟩
        simpa [StdMap.getElem?_insert, hid'] using ha
      · simpa [hqc] using ha
  · rcases h.gone p hplen ho with ⟨q, hq, hpath⟩ | hd
    · exact .inl ⟨q, (hr.live q).2 hq, hpath⟩
    · exact .inr hd
  · rw [hadd] at hb
    split at hb
    · rename_i he
      cases hb
      refine hleaf _ (hc.child hid) ?_
      rw [← length_getDbId, getDbId_child, he, hplen]
    · exact h.leaf p b hb hplen

/-- `calc_tree_hash` collects what it records. -/
theorem calcTreeHash (n : Nat) (c : CellPtr) {x : Tree} (h : Accounted x) (hc : InTree x.1 c)
    (hp : ∀ q id, id ∈ (x.1.cell q).ptrs → id ∈ (x.1.cell q).hashes)
    (hleaf : LeafFull x.1) :
    Rehashed x.1 (Store.calcTreeHash n c x).1 [] ∧ Accounted (Store.calcTreeHash n c x) := by
  induction n generalizing c x with
  | zero => exact ⟨.refl _ _, h⟩
  | succ n ih =>
    have hkeep : ∀ {y z : Tree}, Rehashed y.1 z.1 [] → (∀ q id, id ∈ (y.1.cell q).ptrs → id ∈ (y.1.cell q).hashes) →
        ∀ q id, id ∈ (z.1.cell q).ptrs → id ∈ (z.1.cell q).hashes := by
      intro y z hr hy q id hid
      rw [hr.ptrs] at hid
      exact (hr.keys q id).2 (hy q id hid)
    have hfold : ∀ (l : List Nat) (y : Tree), Accounted y → InTree y.1 c →
        (∀ q id, id ∈ (y.1.cell q).ptrs → id ∈ (y.1.cell q).hashes) →
        LeafFull y.1 → (∀ id ∈ l, id ∈ (y.1.cell c).ptrs) →
        Rehashed y.1 (l.foldl (Store.hashChild (Store.calcTreeHash n) c) y).1 [] ∧
          Accounted (l.foldl (Store.hashChild (Store.calcTreeHash n) c) y) := by
      intro l
      induction l with
      | nil => exact fun y hy _ _ _ _ => ⟨.refl _ _, hy⟩
      | cons id l ihl =>
        intro y hy hcy hpy hly hids
        have hptr := hids id List.mem_cons_self
        have hstep : Rehashed y.1 (Store.hashChild (Store.calcTreeHash n) c y id).1 [] ∧
            Accounted (Store.hashChild (Store.calcTreeHash n) c y id) := by
          obtain ⟨h1, h2⟩ := ih (y.1.child c id) hy (hcy.child (hpy c id hptr)) hpy hly
          unfold Store.hashChild
          dsimp only
          split
          · split
            · set z := Store.calcTreeHash n (y.1.child c id) y with hz
              have hpz : id ∈ (z.1.cell c).ptrs := by rwa [h1.ptrs]
              have hidz : id ∈ (z.1.cell c).hashes := hkeep h1 hpy c id hpz
              have h3 := h2.add (hly.rehashed h1) ((h1.live c).2 hcy) hidz hpz
              rw [h1.child] at h3
              exact ⟨h1.trans ((rehashed_withHash hidz hpz _).above List.nil_suffix), h3⟩
            · exact ⟨h1, h2⟩
          · exact ⟨.refl _ _, hy⟩
        obtain ⟨h1, h2⟩ := hstep
        obtain ⟨h3, h4⟩ := ihl _ h2 ((h1.live c).2 hcy) (hkeep h1 hpy) (hly.rehashed h1) fun i hi => by
          rw [h1.ptrs]
          exact hids i (List.mem_cons_of_mem _ hi)
        exact ⟨h1.trans h3, h4⟩
    unfold Store.calcTreeHash
    split
    · obtain ⟨h1, h2⟩ := hfold (x.1.cell c).ptrs.toList x h hc hp hleaf fun id hid => by simpa using hid
      exact ⟨h1.trans ((rehashed_withDirty _ c false).above List.nil_suffix), h2.withDirty c false⟩
    · exact ⟨.refl _ _, h⟩

end Accounted

end Store

end Grain
