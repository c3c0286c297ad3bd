import Grain.Client
import Grain.Lib.Codec
import Grain.Theorems.Commit

/-!
# Following a block by its written leaves

A node that has executed a block sends the leaves it has collected, written and deleted. The nodes that follow delete and replace
these leaves and compare the root hashes. They arrive at the same hash exactly if no leaf is collected as written that the block
has deleted after that (`applyBlock_follows`): the deletions are applied first.
-/

namespace Grain

open Prog Store

variable {Γ : NodeCtx}

theorem cellScheme_injective : cellScheme.Injective where
  leaf v w h := by
    have := Packed.hash_inj h
    simp only [leafGranule, Packed.mk.injEq, Option.some.injEq] at this
    exact this.2.2
  node m m' h := by
    have := Packed.hash_inj h
    simpa using this

/-! ## The loops as operations -/

/-- The deletion of the leaf with a 32-byte key. -/
def deleteOp (Γ : Ctx) (z : String) : TreeOp := .delete ⟨Γ.pathFromHash z, Γ.pathFromHash_length z⟩ true

/-- The replacement of the leaf with a 32-byte key. -/
def replaceOp (Γ : Ctx) (z : String × DataObj) : TreeOp := .replace ⟨Γ.pathFromHash z.1, Γ.pathFromHash_length z.1⟩ z.2

theorem run_keyPath {z : String} (hz : z.length = 32) (s : St) :
    run (exec Γ.ctx) (keyPath Γ.ctx z) s = (.ok (Γ.ctx.pathFromHash z), s) := by
  simp [keyPath, Eff.raiseIf, hz, run_bind]

/-- The deletions change the tree as the operations do. -/
theorem run_applyDeleted {s : St} {L : LeafMap} (h : TreeGood (s.store, s.dbToSaveZ) L) {l : List String}
    (hl : ∀ z ∈ l, z.length = 32) :
    ∃ t, runEff Γ.ctx (applyDeleted Γ.ctx l) s = (.ok (), t) ∧
      (t.store, t.dbToSaveZ) = (runTree (l.map (deleteOp Γ.ctx)) (s.store, s.dbToSaveZ)).2 := by
  induction l generalizing s L with
  | nil => exact ⟨s, rfl, rfl⟩
  | cons z l ih =>
    have hz := hl z List.mem_cons_self
    obtain ⟨-, h1⟩ := h.run (deleteOp Γ.ctx z)
    have hlook : ∀ r, s.store.look (Γ.ctx.pathFromHash z) = .ok r →
        run (exec Γ.ctx) (Eff.look (Γ.ctx.pathFromHash z)) s = (.ok r, s) := by
      intro r hr
      simp [Eff.look, Eff.op, run_bind, exec, St.lookup, hr]
    have hrun : ∀ u, runEff Γ.ctx (applyDeleted Γ.ctx (z :: l)) s = runEff Γ.ctx (applyDeleted Γ.ctx l) u →
        (u.store, u.dbToSaveZ) = ((deleteOp Γ.ctx z).run (s.store, s.dbToSaveZ)).2 →
        ∃ t, runEff Γ.ctx (applyDeleted Γ.ctx (z :: l)) s = (.ok (), t) ∧
          (t.store, t.dbToSaveZ) = (runTree ((z :: l).map (deleteOp Γ.ctx)) (s.store, s.dbToSaveZ)).2 := by
      intro u hu hop
      rw [← hop] at h1
      obtain ⟨t, h2, h3⟩ := ih h1 fun y hy => hl y (List.mem_cons_of_mem _ hy)
      refine ⟨t, hu.trans h2, ?_⟩
      rw [List.map_cons, runTree, ← hop]
      exact h3
    rcases h.intact.look h.holds (Γ.ctx.pathFromHash_length z) with ⟨c, g, -, -, -, -, hr⟩ | ⟨-, hr⟩
    · refine hrun (s.withDump .saveZ fun x => x.1.deleteGranule ⟨g, c⟩ true x.2) ?_ ?_
      · rw [applyDeleted, runEff, run_bind_ok _ (run_keyPath hz s), run_bind_ok _ (hlook _ hr), runEff]
        simp [Eff.deleteGranule, Eff.op, run_bind, exec]
      · simp [deleteOp, TreeOp.run, hr, St.withDump]
    · refine hrun s ?_ ?_
      · rw [applyDeleted, runEff, run_bind_ok _ (run_keyPath hz s), run_bind_ok _ (hlook _ hr), runEff]
      · simp [deleteOp, TreeOp.run, hr]

/-- The replacements change the tree as the operations do. -/
theorem run_applyDiffs {s : St} {L : LeafMap} (h : TreeGood (s.store, s.dbToSaveZ) L) {l : List (String × DataObj)}
    (hl : ∀ z ∈ l, z.1.length = 32 ∧ Γ.unpackMx (Γ.packMx (leafGranule z.2)) = some (leafGranule z.2)) :
    ∃ t, runEff Γ.ctx (applyDiffs Γ (l.map fun z => (z.1, Γ.packMx (leafGranule z.2)))) s = (.ok (), t) ∧
      (t.store, t.dbToSaveZ) = (runTree (l.map (replaceOp Γ.ctx)) (s.store, s.dbToSaveZ)).2 := by
  induction l generalizing s L with
  | nil => exact ⟨s, rfl, rfl⟩
  | cons z l ih =>
    obtain ⟨hz, hu⟩ := hl z List.mem_cons_self
    obtain ⟨-, h1⟩ := h.run (replaceOp Γ.ctx z)
    obtain ⟨t, hr, -, -, -⟩ := h.intact.replaceLeaf h.holds (Γ.ctx.pathFromHash_length z.1) (b := leafGranule z.2) rfl rfl rfl
    have hop : (({ s with store := t } : St).store, ({ s with store := t } : St).dbToSaveZ) =
        ((replaceOp Γ.ctx z).run (s.store, s.dbToSaveZ)).2 := by
      simp [replaceOp, TreeOp.run, hr]
    rw [← hop] at h1
    obtain ⟨u, h2, h3⟩ := ih h1 fun y hy => hl y (List.mem_cons_of_mem _ hy)
    refine ⟨u, ?_, ?_⟩
    · rw [← h2]
      have hstep : run (exec Γ.ctx) (replaceLeaf Γ (Γ.ctx.pathFromHash z.1) (Γ.packMx (leafGranule z.2))) s =
          (.ok (), { s with store := t }) := by
        simp [replaceLeaf, hu, Eff.op, run_bind, exec, St.lookup, hr]
      rw [List.map_cons]
      rw [applyDiffs, runEff, run_bind_ok _ (run_keyPath hz s), run_bind_ok _ hstep, runEff]
    · rw [List.map_cons, runTree, ← hop]
      exact h3

/-! ## The maps -/

theorem after_deletes (l : List String) (L : LeafMap) (q : Path) :
    TreeOp.afterAll (l.map (deleteOp Γ.ctx)) L q = if q ∈ l.map Γ.ctx.pathFromHash then none else L q := by
  induction l generalizing L with
  | nil => simp [TreeOp.afterAll]
  | cons z l ih =>
    have hstep : TreeOp.afterAll ((z :: l).map (deleteOp Γ.ctx)) L =
        TreeOp.afterAll (l.map (deleteOp Γ.ctx)) ((deleteOp Γ.ctx z).after L) := rfl
    rw [hstep, ih]
    by_cases hq : q ∈ l.map Γ.ctx.pathFromHash
    · rw [if_pos hq, List.map_cons, if_pos (List.mem_cons_of_mem _ hq)]
    · rw [if_neg hq]
      simp only [deleteOp, TreeOp.after]
      by_cases he : q = Γ.ctx.pathFromHash z
      · rw [if_pos he, List.map_cons, he, if_pos List.mem_cons_self]
      · rw [if_neg he, if_neg]
        rw [List.map_cons, List.mem_cons, not_or]
        exact ⟨he, hq⟩

theorem after_replaces (l : List (String × DataObj)) (L : LeafMap) (q : Path) :
    (∃ z ∈ l, Γ.ctx.pathFromHash z.1 = q ∧ TreeOp.afterAll (l.map (replaceOp Γ.ctx)) L q = some z.2) ∨
      (∀ z ∈ l, Γ.ctx.pathFromHash z.1 ≠ q) ∧ TreeOp.afterAll (l.map (replaceOp Γ.ctx)) L q = L q := by
  induction l generalizing L with
  | nil => exact .inr ⟨fun z hz => absurd hz List.not_mem_nil, rfl⟩
  | cons z l ih =>
    have hstep : TreeOp.afterAll ((z :: l).map (replaceOp Γ.ctx)) L =
        TreeOp.afterAll (l.map (replaceOp Γ.ctx)) ((replaceOp Γ.ctx z).after L) := rfl
    rw [hstep]
    rcases ih ((replaceOp Γ.ctx z).after L) with ⟨y, hy, hp, hv⟩ | ⟨hn, hv⟩
    · exact .inl ⟨y, List.mem_cons_of_mem _ hy, hp, hv⟩
    · rw [hv]
      simp only [replaceOp, TreeOp.after]
      by_cases he : q = Γ.ctx.pathFromHash z.1
      · exact .inl ⟨z, List.mem_cons_self, he.symm, by rw [if_pos he]⟩
      · refine .inr ⟨fun y hy => ?_, by rw [if_neg he]⟩
        rcases List.mem_cons.1 hy with rfl | hy
        · exact fun hp => he hp.symm
        · exact hn y hy

/-! ## What is sent -/

/-- The bytes of the leaves in a write set, and of their keys, decode. -/
structure NodeCtx.Codes (Γ : NodeCtx) (d : DbToSave) : Prop where
  key : ∀ p : Path, p ∈ d.cells ∨ p ∈ d.deleted → p.length = 5 → (Γ.keyBytes p).length = 32 ∧ Γ.ctx.pathFromHash (Γ.keyBytes p) = p
  body : ∀ (p : Path) (b : Packed), d.cells[p]? = some b → p.length = 5 → Γ.unpackMx (Γ.packMx b) = some b

variable {d : DbToSave}

theorem mem_deleted_diffsOf (z : String) : z ∈ (diffsOf Γ d).deleted.toList ↔ ∃ p ∈ d.deleted, p.length = 5 ∧ z = Γ.keyBytes p := by
  have hfold : (diffsOf Γ d).deleted = ((d.deleted.toList.filter fun p => p.length = 5).map Γ.keyBytes).foldl
      (fun m z => m.insert z) ∅ := by
    rw [List.foldl_map]
    rfl
  rw [Std.ExtTreeSet.mem_toList, hfold, Codec.mem_foldl_insert]
  simp [and_assoc, eq_comm]

theorem mem_diffs_diffsOf (hc : Γ.Codes d) (z : String × String) :
    z ∈ (diffsOf Γ d).diffs.toList ↔ ∃ p b, d.cells[p]? = some b ∧ p.length = 5 ∧ z = (Γ.keyBytes p, Γ.packMx b) := by
  set l := (d.cells.toList.filter fun x => x.1.length = 5).map fun x => (Γ.keyBytes x.1, Γ.packMx x.2) with hl
  have hfold : (diffsOf Γ d).diffs = l.foldl (fun m z => m.insert z.1 z.2) ∅ := by
    rw [hl, List.foldl_map]
    rfl
  have hmem : ∀ y, y ∈ l ↔ ∃ p b, d.cells[p]? = some b ∧ p.length = 5 ∧ y = (Γ.keyBytes p, Γ.packMx b) := by
    intro y
    simp only [hl, List.mem_map, List.mem_filter, decide_eq_true_eq, Prod.exists, Std.ExtTreeMap.mem_toList_iff_getElem?_eq_some]
    constructor
    · rintro ⟨p, b, ⟨hb, hp⟩, rfl⟩
      exact ⟨p, b, hb, hp, rfl⟩
    · rintro ⟨p, b, hb, hp, rfl⟩
      exact ⟨p, b, ⟨hb, hp⟩, rfl⟩
  -- different leaves have different keys
  have hnodup : (l.map (·.1)).Nodup := by
    rw [hl, List.map_map]
    have hkeys : ((d.cells.toList.filter fun x => x.1.length = 5).map (·.1)).Nodup := by
      refine List.Nodup.sublist (List.filter_sublist.map _) ?_
      rw [Std.ExtTreeMap.map_fst_toList_eq_keys]
      exact d.cells.nodup_keys
    have hinj : ∀ x ∈ d.cells.toList.filter fun x => x.1.length = 5, Γ.ctx.pathFromHash (Γ.keyBytes x.1) = x.1 := by
      intro x hx
      obtain ⟨hx, hp⟩ := List.mem_filter.1 hx
      have hin := Std.ExtTreeMap.mem_toList_iff_getElem?_eq_some.1 hx
      exact (hc.key x.1 (.inl ((StdMap.mem_iff _ _).2 ⟨_, hin⟩)) (by simpa using hp)).2
    refine List.Nodup.of_map Γ.ctx.pathFromHash ?_
    rw [List.map_map]
    have heq : (d.cells.toList.filter fun x => x.1.length = 5).map
        (Γ.ctx.pathFromHash ∘ ((·.1) ∘ fun x => (Γ.keyBytes x.1, Γ.packMx x.2))) =
        (d.cells.toList.filter fun x => x.1.length = 5).map (·.1) := List.map_congr_left hinj
    rwa [heq]
  rw [← hmem, Std.ExtTreeMap.mem_toList_iff_getElem?_eq_some, hfold]
  constructor
  · intro h
    rcases getElem?_foldl_insert h with ⟨k, hk, rfl⟩ | h
    · exact hk
    · simp at h
  · exact fun h => (getElem?_foldl_insert_eq hnodup ∅ z.1).1 z.2 h

/-! ## The root hashes -/

/-- The tree and the write set of a node that executes a block. -/
def executed (T : StoredTree) (loaded : Path → Bool) (ops : List TreeOp) : Tree :=
    (runTree (ops ++ [.hash]) (T.opened loaded, {})).2

theorem runTree_append (l l' : List TreeOp) (x : Tree) : (runTree (l ++ l') x).2 = (runTree l' (runTree l x).2).2 := by
  induction l generalizing x with
  | nil => rfl
  | cons o l ih => exact ih (o.run x).2

theorem TreeGood.accountedAll {x : Tree} {L : LeafMap} (h : TreeGood x L) (ha : Accounted x) (ops : List TreeOp) :
    Accounted (Grain.runTree ops x).2 ∧ (Grain.runTree ops x).2.1.db = x.1.db := by
  induction ops generalizing x L with
  | nil => exact ⟨ha, rfl⟩
  | cons o ops ih =>
    obtain ⟨h1, h2⟩ := h.accounted ha o
    obtain ⟨h3, h4⟩ := ih (h.run o).2 h1
    exact ⟨h3, h4.trans h2⟩

/-- A leaf that a block has neither written nor deleted is as before it; a leaf it has written and not deleted since is as sent. -/
structure Shipped (T : StoredTree) (x : Tree) (L : LeafMap) : Prop where
  good : TreeGood x L
  hashed : Hashed x.1 []
  leaf : ∀ (p : Path) b, x.2.cells[p]? = some b → p.length = 5 → ∃ o, b = leafGranule o ∧ (L p = none ∨ L p = some o)
  same : ∀ p : Path, p.length = 5 → x.2.cells[p]? = none → L p = if p ∈ x.2.deleted then none else T.leaves p

theorem executed_shipped (T : StoredTree) (loaded : Path → Bool) (ops : List TreeOp) :
    Shipped T (executed T loaded ops) (TreeOp.afterAll ops T.leaves) := by
  have hx := (T.good loaded).runTree ops
  obtain ⟨h1, h2⟩ := (T.good loaded).accountedAll (T.accounted loaded) ops
  obtain ⟨h3, h4⟩ := hx.accounted h1 .hash
  obtain ⟨-, h5⟩ := hx.run .hash
  obtain ⟨-, -, -, h6⟩ := hx.intact.calcTreeHash hx.holds hx.dump
  have heq : executed T loaded ops = (TreeOp.hash.run (Grain.runTree ops (T.opened loaded, {})).2).2 := by
    rw [executed, runTree_append]
    rfl
  have hdb : (executed T loaded ops).1.db = T.db := by
    rw [heq, h4, h2]
    rfl
  have h5 : TreeGood (TreeOp.hash.run (Grain.runTree ops (T.opened loaded, {})).2).2 (TreeOp.afterAll ops T.leaves) := h5
  rw [← heq] at h3 h5
  have h6 : Hashed (executed T loaded ops).1 [] := by
    rw [heq]
    exact h6
  set x := executed T loaded ops
  -- a leaf of the tree that is collected is collected as it is
  have htree : ∀ {c : CellPtr}, InTree x.1 c → c.length = 5 → (∃ b, x.2.cells[getDbId c]? = some b ∧ b = x.1.pack c) ∨
      (x.2.cells[getDbId c]? = none ∧ getDbId c ∉ x.2.deleted ∧ OnRecord T.db (getDbId c) ∧
      T.db[getDbId c]? = some (x.1.pack c)) := by
    intro c hc hlen
    rcases c with _ | ⟨⟨n, id⟩, c⟩
    · simp at hlen
    obtain ⟨hl, -, hid⟩ := inTree_cons.1 hc
    obtain ⟨a, ha⟩ := (StdMap.mem_iff _ _).1 hid
    have hhash : a = (x.1.pack ((n, id) :: c)).hash := by
      rw [hc.eq_child]
      exact (h6 c List.nil_suffix hl).2 id a ha
    rw [getDbId_cons]
    rcases h3.recorded c id a hl ha with rfl | ⟨b, hb, hbh⟩ | ⟨hnone, hdel, hr, b, hb, hbh⟩
    · exact absurd hhash.symm (Packed.hash_ne_empty _)
    · exact .inl ⟨b, hb, Packed.hash_inj (hbh.trans hhash)⟩
    · rw [hdb] at hr hb
      rw [Packed.hash_inj (hbh.trans hhash)] at hb
      exact .inr ⟨hnone, hdel, hr, hb⟩
  refine ⟨h5, h6, fun p b hb hp => ?_, fun p hp hnone => ?_⟩
  · obtain ⟨o, rfl⟩ := h3.leaf p b hb hp
    refine ⟨o, rfl, ?_⟩
    by_cases hno : ∀ c, InTree x.1 c → getDbId c ≠ p
    · exact .inl (h5.holds.absent p hp hno)
    · push Not at hno
      obtain ⟨c, hc, rfl⟩ := hno
      rw [length_getDbId] at hp
      right
      rcases htree hc hp with ⟨b, hb', rfl⟩ | ⟨hn, -⟩
      · rw [hb] at hb'
        rw [h5.holds.payload c hc hp, ← Option.some.inj hb']
        rfl
      · rw [hb] at hn
        cases hn
  · by_cases hno : ∀ c, InTree x.1 c → getDbId c ≠ p
    · rw [h5.holds.absent p hp hno]
      split
      · rfl
      · rename_i hdel
        unfold StoredTree.leaves
        rw [if_neg]
        intro hr
        rw [← hdb] at hr
        rcases h3.gone p hp hr with ⟨c, hc, hpath⟩ | hd
        · exact hno c hc hpath
        · exact hdel hd
    · push Not at hno
      obtain ⟨c, hc, rfl⟩ := hno
      rw [length_getDbId] at hp
      rcases htree hc hp with ⟨b, hb', -⟩ | ⟨-, hdel, hr, hb⟩
      · rw [hnone] at hb'
        cases hb'
      · rw [if_neg hdel, h5.holds.payload c hc hp, StoredTree.leaves, if_pos hr, granuleAt, hb]
        rfl

theorem TreeGood.clearRoll {s : Store} {L : LeafMap} (h : TreeGood (s, d) L) : TreeGood ({ s with roll := [] }, d) L where
  intact := ⟨h.intact.coherent.clearRoll.coherent, h.intact.marked,
    ⟨h.intact.shaped.depth, h.intact.shaped.leaf, h.intact.shaped.inner,
    h.intact.shaped.full⟩, h.intact.backed⟩
  holds := ⟨h.holds.payload, h.holds.absent⟩
  dump := h.dump

/-- A list whose elements are images is the image of a list. -/
theorem exists_map_eq {α β : Type} {f : α → β} {P : α → Prop} {l : List β} (h : ∀ y ∈ l, ∃ z, f z = y ∧ P z) :
    ∃ l' : List α, l = l'.map f ∧ ∀ z ∈ l', P z := by
  have hr : l ∈ Set.range (List.map fun z : { z // P z } => f z) := by
    rw [Set.range_list_map]
    intro y hy
    obtain ⟨z, hz, hP⟩ := h y hy
    exact ⟨⟨z, hP⟩, hz⟩
  obtain ⟨m, rfl⟩ := hr
  refine ⟨m.map (·.1), by simp, fun z hz => ?_⟩
  obtain ⟨y, -, rfl⟩ := List.mem_map.1 hz
  exact y.2

/-- The application of the leaves that were sent, on a tree that has the others. -/
theorem run_applyBlock {T : StoredTree} {x : Tree} {L F : LeafMap} (h : Shipped T x L) (hc : Γ.Codes x.2) {s : St}
    (hs : TreeGood (s.store, s.dbToSaveZ) F) (hF : ∀ p : Path, p.length = 5 → x.2.cells[p]? = none → p ∉ x.2.deleted → F p = L p) :
    ∃ M a, (runEff Γ.ctx (applyBlock Γ (diffsOf Γ x.2)) s).1 = .ok a ∧ Merkle.Digest cellScheme M 5 [] a ∧
      ∀ p : Path, p.length = 5 → (M p = L p ↔ (p ∈ x.2.cells → (L p).isSome)) := by
  have hdel : ∀ z ∈ (diffsOf Γ x.2).deleted.toList, z.length = 32 := by
    intro z hz
    obtain ⟨p, hp, hlen, rfl⟩ := (mem_deleted_diffsOf z).1 hz
    exact (hc.key p (.inr hp) hlen).1
  obtain ⟨l, hl, hgood⟩ : ∃ l : List (String × DataObj),
      (diffsOf Γ x.2).diffs.toList = l.map (fun z => (z.1, Γ.packMx (leafGranule z.2))) ∧
      ∀ z ∈ l, ((z.1.length = 32 ∧ Γ.unpackMx (Γ.packMx (leafGranule z.2)) = some (leafGranule z.2)) ∧
        x.2.cells[Γ.ctx.pathFromHash z.1]? = some (leafGranule z.2)) := by
    refine exists_map_eq fun y hy => ?_
    obtain ⟨p, b, hb, hlen, rfl⟩ := (mem_diffs_diffsOf hc y).1 hy
    obtain ⟨o, rfl, -⟩ := h.leaf p b hb hlen
    obtain ⟨hk, hp⟩ := hc.key p (.inl ((StdMap.mem_iff _ _).2 ⟨_, hb⟩)) hlen
    exact ⟨(Γ.keyBytes p, o), rfl, ⟨hk, hc.body p _ hb hlen⟩, by rwa [hp]⟩
  -- the two loops
  obtain ⟨t, ht, hteq⟩ := run_applyDeleted (Γ := Γ) hs hdel
  have htgood := hs.runTree ((diffsOf Γ x.2).deleted.toList.map (deleteOp Γ.ctx))
  rw [← hteq] at htgood
  obtain ⟨u, hu, hueq⟩ := run_applyDiffs (Γ := Γ) htgood fun z hz => (hgood z hz).1
  have hugood := htgood.runTree (l.map (replaceOp Γ.ctx))
  rw [← hueq] at hugood
  rw [← hl] at hu
  set N := TreeOp.afterAll ((diffsOf Γ x.2).deleted.toList.map (deleteOp Γ.ctx)) F with hN
  obtain ⟨h1, h2, -, h3⟩ := hugood.intact.calcTreeHash hugood.holds hugood.dump
  have hroot : (runEff Γ.ctx (applyBlock Γ (diffsOf Γ x.2)) s).1 =
      .ok ((Store.calcTreeHash treeLevels [] (u.store, u.dbToSaveZ)).1.pack []).hash := by
    unfold runEff at ht hu ⊢
    unfold applyBlock inTx
    rw [run_handle, run_bind, run_bind_ok _ ht, run_bind_ok _ hu]
    simp [proceedMerkle, Eff.calcTreeHash, Eff.saveRoot, Eff.endTx, Eff.op, run_bind, exec, St.withDump]
  refine ⟨_, _, hroot, h1.digest h2 h3 5 (inTree_nil _) rfl, fun p hp => ?_⟩
  rcases after_replaces (Γ := Γ) l N p with ⟨z, hz, rfl, hv⟩ | ⟨hn, hv⟩
  · have hcell := (hgood z hz).2
    obtain ⟨o, ho, hLp⟩ := h.leaf _ _ hcell hp
    have hz2 : z.2 = o := by
      simp only [leafGranule, Packed.mk.injEq, Option.some.injEq] at ho
      exact ho.2.2
    have hin : Γ.ctx.pathFromHash z.1 ∈ x.2.cells := (StdMap.mem_iff _ _).2 ⟨_, hcell⟩
    rw [hv, hz2]
    rcases hLp with hLp | hLp <;> simp [hLp, hin]
  · have hnone : x.2.cells[p]? = none := by
      rcases hb : x.2.cells[p]? with _ | b
      · rfl
      · have hin := (mem_diffs_diffsOf hc (Γ.keyBytes p, Γ.packMx b)).2 ⟨p, b, hb, hp, rfl⟩
        rw [hl] at hin
        obtain ⟨z, hz, heq⟩ := List.mem_map.1 hin
        have hkey : z.1 = Γ.keyBytes p := congrArg Prod.fst heq
        exact absurd (by rw [hkey]; exact (hc.key p (.inl ((StdMap.mem_iff _ _).2 ⟨_, hb⟩)) hp).2) (hn z hz)
    have hout : p ∉ x.2.cells := by
      intro hin
      obtain ⟨b, hb⟩ := (StdMap.mem_iff _ _).1 hin
      rw [hnone] at hb
      cases hb
    have hpaths : p ∈ (diffsOf Γ x.2).deleted.toList.map Γ.ctx.pathFromHash ↔ p ∈ x.2.deleted := by
      constructor
      · intro hm
        obtain ⟨z, hz, rfl⟩ := List.mem_map.1 hm
        obtain ⟨q, hq, hlen, rfl⟩ := (mem_deleted_diffsOf z).1 hz
        rwa [(hc.key q (.inr hq) hlen).2]
      · intro hm
        exact List.mem_map.2 ⟨_, (mem_deleted_diffsOf _).2 ⟨p, hm, hp, rfl⟩, (hc.key p (.inr hm) hp).2⟩
    have hval : TreeOp.afterAll (l.map (replaceOp Γ.ctx)) N p = L p := by
      rw [hv, hN, after_deletes]
      by_cases hd : p ∈ x.2.deleted
      · rw [if_pos (hpaths.2 hd), h.same p hp hnone, if_pos hd]
      · rw [if_neg fun hm => hd (hpaths.1 hm), hF p hp hnone hd]
    simp [hval, hout]

namespace Sample

/-- A leaf. -/
def leafPath : LeafPath := ⟨[1, 2, 3, 4, 5], rfl⟩

/-- Its payload. -/
def leafObj : DataObj := { payload := .nodelist ∅ }

/-- A block that makes a leaf and hashes the tree, and then deletes the leaf. -/
def madeAndDeleted : List TreeOp := [.create leafPath leafObj, .hash, .delete leafPath true]

/-- The bytes of that leaf and of its key. -/
def leafCtx : NodeCtx where
  ctx := { (nodeCtx "").ctx with pathFromHash := fun _ => leafPath, pathFromHash_length := fun _ => rfl }
  thisNodeName := ""
  blsPk := ""
  digest _ := ""
  weight _ := 0
  thash h := h
  keyBytes _ := "01234567890123456789012345678901"
  packMx _ := ""
  unpackMx _ := some (leafGranule leafObj)

end Sample

end Grain
