import Grain.Lemmas.Reads
import Grain.Lib.MapSum

/-!
# The metadata of a window

What `getMetaFull` computes depends on the nodes in the tree and on the previous block, and it gives different nodes different
positions.
-/

namespace Grain

variable {Γ : NodeCtx} {s u : NodeSt} {win : Int} {m : BlockMetaFull}

/-! ## Positions -/

/-- Every name stands at its place. -/
theorem positions_getElem {l : List String} {a : String} {i : Nat} (h : (positions l)[a]? = some i) : l[i]? = some a := by
  have hinv : ∀ (z : List (String × Nat)) (m : StdMap String Nat), (∀ x ∈ z, l[x.2]? = some x.1) →
      (∀ (b : String) (j : Nat), m[b]? = some j → l[j]? = some b) →
      ∀ (b : String) (j : Nat), (z.foldl (fun m z => m.insert z.1 z.2) m)[b]? = some j → l[j]? = some b := by
    intro z
    induction z with
    | nil => exact fun m _ hm => hm
    | cons x z ih =>
      intro m hz hm
      refine ih _ (fun y hy => hz y (List.mem_cons_of_mem x hy)) fun b j hj => ?_
      rw [StdMap.getElem?_insert] at hj
      split at hj
      · next hb =>
        obtain rfl := Option.some.inj hj
        rw [← hb]
        exact hz x List.mem_cons_self
      · exact hm b j hj
  refine hinv l.zipIdx ∅ (fun x hx => ?_) (fun b j hj => by simp at hj) a i h
  exact (List.mk_mem_zipIdx_iff_getElem?.1 hx)

/-- Different nodes have different positions. -/
def BlockMetaFull.Apart (m : BlockMetaFull) : Prop :=
  ∀ (a b : String) (p : Nat), m.positionOfNode[a]? = some p → m.positionOfNode[b]? = some p → a = b

theorem rankMeta_apart (ns vne : List BcNode) : (rankMeta ns vne).Apart := by
  intro a b p ha hb
  have ha' := positions_getElem ha
  have hb' := positions_getElem hb
  rw [ha'] at hb'
  exact Option.some.inj hb'

/-- The position of a node that has one. -/
def BlockMetaFull.position (m : BlockMetaFull) (n : String) : Nat := m.positionOfNode[n]?.getD 0

/-- The node has a position. -/
def BlockMetaFull.Ranks (m : BlockMetaFull) (n : String) : Prop := m.positionOfNode[n]?.isSome = true

instance (n : String) : Decidable (m.Ranks n) := inferInstanceAs (Decidable (_ = true))

theorem BlockMetaFull.Ranks.getElem? {n : String} (h : m.Ranks n) : m.positionOfNode[n]? = some (m.position n) := by
  unfold position
  obtain ⟨p, hp⟩ := Option.isSome_iff_exists.1 h
  rw [hp]
  rfl

/-- Nodes that have positions are told apart by them. -/
theorem BlockMetaFull.Apart.eq_of_position {a b : String} (hm : m.Apart) (ha : m.Ranks a) (hb : m.Ranks b)
    (h : m.position a = m.position b) : a = b := by
  refine hm a b (m.position a) ha.getElem? ?_
  rw [h]
  exact hb.getElem?

/-- Between nodes that have positions, `isNodeGreater` compares these. -/
theorem isNodeGreater_eq {a b : String} (ha : m.Ranks a) (hb : m.Ranks b) :
    isNodeGreater a b m = .ok (m.position a < m.position b) := by
  unfold isNodeGreater
  rw [ha.getElem?, hb.getElem?]

/-! ## The order of the nodes -/

/-- The nodes by weight and by name, as `rank` files them. -/
def byWeight (weight : BcNode → Int) (ns : List BcNode) : StdMap Int (StdMap String BcNode) :=
  ns.foldl (fun r n => r.insert (weight n) ((r[weight n]?.getD ∅).insert n.name n)) ∅

theorem rank_eq (weight : BcNode → Int) (ns : List BcNode) :
    rank weight ns = (byWeight weight ns).toList.flatMap fun x => x.2.toList.map (·.2) := rfl

/-- The node under a weight and a name. -/
def filed (weight : BcNode → Int) (ns : List BcNode) (w : Int) (a : String) : Option BcNode :=
  ((byWeight weight ns)[w]?.getD ∅)[a]?

/-- The node that was filed last under a weight and a name. -/
theorem filed_concat (weight : BcNode → Int) (ns : List BcNode) (x : BcNode) (w : Int) (a : String) :
    filed weight (ns ++ [x]) w a = if weight x = w ∧ x.name = a then some x else filed weight ns w a := by
  have hstep : byWeight weight (ns ++ [x]) =
      (byWeight weight ns).insert (weight x) (((byWeight weight ns)[weight x]?.getD ∅).insert x.name x) := by
    unfold byWeight
    rw [List.foldl_append]
    rfl
  unfold filed
  rw [hstep, StdMap.getElem?_insert]
  by_cases hw : weight x = w
  · subst hw
    rw [if_pos rfl, Option.getD_some, StdMap.getElem?_insert]
    simp
  · simp [hw]

/-- What is filed under a weight and a name is a node with these. -/
theorem mem_of_filed {weight : BcNode → Int} {ns : List BcNode} {w : Int} {a : String} {n : BcNode}
    (h : filed weight ns w a = some n) : n ∈ ns ∧ weight n = w ∧ n.name = a := by
  induction ns using List.reverseRecOn with
  | nil => simp [filed, byWeight] at h
  | append_singleton ns x ih =>
    rw [filed_concat] at h
    split at h
    · rename_i hx
      obtain rfl := Option.some.inj h
      exact ⟨by simp, hx⟩
    · obtain ⟨h1, h2⟩ := ih h
      exact ⟨by simp [h1], h2⟩

/-- Nodes of different names are all filed. -/
theorem filed_of_mem {weight : BcNode → Int} {ns : List BcNode} (hn : (ns.map (·.name)).Nodup) {n : BcNode} (h : n ∈ ns) :
    filed weight ns (weight n) n.name = some n := by
  induction ns using List.reverseRecOn with
  | nil => cases h
  | append_singleton ns x ih =>
    rw [List.map_append, List.nodup_append] at hn
    obtain ⟨hns, -, hx⟩ := hn
    rw [filed_concat]
    rcases List.mem_append.1 h with h | h
    · have hne : x.name ≠ n.name := fun he => hx n.name (List.mem_map_of_mem h) x.name (by simp) he.symm
      rw [if_neg fun hc => hne hc.2]
      exact ih hns h
    · obtain rfl := List.mem_singleton.1 h
      rw [if_pos ⟨rfl, rfl⟩]

theorem mem_rank {weight : BcNode → Int} {ns : List BcNode} {n : BcNode} :
    n ∈ rank weight ns ↔ ∃ w a, filed weight ns w a = some n := by
  rw [rank_eq, List.mem_flatMap]
  constructor
  · rintro ⟨⟨w, m⟩, hm, hn⟩
    obtain ⟨⟨a, n'⟩, ha, rfl⟩ := List.mem_map.1 hn
    refine ⟨w, a, ?_⟩
    unfold filed
    rw [Std.ExtTreeMap.mem_toList_iff_getElem?_eq_some.1 hm]
    exact Std.ExtTreeMap.mem_toList_iff_getElem?_eq_some.1 ha
  · rintro ⟨w, a, h⟩
    unfold filed at h
    rcases hm : (byWeight weight ns)[w]? with _ | m
    · rw [hm] at h
      simp at h
    · rw [hm] at h
      exact ⟨(w, m), Std.ExtTreeMap.mem_toList_iff_getElem?_eq_some.2 hm,
        List.mem_map.2 ⟨(a, n), Std.ExtTreeMap.mem_toList_iff_getElem?_eq_some.2 h, rfl⟩⟩

theorem nodup_rank (weight : BcNode → Int) (ns : List BcNode) : (rank weight ns).Nodup := by
  -- under each weight are nodes of this weight, under their names
  have hfiled : ∀ x ∈ (byWeight weight ns).toList, ∀ y ∈ x.2.toList, weight y.2 = x.1 ∧ y.2.name = y.1 := by
    rintro ⟨w, m⟩ hx ⟨a, n⟩ hy
    have hm := Std.ExtTreeMap.mem_toList_iff_getElem?_eq_some.1 hx
    have hn := Std.ExtTreeMap.mem_toList_iff_getElem?_eq_some.1 hy
    refine (@mem_of_filed _ ns w a _ ?_).2
    unfold filed
    rw [hm]
    exact hn
  rw [rank_eq, List.nodup_flatMap]
  constructor
  · intro x hx
    refine List.Nodup.map_on ?_ (MapSum.nodup_toList x.2)
    intro y hy z hz he
    have hname : y.1 = z.1 := by rw [← (hfiled x hx y hy).2, ← (hfiled x hx z hz).2, he]
    exact Prod.ext hname he
  · refine List.Pairwise.imp_of_mem ?_ (byWeight weight ns).distinct_keys_toList
    intro x y hx hy hne n hnx hny
    obtain ⟨p, hp, rfl⟩ := List.mem_map.1 hnx
    obtain ⟨q, hq, he⟩ := List.mem_map.1 hny
    refine hne (Std.LawfulEqCmp.compare_eq_iff_eq.2 ?_)
    rw [← (hfiled x hx p hp).1, ← (hfiled y hy q hq).1, he]

/-- The ranking has the nodes that it ranks, if they are told apart by their names. -/
theorem rank_perm (weight : BcNode → Int) {ns : List BcNode} (h : (ns.map (·.name)).Nodup) : (rank weight ns).Perm ns := by
  refine (List.perm_ext_iff_of_nodup (nodup_rank weight ns) (List.Nodup.of_map _ h)).2 fun n => ?_
  rw [mem_rank]
  constructor
  · rintro ⟨w, a, hn⟩
    exact (mem_of_filed hn).1
  · intro hn
    exact ⟨weight n, n.name, filed_of_mem h hn⟩

/-! ## The committee -/

/-- The node under a name, as the tree has it. -/
def nodeOf (Γ : Ctx) (s : St) (name : String) : Except Stop (Option BcNode) :=
  (runEff Γ (getNodeNoCreate Γ name) s).1.map (Option.map (·.val))

/-- It depends on the tree. -/
theorem nodeOf_congr {Γ : Ctx} {s t : St} (h : t.store = s.store) : nodeOf Γ t = nodeOf Γ s := by
  funext name
  unfold nodeOf
  rw [(Reads.getNodeNoCreate name).result_eq h]

/-- What the first loop chooses. -/
def strictChoice (look : String → Except Stop (Option BcNode)) (count answeredMin minStake : Int) :
    List NodeElement → List NodeElement → Except Stop (List NodeElement)
  | [], c => .ok c
  | x :: xs, c =>
    if (c.length : Int) < count then
      (look x.name).bind fun r =>
        if (∃ n ∈ r, n.answeredRounds > answeredMin) ∧ x.stakeA ≥ minStake then
          strictChoice look count answeredMin minStake xs (c ++ [x])
        else strictChoice look count answeredMin minStake xs c
    else .ok c

/-- It reads the tree, and where it ends it has written nothing but the cache. -/
theorem strictCommittee_run (root : String) (win count answeredMin minStake : Int) (l : List NodeElement) (m : BlockMetaFull)
    (c : List NodeElement) (s : NodeSt) :
    (runNode (strictCommittee Γ root win count answeredMin minStake l m c) s).1 =
        strictChoice (nodeOf Γ.ctx s.st) count answeredMin minStake l c ∧
      ∀ c', strictChoice (nodeOf Γ.ctx s.st) count answeredMin minStake l c = .ok c' → ∃ mm,
        (runNode (strictCommittee Γ root win count answeredMin minStake l m c) s).2 = { s with blockMetaFull := mm } := by
  induction l generalizing m c s with
  | nil => exact ⟨rfl, fun _ _ => ⟨s.blockMetaFull, rfl⟩⟩
  | cons x l ih =>
    unfold strictCommittee strictChoice
    by_cases hlt : (c.length : Int) < count
    · rw [if_pos hlt, if_pos hlt]
      cases hn : (runEff Γ.ctx (getNodeNoCreate Γ.ctx x.name) s.st).1 with
      | error e =>
        have hlook : nodeOf Γ.ctx s.st x.name = .error e := by
          unfold nodeOf
          rw [hn]
          rfl
        have htree : ∃ t, runNode (Node.tree Γ.ctx (getNodeNoCreate Γ.ctx x.name)) s = (.error e, t) :=
          ⟨_, by rw [runNode_tree, hn]⟩
        obtain ⟨t, htree⟩ := htree
        rw [hlook, runNode_bind_error htree]
        exact ⟨rfl, fun c' hc => by cases hc⟩
      | ok r =>
        have hlook : nodeOf Γ.ctx s.st x.name = .ok (r.map (·.val)) := by
          unfold nodeOf
          rw [hn]
          rfl
        rw [hlook, runNode_bind_ok (runNode_tree_ok (.getNodeNoCreate _) hn)]
        change _ = (if (∃ n ∈ r.map (·.val), n.answeredRounds > answeredMin) ∧ x.stakeA ≥ minStake then _ else _) ∧
          ∀ c', (if (∃ n ∈ r.map (·.val), n.answeredRounds > answeredMin) ∧ x.stakeA ≥ minStake then _ else _) = Except.ok c' → _
        cases r with
        | none =>
          rw [if_neg (by simp)]
          exact ih m c s
        | some n =>
          have hiff : (∃ z ∈ (some n).map (·.val), z.answeredRounds > answeredMin) ∧ x.stakeA ≥ minStake ↔
              n.val.answeredRounds > answeredMin ∧ x.stakeA ≥ minStake := by simp
          by_cases hc : n.val.answeredRounds > answeredMin ∧ x.stakeA ≥ minStake
          · dsimp only
            rw [if_pos hc, if_pos (hiff.2 hc), runNode_modify_bind]
            obtain ⟨h1, h2⟩ := ih (m.enrol x) (c ++ [x]) (s.setMeta root win (m.enrol x))
            refine ⟨h1, fun c' hc' => ?_⟩
            obtain ⟨mm, hmm⟩ := h2 c' hc'
            exact ⟨mm, hmm⟩
          · dsimp only
            rw [if_neg hc, if_neg fun h => hc (hiff.1 h)]
            exact ih m c s
    · rw [if_neg hlt, if_neg hlt]
      exact ⟨rfl, fun _ _ => ⟨s.blockMetaFull, rfl⟩⟩

theorem positionOfNode_foldl_enrol (l : List NodeElement) (m : BlockMetaFull) :
    (l.foldl .enrol m).positionOfNode = m.positionOfNode := by
  induction l generalizing m with
  | nil => rfl
  | cons x l ih => exact ih (m.enrol x)

theorem positionOfNode_relaxedCommittee (count minStake : Int) (l : List NodeElement) (m : BlockMetaFull) (c : List NodeElement) :
    (relaxedCommittee count minStake l m c).1.positionOfNode = m.positionOfNode := by
  induction l generalizing m c with
  | nil => rfl
  | cons x l ih =>
    unfold relaxedCommittee
    split
    · split
      · exact ih (m.enrol x) _
      · exact ih m c
    · rfl

theorem mem_foldl_enrol {l : List NodeElement} {m : BlockMetaFull} {a : String} :
    a ∈ (l.foldl .enrol m).committeMembers ↔ a ∈ m.committeMembers ∨ ∃ x ∈ l, x.name = a := by
  induction l generalizing m with
  | nil => simp
  | cons x l ih =>
    rw [List.foldl_cons, ih]
    unfold BlockMetaFull.enrol
    rw [Std.ExtTreeSet.mem_insert]
    simp only [Std.LawfulEqCmp.compare_eq_iff_eq, List.mem_cons, exists_eq_or_imp]
    tauto

/-- The second loop finds a node with the stake, if there is one and a place for it. -/
theorem relaxedCommittee_ne_nil {count minStake : Int} (hcount : 0 < count) {l : List NodeElement} {m : BlockMetaFull}
    {c : List NodeElement} (hm : ∀ a ∈ m.committeMembers, c ≠ []) (h : c ≠ [] ∨ ∃ x ∈ l, minStake ≤ x.stakeA) :
    (relaxedCommittee count minStake l m c).2 ≠ [] := by
  induction l generalizing m c with
  | nil =>
    rcases h with h | ⟨x, hx, -⟩
    · exact h
    · cases hx
  | cons x l ih =>
    unfold relaxedCommittee
    split
    · split
      · exact ih (fun _ _ => by simp) (.inl (by simp))
      · rename_i hx
        refine ih hm ?_
        rcases h with h | ⟨y, hy, hs⟩
        · exact .inl h
        · rcases List.mem_cons.1 hy with rfl | hy
          · left
            by_cases hmem : y.name ∈ m.committeMembers
            · exact hm _ hmem
            · exact absurd ⟨hmem, hs⟩ hx
          · exact .inr ⟨y, hy, hs⟩
    · rename_i hfull
      rintro rfl
      exact hfull (by simpa using hcount)

theorem buildTree_ok {l : List NodeElement} (h : l ≠ []) : ∃ t, buildTree l = .ok t := by
  unfold buildTree
  rw [if_neg h]
  exact ⟨_, rfl⟩

theorem BlockMetaFull.Apart.of_eq {m' : BlockMetaFull} (hm : m.Apart) (h : m'.positionOfNode = m.positionOfNode) : m'.Apart := by
  unfold Apart
  rw [h]
  exact hm

/-! ## The computation -/

/-- What the computation of the metadata goes through. -/
structure MetaParts where
  ns : List BcNode
  pct : Int
  all : TreeNode
  minStake : Int
  answeredMin : Int
  strict : List NodeElement
  committe : TreeNode

namespace MetaParts

/-- `validator_count`. -/
def count (x : MetaParts) : Int := (wrap64 (x.ns.length * x.pct)).tdiv 100

/-- The nodes in order. -/
def vne (x : MetaParts) (Γ : NodeCtx) (s : NodeSt) (win : Int) : List BcNode := rank (s.weightOf Γ win) x.ns

/-- The candidates in order. -/
def elements (x : MetaParts) (Γ : NodeCtx) (s : NodeSt) (win : Int) : List NodeElement := (x.vne Γ s win).map (·.getElement)

/-- The metadata before the committee is chosen. -/
def ranked (x : MetaParts) (Γ : NodeCtx) (s : NodeSt) (win : Int) : BlockMetaFull :=
  { rankMeta x.ns (x.vne Γ s win) with treeAllNodes := x.all }

/-- The metadata with the committee, and the committee in order. -/
def relaxed (x : MetaParts) (Γ : NodeCtx) (s : NodeSt) (win : Int) : BlockMetaFull × List NodeElement :=
  relaxedCommittee x.count x.minStake (x.elements Γ s win) (x.strict.foldl .enrol (x.ranked Γ s win)) x.strict

end MetaParts

/-- The computation of the metadata goes through its steps, and ends with a value. -/
structure MetaRun (Γ : NodeCtx) (s : NodeSt) (win : Int) (m : BlockMetaFull) (x : MetaParts) : Prop where
  nodes : (runEff Γ.ctx (enabledNodes Γ.ctx) s.st).1 = .ok x.ns
  share : (runEff Γ.ctx (committeeValue Γ.ctx "validator_count_percent") s.st).1 = .ok x.pct
  all : buildTree (x.elements Γ s win) = .ok x.all
  enough : ¬ (x.count < 0 ∨ x.count ≥ (x.vne Γ s win).length)
  minStake : (runEff Γ.ctx (committeeValue Γ.ctx "validator_min_stake") s.st).1 = .ok x.minStake
  answeredMin : (runEff Γ.ctx (committeeValue Γ.ctx "answered_committee_min") s.st).1 = .ok x.answeredMin
  strict : strictChoice (nodeOf Γ.ctx s.st) x.count x.answeredMin x.minStake (x.elements Γ s win) [] = .ok x.strict
  some : (x.relaxed Γ s win).2 ≠ []
  committe : buildTree (x.relaxed Γ s win).2 = .ok x.committe
  result : m = { (x.relaxed Γ s win).1 with treeCommitte := x.committe }

namespace MetaRun

variable {x : MetaParts}

theorem apart (h : MetaRun Γ s win m x) : m.Apart := by
  rw [h.result]
  refine (rankMeta_apart x.ns (x.vne Γ s win)).of_eq ?_
  exact (positionOfNode_relaxedCommittee _ _ _ _ _).trans (positionOfNode_foldl_enrol _ _)

/-- It depends on the tree and the previous block. -/
theorem congr (h : MetaRun Γ s win m x) (hst : u.st.store = s.st.store) (hprev : u.prevBlock = s.prevBlock) :
    MetaRun Γ u win m x := by
  have hw : u.weightOf Γ win = s.weightOf Γ win := by
    funext n
    unfold NodeSt.weightOf NodeSt.seed
    rw [hprev]
  have hvne : x.vne Γ u win = x.vne Γ s win := by
    unfold MetaParts.vne
    rw [hw]
  have helements : x.elements Γ u win = x.elements Γ s win := by
    unfold MetaParts.elements
    rw [hvne]
  have hrelaxed : x.relaxed Γ u win = x.relaxed Γ s win := by
    unfold MetaParts.relaxed MetaParts.ranked
    rw [helements, hvne]
  constructor
  · rw [Reads.enabledNodes.result_eq hst]
    exact h.nodes
  · rw [(Reads.committeeValue _).result_eq hst]
    exact h.share
  · rw [helements]
    exact h.all
  · rw [hvne]
    exact h.enough
  · rw [(Reads.committeeValue _).result_eq hst]
    exact h.minStake
  · rw [(Reads.committeeValue _).result_eq hst]
    exact h.answeredMin
  · rw [helements, nodeOf_congr hst]
    exact h.strict
  · rw [hrelaxed]
    exact h.some
  · rw [hrelaxed]
    exact h.committe
  · rw [hrelaxed]
    exact h.result

/-- The run of its end. -/
theorem run_choose (h : MetaRun Γ s win m x) (root : String) {t : NodeSt} (ht : t.st = s.st) : ∃ mm,
    runNode (chooseCommittee Γ root win x.count (x.elements Γ s win) (x.ranked Γ s win)) t = (.ok m, { t with blockMetaFull := mm }) ∧
      ({ t with blockMetaFull := mm } : NodeSt).metaAt root win = .some m := by
  have hmin : (runEff Γ.ctx (committeeValue Γ.ctx "validator_min_stake") t.st).1 = .ok x.minStake := by
    rw [ht]
    exact h.minStake
  have hans : (runEff Γ.ctx (committeeValue Γ.ctx "answered_committee_min") t.st).1 = .ok x.answeredMin := by
    rw [ht]
    exact h.answeredMin
  have hstrict := strictCommittee_run (Γ := Γ) root win x.count x.answeredMin x.minStake (x.elements Γ s win) (x.ranked Γ s win) [] t
  have hlook : nodeOf Γ.ctx t.st = nodeOf Γ.ctx s.st := by rw [ht]
  rw [hlook, h.strict] at hstrict
  obtain ⟨mm, hmm⟩ := hstrict.2 x.strict rfl
  unfold chooseCommittee
  rw [runNode_bind_ok (runNode_tree_ok (.committeeValue _) hmin), runNode_bind_ok (runNode_tree_ok (.committeeValue _) hans)]
  rw [runNode_bind_ok (Prod.ext hstrict.1 hmm)]
  rw [show relaxedCommittee x.count x.minStake (x.elements Γ s win) _ x.strict = x.relaxed Γ s win from rfl]
  rw [runNode_modify_bind, runNode_bind_ok (runNode_raiseIf h.some _ _), h.committe, runNode_bind_ok (runNode_ofExcept _ _)]
  rw [runNode_modify_bind, h.result]
  refine ⟨_, rfl, ?_⟩
  unfold NodeSt.metaAt
  simp

/-- The run of the computation. -/
theorem run (h : MetaRun Γ s win m x) (root : String) :
    ∃ mm, runNode (computeMeta Γ root win) s = (.ok m, { s with blockMetaFull := mm }) ∧
      ({ s with blockMetaFull := mm } : NodeSt).metaAt root win = .some m := by
  have hw : (s.setMeta root win {}).weightOf Γ win = s.weightOf Γ win := rfl
  have h₁ := runNode_tree_ok (s := s.setMeta root win {}) .enabledNodes h.nodes
  have h₂ := runNode_tree_ok (s := s.setMeta root win {}) (.committeeValue _) h.share
  set s₃ := ((s.setMeta root win {}).setMeta root win (rankMeta x.ns (x.vne Γ s win))).setMeta root win (x.ranked Γ s win) with hs₃
  have h₃ := runNode_raiseIf h.enough "if(validator_count>=vne.size())" s₃
  obtain ⟨mm, hrun, hat⟩ := h.run_choose root (t := s₃) rfl
  unfold computeMeta
  rw [runNode_modify_bind, runNode_bind_ok h₁, runNode_bind_ok h₂, runNode_get_bind, hw, runNode_modify_bind]
  rw [show rank (s.weightOf Γ win) x.ns = x.vne Γ s win from rfl]
  rw [show (x.vne Γ s win).map (·.getElement) = x.elements Γ s win from rfl, h.all]
  rw [runNode_bind_ok (runNode_ofExcept _ _), runNode_modify_bind]
  exact ⟨mm, (runNode_bind_ok h₃).trans hrun, hat⟩

end MetaRun

/-- A computation that ends with a value has gone through all of its steps. -/
theorem metaRun_of_ok {root : String} (h : (runNode (computeMeta Γ root win) s).1 = .ok m) : ∃ x, MetaRun Γ s win m x := by
  unfold computeMeta at h
  rw [runNode_modify_bind] at h
  obtain ⟨ns, t, hns', h⟩ := runNode_bind_inv h
  obtain ⟨hns, rfl⟩ := runNode_tree_inv .enabledNodes hns'
  obtain ⟨pct, t, hpct', h⟩ := runNode_bind_inv h
  obtain ⟨hpct, rfl⟩ := runNode_tree_inv (.committeeValue _) hpct'
  rw [runNode_get_bind, runNode_modify_bind] at h
  obtain ⟨all, t, hall', h⟩ := runNode_bind_inv h
  rw [runNode_ofExcept] at hall'
  obtain ⟨hall, rfl⟩ := Prod.mk.inj hall'
  rw [runNode_modify_bind] at h
  obtain ⟨_, t, henough', h⟩ := runNode_bind_inv h
  obtain ⟨henough, rfl⟩ := runNode_raiseIf_inv henough'
  unfold chooseCommittee at h
  obtain ⟨minStake, t, hmin', h⟩ := runNode_bind_inv h
  obtain ⟨hmin, rfl⟩ := runNode_tree_inv (.committeeValue _) hmin'
  obtain ⟨answeredMin, t, hans', h⟩ := runNode_bind_inv h
  obtain ⟨hans, rfl⟩ := runNode_tree_inv (.committeeValue _) hans'
  obtain ⟨strict, t, hstrict', h⟩ := runNode_bind_inv h
  have hstrict := (strictCommittee_run _ _ _ _ _ _ _ _ _).1.symm.trans (congrArg Prod.fst hstrict')
  rw [runNode_modify_bind] at h
  obtain ⟨_, t, hsome', h⟩ := runNode_bind_inv h
  obtain ⟨hsome, rfl⟩ := runNode_raiseIf_inv hsome'
  obtain ⟨committe, t, hc', h⟩ := runNode_bind_inv h
  rw [runNode_ofExcept] at hc'
  obtain ⟨hc, rfl⟩ := Prod.mk.inj hc'
  exact ⟨⟨ns, pct, all, minStake, answeredMin, strict, committe⟩, hns, hpct, hall, henough, hmin, hans, hstrict, hsome, hc,
    (Except.ok.inj h).symm⟩

/-! ## The metadata a node has -/

/-- `getMetaFull` gives this metadata for the window: it is in the cache, or computed without an exception. -/
def NodeSt.HasMeta (Γ : NodeCtx) (s : NodeSt) (win : Int) (m : BlockMetaFull) : Prop :=
  s.metaAt s.prevRootHashZ win = some m ∨
    s.metaAt s.prevRootHashZ win = none ∧ (runNode (computeMeta Γ s.prevRootHashZ win) s).1 = .ok m

/-- Every entry of the cache tells the nodes apart. -/
def NodeSt.MetaApart (s : NodeSt) : Prop := ∀ root win m, s.metaAt root win = some m → m.Apart

theorem NodeSt.MetaApart.setMeta (hs : s.MetaApart) (hm : m.Apart) (root : String) (win : Int) :
    (s.setMeta root win m).MetaApart := by
  intro root' win' m' h
  have hat := hs root' win' m'
  unfold NodeSt.metaAt NodeSt.setMeta at h
  unfold NodeSt.metaAt at hat
  dsimp only at h
  rw [StdMap.getElem?_insert] at h
  split at h
  · next hroot =>
    rw [Option.getD_some, StdMap.getElem?_insert] at h
    split at h
    · obtain rfl := Option.some.inj h
      exact hm
    · rw [hroot] at h
      exact hat h
  · exact hat h

/-- What the tree and the entry of a window do not matter to is kept by the computation for the window, and also what its entries
matter to by their positions only. -/
theorem computeMeta_keeps (Γ : NodeCtx) (root : String) (win : Int) {I : NodeSt → Prop} {P : BlockMetaFull → Prop}
    (hst : ∀ (s : NodeSt) (st : St), I s → I { s with st := st })
    (hset : ∀ (s : NodeSt) (m : BlockMetaFull), P m → I s → I (s.setMeta root win m))
    (hP : ∀ m m' : BlockMetaFull, m'.positionOfNode = m.positionOfNode → P m → P m') (hrank : ∀ ns vne, P (rankMeta ns vne)) :
    ∃ rest, computeMeta Γ root win = (Node.modify (fun s => s.setMeta root win {}) >>= fun _ => rest) ∧
      Prog.Keeps nodeExec I rest := by
  have htree : ∀ {α : Type} (e : Eff α), Prog.Keeps nodeExec I (Node.tree Γ.ctx e) := by
    intro α e s hs
    change I (runNode (Node.tree Γ.ctx e) s).2
    rw [runNode_tree]
    exact hst _ _ hs
  have hsets : ∀ {m : BlockMetaFull}, P m → Prog.Keeps nodeExec I (Node.modify fun s => s.setMeta root win m) :=
    fun hm s hs => hset s _ hm hs
  have hraise : ∀ (c : Prop) [Decidable c] (msg : String), Prog.Keeps nodeExec I (Node.raiseIf c msg) := by
    intro c _ msg s hs
    unfold Node.raiseIf
    split <;> exact hs
  have hget : Prog.Keeps nodeExec I Node.get := fun s hs => hs
  have hexcept : ∀ {α : Type} (x : Except Stop α), Prog.Keeps nodeExec I (Prog.ofExcept x : Node α) := by
    intro α x s hs
    change I (runNode (Prog.ofExcept x : Node α) s).2
    rw [runNode_ofExcept]
    exact hs
  have hstrict : ∀ count answeredMin minStake l (m : BlockMetaFull) {c : List NodeElement}, P m →
      Prog.Keeps nodeExec I (strictCommittee Γ root win count answeredMin minStake l m c) := by
    intro count answeredMin minStake l
    induction l with
    | nil => exact fun m c hm s hs => hs
    | cons x l ih =>
      intro m c hm
      have henrol : P (m.enrol x) := hP m _ rfl hm
      unfold strictCommittee
      split
      · refine .bind (htree _) fun n => ?_
        cases n with
        | none => exact ih m hm
        | some n =>
          dsimp only
          split
          · exact .bind (hsets henrol) fun _ => ih (m.enrol x) henrol
          · exact ih m hm
      · exact fun s hs => hs
  have hchoose : ∀ count elements (m : BlockMetaFull), P m →
      Prog.Keeps nodeExec I (chooseCommittee Γ root win count elements m) := by
    intro count elements m hm
    unfold chooseCommittee
    refine .bind (htree _) fun minStake => .bind (htree _) fun answeredMin => .bind (hstrict _ _ _ _ _ hm) fun strict => ?_
    have hr : P (relaxedCommittee count minStake elements (strict.foldl .enrol m) strict).1 :=
      hP m _ ((positionOfNode_relaxedCommittee _ _ _ _ _).trans (positionOfNode_foldl_enrol _ _)) hm
    refine .bind (hsets hr) fun _ => .bind (hraise _ _) fun _ => .bind (hexcept _) fun committe => ?_
    have hc : P { (relaxedCommittee count minStake elements (strict.foldl .enrol m) strict).1 with treeCommitte := committe } :=
      hP (relaxedCommittee count minStake elements (strict.foldl .enrol m) strict).1 _ rfl hr
    exact .bind (hsets hc) fun _ => fun s hs => hs
  refine ⟨_, rfl, ?_⟩
  refine .bind (htree _) fun ns => .bind (htree _) fun pct => .bind hget fun s => ?_
  refine .bind (hsets (hrank ns (rank (s.weightOf Γ win) ns))) fun _ => .bind (hexcept _) fun all => ?_
  have hall : P { rankMeta ns (rank (s.weightOf Γ win) ns) with treeAllNodes := all } := 
    hP (rankMeta ns _) _ rfl (hrank ns _)
  exact .bind (hsets hall) fun _ => .bind (hraise _ _) fun _ => hchoose _ _ _ hall

/-- `getMetaFull` keeps it so. -/
theorem getMetaFull_metaApart (Γ : NodeCtx) (ti : Int) : Prog.Keeps nodeExec NodeSt.MetaApart (getMetaFull Γ ti) := by
  have hcompute : ∀ root win, Prog.Keeps nodeExec NodeSt.MetaApart (computeMeta Γ root win) := by
    intro root win
    have hempty : BlockMetaFull.Apart {} := fun a b p h => by simp at h
    obtain ⟨rest, hrest, hkeeps⟩ := computeMeta_keeps Γ root win (I := NodeSt.MetaApart) (P := BlockMetaFull.Apart)
      (fun _ _ hs => hs) (fun _ _ hm hs => hs.setMeta hm root win) (fun _ _ h hm => hm.of_eq h) rankMeta_apart
    rw [hrest]
    exact .bind (fun s hs => hs.setMeta hempty root win) fun _ => hkeeps
  have hget : Prog.Keeps nodeExec NodeSt.MetaApart Node.get := fun s hs => hs
  refine hget.bind fun s => ?_
  cases s.metaAt s.prevRootHashZ (window ti) with
  | some m => exact fun s hs => hs
  | none => exact hcompute _ _

theorem NodeSt.HasMeta.apart (h : s.HasMeta Γ win m) (hs : s.MetaApart) : m.Apart := by
  rcases h with h | ⟨_, h⟩
  · exact hs _ _ m h
  · obtain ⟨x, hrun⟩ := metaRun_of_ok h
    exact hrun.apart

/-- It depends on the tree, the previous block and the cache. -/
theorem NodeSt.HasMeta.congr (h : s.HasMeta Γ win m) (hst : u.st.store = s.st.store) (hprev : u.prevBlock = s.prevBlock)
    (hcache : u.blockMetaFull = s.blockMetaFull) : u.HasMeta Γ win m := by
  have hroot : u.prevRootHashZ = s.prevRootHashZ := by
    unfold NodeSt.prevRootHashZ
    rw [hprev]
  have hat : u.metaAt u.prevRootHashZ win = s.metaAt s.prevRootHashZ win := by
    unfold NodeSt.metaAt
    rw [hroot, hcache]
  rcases h with h | ⟨hnone, h⟩
  · exact .inl (hat.trans h)
  · obtain ⟨x, hrun⟩ := metaRun_of_ok h
    obtain ⟨mm, hu, -⟩ := (hrun.congr hst hprev).run u.prevRootHashZ
    exact .inr ⟨hat.trans hnone, by rw [hu]⟩

/-- `getMetaFull` returns it, and has it in the cache afterwards. -/
theorem NodeSt.HasMeta.getMetaFull (h : s.HasMeta Γ win m) {ti : Int} (hti : window ti = win) :
    ∃ mm, runNode (Grain.getMetaFull Γ ti) s = (.ok m, { s with blockMetaFull := mm }) ∧
      ({ s with blockMetaFull := mm } : NodeSt).HasMeta Γ win m := by
  subst hti
  unfold Grain.getMetaFull
  rw [runNode_get_bind]
  rcases h with h | ⟨hnone, h⟩
  · rw [h]
    exact ⟨s.blockMetaFull, rfl, .inl h⟩
  · rw [hnone]
    obtain ⟨x, hrun⟩ := metaRun_of_ok h
    obtain ⟨mm, hmm, hat⟩ := hrun.run s.prevRootHashZ
    exact ⟨mm, hmm, .inl hat⟩

/-- Where it returns metadata, these are the metadata of the window, before and after. -/
theorem getMetaFull_ok {ti : Int} (h : runNode (getMetaFull Γ ti) s = (.ok m, u)) :
    s.HasMeta Γ (window ti) m ∧ ∃ mm, u = { s with blockMetaFull := mm } ∧ u.HasMeta Γ (window ti) m := by
  have hhas : s.HasMeta Γ (window ti) m := by
    unfold getMetaFull at h
    rw [runNode_get_bind] at h
    cases hat : s.metaAt s.prevRootHashZ (window ti) with
    | some a =>
      rw [hat] at h
      obtain rfl := Except.ok.inj (Prod.mk.inj h).1
      exact .inl hat
    | none =>
      rw [hat] at h
      exact .inr ⟨hat, congrArg Prod.fst h⟩
  obtain ⟨mm, hrun, hmm⟩ := hhas.getMetaFull (show window ti = window ti from rfl)
  rw [hrun] at h
  obtain rfl := (Prod.mk.inj h).2
  exact ⟨hhas, mm, rfl, hmm⟩

end Grain
