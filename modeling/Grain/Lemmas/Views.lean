import Grain.Lemmas.Meta
import Grain.Leader

/-!
# What a node sees of the other nodes

The checks of certificates ask the tree for nodes by their names and for the list of all nodes, and the metadata for stakes. Two
states in which these are the same accept the same certificates.
-/

namespace Grain

open Eff

variable {Γ : Ctx} {s v : St} {α β : Type}

/-- The run of code that reads, in two parts. -/
theorem Reads.result_bind {m : Eff α} (h : Reads Γ m) (k : α → Eff β) (s : St) :
    (runEff Γ (m >>= k) s).1 = (runEff Γ m s).1 >>= fun a => (runEff Γ (k a) s).1 := by
  have hrun := Prog.run_bind (exec Γ) m k s
  unfold runEff
  rw [hrun]
  rcases hm : Prog.run (exec Γ) m s with ⟨e | a, t⟩
  · rfl
  · have ht : t = s := by
      have := h.state_eq (s := s) (a := a) (by unfold runEff; rw [hm])
      unfold runEff at this
      rw [hm] at this
      exact this
    rw [ht]
    rfl

/-- Code that reads ends with a value if both of its parts do. -/
theorem Reads.bind_ok {m : Eff α} (h : Reads Γ m) {k : α → Eff β} {b : β} :
    (runEff Γ (m >>= k) s).1 = .ok b ↔ ∃ a, (runEff Γ m s).1 = .ok a ∧ (runEff Γ (k a) s).1 = .ok b := by
  rw [h.result_bind]
  cases (runEff Γ m s).1 with
  | error e => exact ⟨nofun, fun ⟨_, h, _⟩ => nomatch h⟩
  | ok a =>
    refine ⟨fun h => ⟨a, rfl, h⟩, ?_⟩
    rintro ⟨a', ha, h⟩
    obtain rfl := Except.ok.inj ha
    exact h

@[simp] theorem result_pure (a : α) (s : St) : (runEff Γ (pure a : Eff α) s).1 = .ok a := rfl

@[simp] theorem result_lift (x : Except Stop α) (s : St) : (runEff Γ (Eff.lift x) s).1 = x := by
  cases x <;> rfl

theorem Reads.stakedSigners (msg : String) (mf : BlockMetaFull) (l : List String) :
    Reads Γ (Grain.stakedSigners Γ msg mf l) := by
  induction l with
  | nil => exact pure []
  | cons z l ih =>
    exact (getNodeNoCreate z).bind fun n => (raiseIf _ _).bind fun _ => (need _).bind fun _ => (lift _).bind fun _ =>
      ih.bind fun _ => pure _

/-! ## Nodes by their names -/

/-- The list of all nodes, as the tree has it. -/
def nodeListOf (Γ : Ctx) (s : St) : Except Stop (Option (StdSet String)) :=
  (runEff Γ (getNodeListNoCreate Γ) s).1.map (Option.map (·.val))

/-- The tree has the node under the name. -/
def IsNode (Γ : Ctx) (s : St) (name : String) (n : BcNode) : Prop := nodeOf Γ s name = .ok (some n)

/-- Looking a node up and using it. -/
theorem node_ok {msg name : String} {k : Leaf BcNode → Eff β} {b : β} :
    (runEff Γ (getNodeNoCreate Γ name >>= fun n => Eff.raiseIf n.isNone msg >>= fun _ => Eff.need n >>= k) s).1 = .ok b ↔
      ∃ l, (runEff Γ (getNodeNoCreate Γ name) s).1 = .ok (some l) ∧ (runEff Γ (k l) s).1 = .ok b := by
  rw [(Reads.getNodeNoCreate name).result_bind]
  cases (runEff Γ (getNodeNoCreate Γ name) s).1 with
  | error e => exact ⟨nofun, fun ⟨_, h, _⟩ => nomatch h⟩
  | ok r =>
    cases r with
    | none => exact ⟨nofun, fun ⟨_, h, _⟩ => nomatch h⟩
    | some l =>
      refine ⟨fun h => ⟨l, rfl, h⟩, ?_⟩
      rintro ⟨l', hl, h⟩
      obtain rfl := Option.some.inj (Except.ok.inj hl)
      exact h

theorem isNode_iff {name : String} {n : BcNode} :
    IsNode Γ s name n ↔ ∃ l, (runEff Γ (getNodeNoCreate Γ name) s).1 = .ok (some l) ∧ l.val = n := by
  unfold IsNode nodeOf
  cases (runEff Γ (getNodeNoCreate Γ name) s).1 with
  | error e => exact ⟨nofun, fun ⟨_, h, _⟩ => nomatch h⟩
  | ok r =>
    cases r with
    | none => exact ⟨nofun, fun ⟨_, h, _⟩ => nomatch h⟩
    | some l =>
      refine ⟨fun h => ⟨l, rfl, Option.some.inj (Except.ok.inj h)⟩, ?_⟩
      rintro ⟨l', hl, rfl⟩
      obtain rfl := Option.some.inj (Except.ok.inj hl)
      rfl

/-- The nodes of a list of names. -/
theorem signers_ok {msg : String} {l : List String} {ns : List BcNode} :
    (runEff Γ (signers Γ msg l) s).1 = .ok ns ↔ List.Forall₂ (IsNode Γ s) l ns := by
  induction l generalizing ns with
  | nil =>
    rw [List.forall₂_nil_left_iff]
    exact ⟨fun h => (Except.ok.inj h).symm, fun h => by rw [h]; rfl⟩
  | cons z l ih =>
    unfold signers
    rw [node_ok, List.forall₂_cons_left_iff]
    constructor
    · rintro ⟨n, hn, h⟩
      rw [(Reads.signers msg l).result_bind] at h
      cases hr : (runEff Γ (signers Γ msg l) s).1 with
      | error e =>
        rw [hr] at h
        nomatch h
      | ok rest =>
        rw [hr] at h
        exact ⟨n.val, rest, isNode_iff.2 ⟨n, hn, rfl⟩, ih.1 hr, (Except.ok.inj h).symm⟩
    · rintro ⟨n, rest, hn, hrest, rfl⟩
      obtain ⟨x, hx, rfl⟩ := isNode_iff.1 hn
      refine ⟨x, hx, ?_⟩
      rw [(Reads.signers msg l).result_bind, ih.2 hrest]
      rfl

theorem reads_orErr {α : Type} (msg : String) (x : Option α) : Reads Γ (orErr msg x) := by
  cases x with
  | none => exact .stop _
  | some a => exact .ret a

theorem reads_votedStake (l : List String) (x : Int) : Reads Γ (votedStake Γ l x) := by
  induction l generalizing x with
  | nil => exact .pure x
  | cons z l ih => exact ((Reads.getNodeNoCreate z).bind fun _ => reads_orErr _ _).bind fun _ => ih _

/-- The stake that is counted for nodes of the tree. -/
theorem result_votedStake {l : List String} {ns : List BcNode} (h : List.Forall₂ (IsNode Γ s) l ns) (x : Int) :
    (runEff Γ (votedStake Γ l x) s).1 = .ok ((ns.map (·.getFullStake)).foldl (fun r z => wrap64 (r + z)) x) := by
  induction h generalizing x with
  | nil => rfl
  | @cons z n l ns hz _ ih =>
    obtain ⟨y, hy, rfl⟩ := isNode_iff.1 hz
    have hget : (runEff Γ (getNodeNoCreate Γ z >>= orErr ("node not found " ++ z)) s).1 = .ok y := by
      rw [(Reads.getNodeNoCreate z).result_bind, hy]
      rfl
    unfold votedStake
    rw [((Reads.getNodeNoCreate z).bind fun _ => reads_orErr _ _).result_bind, hget]
    exact ih _

/-- The nodes of a list of names, with their stakes in the metadata. -/
theorem stakedSigners_ok {msg : String} {mf : BlockMetaFull} {l : List String} {ps : List (String × Int)} :
    (runEff Γ (stakedSigners Γ msg mf l) s).1 = .ok ps ↔
      ∃ ns, List.Forall₂ (IsNode Γ s) l ns ∧ ps.map (·.1) = ns.map (·.blsPk) ∧ l.mapM mf.getPrevStake = .ok (ps.map (·.2)) := by
  induction l generalizing ps with
  | nil =>
    constructor
    · intro h
      obtain rfl : [] = ps := Except.ok.inj h
      exact ⟨[], .nil, rfl, rfl⟩
    · rintro ⟨ns, hns, hps, -⟩
      rw [List.forall₂_nil_left_iff] at hns
      rw [hns, List.map_nil, List.map_eq_nil_iff] at hps
      rw [hps]
      rfl
  | cons z l ih =>
    unfold stakedSigners
    rw [node_ok]
    constructor
    · rintro ⟨n, hn, h⟩
      rw [(Reads.lift _).result_bind, result_lift] at h
      cases hk : mf.getPrevStake z with
      | error e =>
        rw [hk] at h
        nomatch h
      | ok k =>
        rw [hk] at h
        change (runEff Γ (stakedSigners Γ msg mf l >>= _) s).1 = _ at h
        rw [(Reads.stakedSigners msg mf l).result_bind] at h
        cases hr : (runEff Γ (stakedSigners Γ msg mf l) s).1 with
        | error e =>
          rw [hr] at h
          nomatch h
        | ok rest =>
          rw [hr] at h
          obtain rfl := Except.ok.inj h
          obtain ⟨ns, hns, hfst, hsnd⟩ := ih.1 hr
          refine ⟨n.val :: ns, .cons (isNode_iff.2 ⟨n, hn, rfl⟩) hns, by rw [List.map_cons, List.map_cons, hfst], ?_⟩
          rw [List.mapM_cons, hk, hsnd]
          rfl
    · rintro ⟨ns, hns, hfst, hsnd⟩
      obtain ⟨n, ns', hn, hns', rfl⟩ := List.forall₂_cons_left_iff.1 hns
      obtain ⟨x, hx, rfl⟩ := isNode_iff.1 hn
      cases ps with
      | nil => nomatch hfst
      | cons p ps =>
        obtain ⟨hp, hfst⟩ := List.cons_eq_cons.1 hfst
        rw [List.mapM_cons] at hsnd
        cases hk : mf.getPrevStake z with
        | error e =>
          rw [hk] at hsnd
          nomatch hsnd
        | ok k =>
          rw [hk] at hsnd
          cases hks : l.mapM mf.getPrevStake with
          | error e =>
            rw [hks] at hsnd
            nomatch hsnd
          | ok ks =>
            rw [hks] at hsnd
            obtain ⟨hk', rfl⟩ := List.cons_eq_cons.1 (Except.ok.inj hsnd)
            refine ⟨x, hx, ?_⟩
            rw [(Reads.lift _).result_bind, result_lift]
            change (runEff Γ (stakedSigners Γ msg mf l >>= _) s).1 = _
            rw [(Reads.stakedSigners msg mf l).result_bind, ih.2 ⟨ns', hns', hfst, hks⟩]
            change Except.ok ((x.val.blsPk, k) :: ps) = Except.ok (p :: ps)
            have hpk : (x.val.blsPk, k) = p := Prod.ext hp.symm hk'
            rw [hpk]

/-! ## All nodes -/

/-- The nodes of a list of names, with those that are not there. -/
def nodesOf (Γ : Ctx) (s : St) : List String → Except Stop (List (Option BcNode))
  | [] => .ok []
  | z :: zs => do
    let n ← nodeOf Γ s z
    let rest ← nodesOf Γ s zs
    .ok (n :: rest)

theorem getNodes_result (l : List String) :
    (runEff Γ (getNodes Γ l) s).1.map (List.map (Option.map (·.val))) = nodesOf Γ s l := by
  induction l with
  | nil => rfl
  | cons z l ih =>
    unfold getNodes nodesOf
    rw [(Reads.getNodeNoCreate z).result_bind, ← ih]
    unfold nodeOf
    cases (runEff Γ (getNodeNoCreate Γ z) s).1 with
    | error e => rfl
    | ok n =>
      change Except.map _ (runEff Γ (getNodes Γ l >>= _) s).1 = _
      rw [(Reads.getNodes l).result_bind]
      cases (runEff Γ (getNodes Γ l) s).1 <;> rfl

/-- The nodes themselves; one that is not there is a null pointer. -/
def presentOf : List (Option BcNode) → Except Stop (List BcNode)
  | [] => .ok []
  | none :: _ => .error (.exn .nullDeref)
  | some n :: ns => do
    let rest ← presentOf ns
    .ok (n :: rest)

theorem needAll_result (l : List (Option (Leaf BcNode))) :
    (runEff Γ (needAll l) s).1.map (List.map (·.val)) = presentOf (l.map (Option.map (·.val))) := by
  induction l with
  | nil => rfl
  | cons z l ih =>
    cases z with
    | none => rfl
    | some n =>
      unfold needAll
      change Except.map _ (runEff Γ (needAll l >>= _) s).1 = _
      rw [(Reads.needAll l).result_bind, List.map_cons, Option.map_some, presentOf, ← ih]
      cases (runEff Γ (needAll l) s).1 <;> rfl

/-- The nodes of the list. -/
def allNodesOf (Γ : Ctx) (s : St) : Option (StdSet String) → Except Stop (List (Option BcNode))
  | none => .error (.exn (.commonError "if(!nl.valid())"))
  | some nl => nodesOf Γ s nl.toList

theorem getAllNodes_result :
    (runEff Γ (getAllNodes Γ) s).1.map (List.map (Option.map (·.val))) = (nodeListOf Γ s).bind (allNodesOf Γ s) := by
  have hlist : Reads Γ (getNodeListNoCreate Γ) := .getNoCreate _ _
  unfold getAllNodes nodeListOf
  rw [hlist.result_bind]
  cases (runEff Γ (getNodeListNoCreate Γ) s).1 with
  | error e => rfl
  | ok nl =>
    cases nl with
    | none => rfl
    | some nl => exact getNodes_result nl.val.toList

/-- The stake of the enabled nodes, from the nodes and their list. -/
theorem enabledStake_result :
    (runEff Γ (enabledStake Γ) s).1 =
      (((nodeListOf Γ s).bind (allNodesOf Γ s)).bind presentOf).map fun ns =>
        sumStakes ((ns.filter (·.enabled)).map (·.getFullStake)) := by
  unfold enabledStake enabledNodes
  rw [← getAllNodes_result]
  rw [(Reads.getAllNodes.bind fun an => (Reads.needAll an).bind fun ns => .pure _).result_bind, Reads.getAllNodes.result_bind]
  cases (runEff Γ (getAllNodes Γ) s).1 with
  | error e => rfl
  | ok an =>
    change (runEff Γ (needAll an >>= _) s).1 >>= _ = Except.map _ (Except.bind (Except.ok _) presentOf)
    rw [(Reads.needAll an).result_bind]
    change _ = Except.map _ (presentOf (an.map (Option.map (·.val))))
    rw [← needAll_result (Γ := Γ) (s := s)]
    cases (runEff Γ (needAll an) s).1 <;> rfl

/-! ## Two views -/

/-- `v` sees the nodes, their list and the metadata as `s` does. -/
structure SameView (Γ : NodeCtx) (s v : NodeSt) : Prop where
  node : ∀ name, nodeOf Γ.ctx v.st name = nodeOf Γ.ctx s.st name
  list : nodeListOf Γ.ctx v.st = nodeListOf Γ.ctx s.st
  metadata : ∀ win m, s.HasMeta Γ win m → v.HasMeta Γ win m

namespace SameView

variable {Γ : NodeCtx} {s v t : NodeSt}

theorem refl (s : NodeSt) : SameView Γ s s := ⟨fun _ => rfl, rfl, fun _ _ h => h⟩

/-- It depends on the tree, the previous block and the cache. -/
theorem congr (h : SameView Γ t v) (hst : t.st = s.st) (hprev : t.prevBlock = s.prevBlock)
    (hcache : t.blockMetaFull = s.blockMetaFull) : SameView Γ s v := by
  refine ⟨fun name => ?_, ?_, fun win m hm => h.metadata win m (hm.congr (by rw [hst]) hprev hcache)⟩
  · rw [h.node, hst]
  · rw [h.list, hst]

theorem isNode (h : SameView Γ s v) {name : String} {n : BcNode} (hn : IsNode Γ.ctx s.st name n) : IsNode Γ.ctx v.st name n :=
  (h.node name).trans hn

theorem isNodes (h : SameView Γ s v) {l : List String} {ns : List BcNode} (hn : List.Forall₂ (IsNode Γ.ctx s.st) l ns) :
    List.Forall₂ (IsNode Γ.ctx v.st) l ns :=
  hn.imp fun _ _ => h.isNode

theorem enabledStake (h : SameView Γ s v) :
    (runEff Γ.ctx (Grain.enabledStake Γ.ctx) v.st).1 = (runEff Γ.ctx (Grain.enabledStake Γ.ctx) s.st).1 := by
  have hnodes : ∀ l, nodesOf Γ.ctx v.st l = nodesOf Γ.ctx s.st l := by
    intro l
    induction l with
    | nil => rfl
    | cons z l ih =>
      unfold nodesOf
      rw [h.node, ih]
  have hall : allNodesOf Γ.ctx v.st = allNodesOf Γ.ctx s.st := by
    funext nl
    cases nl with
    | none => rfl
    | some nl => exact hnodes nl.toList
  rw [enabledStake_result, enabledStake_result, h.list, hall]

end SameView

end Grain
