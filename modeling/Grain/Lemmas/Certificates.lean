import Grain.Client
import Grain.Lemmas.Tables
import Grain.Lemmas.Views

/-!
# Certificates that pass

What a leader has tested before it builds a certificate is what a node tests that receives it, if the two see the same: the keys
and stakes are those of the same names in the same order, and a share over the quorum is not under it.
-/

namespace Grain

variable {Γ : Ctx} {s v : St} {β : Type}

theorem percent_ok {a b q : Int} : (runEff Γ (percent a b) s).1 = .ok q ↔ b ≠ 0 ∧ (wrap64 (a * 100)).tdiv b = q := by
  unfold percent Eff.quot
  split
  next h => exact ⟨nofun, fun h' => absurd h h'.1⟩
  next h => exact ⟨fun h' => ⟨h, Except.ok.inj h'⟩, fun h' => by rw [h'.2]; rfl⟩

theorem Reads.percent (a b : Int) : Reads Γ (Grain.percent a b) := .quot _ _

/-- The strict test. -/
theorem overQuorum_true {a b : Int} (h : (runEff Γ (overQuorum a b) s).1 = .ok true) :
    ∃ q, (runEff Γ (percent a b) v).1 = .ok q ∧ ¬ q < quorum := by
  obtain ⟨q, hq, h⟩ := (Reads.percent a b).bind_ok.1 h
  have hlt : q > quorum := of_decide_eq_true (Except.ok.inj h)
  exact ⟨q, percent_ok.2 (percent_ok.1 hq), by omega⟩

theorem raiseIf_ok {c : Prop} [Decidable c] {msg : String} {a : Unit} :
    (runEff Γ (Eff.raiseIf c msg) s).1 = .ok a ↔ ¬ c := by
  unfold Eff.raiseIf
  split
  next h => exact ⟨nofun, fun h' => absurd h h'⟩
  next h => exact ⟨fun _ => h, fun _ => rfl⟩

theorem sumPrev_ok {mf : BlockMetaFull} {l : List String} {a : Int} :
    mf.sumPrev l = .ok a ↔ ∃ ks, l.mapM mf.getPrevStake = .ok ks ∧ sumStakes ks = a := by
  unfold BlockMetaFull.sumPrev
  cases l.mapM mf.getPrevStake with
  | error e => exact ⟨nofun, fun ⟨_, h, _⟩ => nomatch h⟩
  | ok ks =>
    refine ⟨fun h => ⟨ks, rfl, Except.ok.inj h⟩, ?_⟩
    rintro ⟨ks', hks, rfl⟩
    rw [Except.ok.inj hks]
    rfl

theorem length_of_mapM {mf : BlockMetaFull} {l : List String} {ks : List Int} (h : l.mapM mf.getPrevStake = .ok ks) :
    l.length = ks.length := by
  induction l generalizing ks with
  | nil =>
    obtain rfl : [] = ks := Except.ok.inj h
    rfl
  | cons z l ih =>
    rw [List.mapM_cons] at h
    cases hk : mf.getPrevStake z with
    | error e =>
      rw [hk] at h
      nomatch h
    | ok k =>
      rw [hk] at h
      cases hr : l.mapM mf.getPrevStake with
      | error e =>
        rw [hr] at h
        nomatch h
      | ok rest =>
        rw [hr] at h
        obtain rfl := Except.ok.inj h
        rw [List.length_cons, List.length_cons, ih hr]

/-! ## The leader's certificate -/

/-- What `makeLeaderCert` has tested. -/
theorem makeLeaderCert_ok {bt : BlockLeader} {hb : HeartBeatREQ} {mf : BlockMetaFull} {lc : LeaderCert}
    (h : (runEff Γ (makeLeaderCert Γ bt hb mf) s).1 = .ok lc) :
    ∃ ps q, (runEff Γ (stakedSigners Γ "if(!n.valid()) ##124" mf (bt.counted hb.getHash .confirmLeaderRSPmCopy)) s).1 = .ok ps ∧
      lc = leaderCertOf hb ((bt.confirmLeaderRSPmCopy[hb.getHash]?.getD ∅).toList.map (·.2)) ∧
      lc.aggSig.verify (ps.map (·.1)) hb.getHash = true ∧
      (runEff Γ (percent (sumStakes (ps.map (·.2))) mf.fullStake) s).1 = .ok q ∧ ¬ q < quorum := by
  unfold makeLeaderCert at h
  dsimp only at h
  rw [List.map_map] at h
  obtain ⟨ps, hps, h⟩ := (Reads.stakedSigners _ _ _).bind_ok.1 h
  obtain ⟨_, hverify, h⟩ := (Reads.raiseIf _ _).bind_ok.1 h
  obtain ⟨q, hq, h⟩ := (Reads.percent _ _).bind_ok.1 h
  obtain ⟨_, hquorum, h⟩ := (Reads.raiseIf _ _).bind_ok.1 h
  obtain rfl := Except.ok.inj h
  exact ⟨ps, q, hps, rfl, by simpa using raiseIf_ok.1 hverify, hq, raiseIf_ok.1 hquorum⟩

/-- The names in the certificate are those that were counted. -/
theorem nodeValidators_leaderCertOf {bt : BlockLeader} (hk : Keyed bt) (hb : HeartBeatREQ) :
    (leaderCertOf hb ((bt.confirmLeaderRSPmCopy[hb.getHash]?.getD ∅).toList.map (·.2))).nodeValidators.toList =
      bt.counted hb.getHash .confirmLeaderRSPmCopy := by
  have hfold : ∀ (rs : List ConfirmLeaderRSP) (w : StdSet String),
      rs.foldl (fun v z => v.insert z.nodeSigner) w = (rs.map (·.nodeSigner)).foldl (fun v z => v.insert z) w := by
    intro rs
    induction rs with
    | nil => exact fun w => rfl
    | cons r rs ih => exact fun w => ih _
  have hcounted : bt.counted hb.getHash .confirmLeaderRSPmCopy =
      ((bt.confirmLeaderRSPmCopy[hb.getHash]?.getD ∅).toList.map (·.2)).map (·.nodeSigner) := by
    rw [List.map_map]
    rfl
  unfold leaderCertOf
  rw [hfold, ← hcounted]
  refine toList_foldl_insert ?_
  rw [counted_copy hk]
  exact ordered_names _

/-- The certificate passes where the nodes are the same. -/
theorem verifyLeaderCert_made {bt : BlockLeader} (hk : Keyed bt) {hb : HeartBeatREQ} {mf : BlockMetaFull} {lc : LeaderCert}
    (h : (runEff Γ (makeLeaderCert Γ bt hb mf) s).1 = .ok lc) (hv : ∀ name n, IsNode Γ s name n → IsNode Γ v name n) :
    (runEff Γ (verifyLeaderCert Γ lc mf) v).1 = .ok true := by
  obtain ⟨ps, q, hps, rfl, hverify, hq, hquorum⟩ := makeLeaderCert_ok h
  obtain ⟨ns, hns, hfst, hsnd⟩ := stakedSigners_ok.1 hps
  have hps' : (runEff Γ (stakedSigners Γ "if(!n.valid()) @@$8" mf (bt.counted hb.getHash .confirmLeaderRSPmCopy)) v).1 = .ok ps :=
    stakedSigners_ok.2 ⟨ns, hns.imp fun _ _ => hv _ _, hfst, hsnd⟩
  unfold verifyLeaderCert
  rw [nodeValidators_leaderCertOf hk]
  refine (Reads.stakedSigners _ _ _).bind_ok.2 ⟨ps, hps', ?_⟩
  have hhb : ∀ rs, (leaderCertOf hb rs).hb = hb := fun _ => rfl
  rw [hhb, if_neg (not_not.2 hverify)]
  refine (Reads.percent _ _).bind_ok.2 ⟨q, percent_ok.2 (percent_ok.1 hq), ?_⟩
  rw [decide_eq_true hquorum]
  rfl

/-! ## The certificates of a block -/

/-- The quorum test over the answers to `ValidateBlockREQ`. -/
theorem validateQuorum_ok {bt : BlockLeader} {h : String} {mf : BlockMetaFull}
    (hq : (runEff Γ (isValidateBlockRSPmQuorum bt h mf) s).1 = .ok true) :
    ∃ staked full q, mf.sumPrev (bt.counted h .validateBlockRSPm) = .ok staked ∧ mf.stakeCommittee = .ok full ∧
      (runEff Γ (percent staked full) v).1 = .ok q ∧ ¬ q < quorum := by
  unfold isValidateBlockRSPmQuorum at hq
  obtain ⟨staked, hstaked, hq⟩ := (Reads.lift _).bind_ok.1 hq
  obtain ⟨full, hfull, hq⟩ := (Reads.lift _).bind_ok.1 hq
  rw [result_lift] at hstaked hfull
  obtain ⟨q, hpercent, hquorum⟩ := overQuorum_true hq
  exact ⟨staked, full, q, hstaked, hfull, hpercent, hquorum⟩

/-- The certificate over these answers passes where the view is the same. -/
theorem acceptsValidators_made {Γ : NodeCtx} {s v : NodeSt} {bt : BlockLeader} {b : BlockInfo} {mf : BlockMetaFull}
    {rs : List ValidateBlockRSP} {ns : List BcNode} (hrs : bt.validateBlockRSPm[b.getHash]?.getD [] = rs)
    (hmeta : v.HasMeta Γ b.heartBeat.window mf) (hq : (runEff Γ.ctx (isValidateBlockRSPmQuorum bt b.getHash mf) s.st).1 = .ok true)
    (hns : List.Forall₂ (IsNode Γ.ctx v.st) (acceptedOf b rs).nodeValidators ns)
    (hverify : (acceptedOf b rs).aggSig.verify (ns.map (·.blsPk)) b.getHash = true) :
    (runNode (acceptsValidators Γ (acceptedOf b rs)) v).1 = .ok true := by
  obtain ⟨staked, full, q, hstaked, hfull, hpercent, hquorum⟩ := validateQuorum_ok (v := v.st) hq
  have hnames : bt.counted b.getHash .validateBlockRSPm = (acceptedOf b rs).nodeValidators := by
    rw [← hrs]
    rfl
  rw [hnames] at hstaked
  obtain ⟨mm, hmm, -⟩ := hmeta.getMetaFull (show Grain.window b.heartBeat.blockTimestamp = b.heartBeat.window from rfl)
  have hinfo : (acceptedOf b rs).blockInfo = b := rfl
  unfold acceptsValidators
  rw [runNode_bind_ok (runNode_tree_ok (.signers _ _) (signers_ok.2 hns)), hinfo, hverify, if_neg Bool.noConfusion]
  rw [runNode_bind_ok hmm, hstaked, hfull]
  change (runNode (Node.tree Γ.ctx (percent staked full) >>= _) _).1 = _
  rw [runNode_bind_ok (runNode_tree_ok (s := { v with blockMetaFull := mm }) (.percent _ _) hpercent), decide_eq_true hquorum]
  rfl

/-- The quorum test over the answers to `BlockDiffValidateREQ`. -/
theorem treeQuorum_ok {names : List String} (hq : (runEff Γ (treeQuorum Γ names) s).1 = .ok true) :
    ∃ full ns, (runEff Γ (enabledStake Γ) s).1 = .ok full ∧ List.Forall₂ (IsNode Γ s) names ns ∧
      ∃ q, (runEff Γ (percent (sumStakes (ns.map (·.getFullStake))) full) v).1 = .ok q ∧ ¬ q < quorum := by
  unfold treeQuorum at hq
  obtain ⟨full, hfull, hq⟩ := Reads.enabledStake.bind_ok.1 hq
  obtain ⟨ns, hns, hq⟩ := (Reads.signers _ _).bind_ok.1 hq
  exact ⟨full, ns, hfull, signers_ok.1 hns, overQuorum_true hq⟩

/-- The certificate over these answers passes where the view is the same. -/
theorem verifyBlockAll_made {Γ : NodeCtx} {s v : NodeSt} (hview : SameView Γ s v) {lc : BlockAccepted2REQ} {ns : List BcNode}
    (hq : (runEff Γ.ctx (treeQuorum Γ.ctx lc.nodeDiffValidators) s.st).1 = .ok true)
    (hns : List.Forall₂ (IsNode Γ.ctx s.st) lc.nodeDiffValidators ns)
    (hverify : lc.aggDiffSig.verify (ns.map (·.blsPk)) lc.blockAcceptedREQ.getHash = true) :
    (runEff Γ.ctx (verifyBlockAll Γ.ctx (some lc)) v.st).1 = .ok true := by
  obtain ⟨full, ns', hfull, hns', q, hpercent, hquorum⟩ := treeQuorum_ok (v := v.st) hq
  obtain rfl : ns' = ns := by
    have h : (runEff Γ.ctx (signers Γ.ctx "" lc.nodeDiffValidators) s.st).1 = .ok ns' := signers_ok.2 hns'
    rw [signers_ok.2 hns] at h
    exact (Except.ok.inj h).symm
  unfold verifyBlockAll
  refine (Reads.signers _ _).bind_ok.2 ⟨ns', signers_ok.2 (hview.isNodes hns'), ?_⟩
  refine Reads.enabledStake.bind_ok.2 ⟨full, hview.enabledStake.trans hfull, ?_⟩
  refine (Reads.percent _ _).bind_ok.2 ⟨q, hpercent, ?_⟩
  rw [if_neg hquorum, hverify]
  rfl

/-- What `acceptsValidators` has tested. -/
theorem acceptsValidators_ok {Γ : NodeCtx} {v : NodeSt} {ba : BlockAcceptedREQ}
    (h : (runNode (acceptsValidators Γ ba) v).1 = .ok true) :
    ∃ ns mf staked full q, List.Forall₂ (IsNode Γ.ctx v.st) ba.nodeValidators ns ∧
      ba.aggSig.verify (ns.map (·.blsPk)) ba.blockInfo.getHash = true ∧ v.HasMeta Γ ba.blockInfo.heartBeat.window mf ∧
      mf.sumPrev ba.nodeValidators = .ok staked ∧ mf.stakeCommittee = .ok full ∧
      (runEff Γ.ctx (percent staked full) v.st).1 = .ok q ∧ ¬ q < quorum := by
  unfold acceptsValidators at h
  obtain ⟨ns, u, hns, h⟩ := runNode_bind_inv h
  obtain ⟨hns, hu⟩ := runNode_tree_inv (.signers _ _) hns
  rw [hu] at h
  split at h
  · nomatch h
  next hverify =>
    obtain ⟨mf, u, hmf, h⟩ := runNode_bind_inv h
    obtain ⟨hmeta, mm, hu, -⟩ := getMetaFull_ok hmf
    rw [hu] at h
    obtain ⟨staked, u, hstaked, h⟩ := runNode_bind_inv h
    rw [runNode_ofExcept] at hstaked
    obtain ⟨hstaked, hu⟩ := Prod.mk.inj hstaked
    rw [← hu] at h
    obtain ⟨full, u, hfull, h⟩ := runNode_bind_inv h
    rw [runNode_ofExcept] at hfull
    obtain ⟨hfull, hu⟩ := Prod.mk.inj hfull
    rw [← hu] at h
    obtain ⟨q, u, hq, h⟩ := runNode_bind_inv h
    obtain ⟨hq, -⟩ := runNode_tree_inv (.percent _ _) hq
    have hquorum : ¬ q < quorum := of_decide_eq_true (Except.ok.inj h)
    exact ⟨ns, mf, staked, full, q, signers_ok.1 hns, by simpa using hverify, hmeta, hstaked, hfull, hq, hquorum⟩

/-- A block of which both certificates pass is accepted by `BlockDBStore`. -/
theorem acceptsBlock_of {Γ : NodeCtx} {v : NodeSt} {lc : BlockAccepted2REQ}
    (hba : (runNode (acceptsValidators Γ lc.blockAcceptedREQ) v).1 = .ok true)
    (hlc : (runEff Γ.ctx (verifyBlockAll Γ.ctx (some lc)) v.st).1 = .ok true) :
    ∃ mf, v.HasMeta Γ lc.blockAcceptedREQ.blockInfo.heartBeat.window mf ∧
      (runEff Γ.ctx (acceptsBlock Γ.ctx lc mf) v.st).1 = .ok true := by
  obtain ⟨ns, mf, staked, full, q, hns, hverify, hmeta, hstaked, hfull, hq, hquorum⟩ := acceptsValidators_ok hba
  unfold verifyBlockAll at hlc
  obtain ⟨ds, hds, hlc⟩ := (Reads.signers _ _).bind_ok.1 hlc
  obtain ⟨stake, hstake, hlc⟩ := Reads.enabledStake.bind_ok.1 hlc
  obtain ⟨p, hp, hlc⟩ := (Reads.percent _ _).bind_ok.1 hlc
  split at hlc
  · nomatch hlc
  next hdiff =>
    obtain ⟨ks, hks, hsum⟩ := sumPrev_ok.1 hstaked
    have hlen : ns.length = ks.length := by
      have h₁ := hns.length_eq
      have h₂ := length_of_mapM hks
      omega
    have hfst : ((ns.map (·.blsPk)).zip ks).map (·.1) = ns.map (·.blsPk) := List.map_fst_zip (by simp [hlen])
    have hsnd : ((ns.map (·.blsPk)).zip ks).map (·.2) = ks := List.map_snd_zip (by simp [hlen])
    have hps : (runEff Γ.ctx (stakedSigners Γ.ctx "if(!n.valid()) @86" mf lc.blockAcceptedREQ.nodeValidators) v.st).1 =
        .ok ((ns.map (·.blsPk)).zip ks) :=
      stakedSigners_ok.2 ⟨ns, hns, hfst, by rw [hsnd]; exact hks⟩
    refine ⟨mf, hmeta, ?_⟩
    unfold acceptsBlock
    refine (Reads.stakedSigners _ _ _).bind_ok.2 ⟨_, hps, (Reads.lift _).bind_ok.2 ⟨full, by rw [result_lift, hfull], ?_⟩⟩
    rw [hfst, hsnd, hsum]
    refine (Reads.percent _ _).bind_ok.2 ⟨q, hq, ?_⟩
    rw [if_neg hquorum, if_neg (by rw [hverify]; exact Bool.noConfusion)]
    refine (Reads.signers _ _).bind_ok.2 ⟨ds, signers_ok.2 (signers_ok.1 hds), Reads.enabledStake.bind_ok.2 ⟨stake, hstake, ?_⟩⟩
    refine (Reads.percent _ _).bind_ok.2 ⟨p, hp, ?_⟩
    rw [if_neg hdiff]
    exact hlc

end Grain
