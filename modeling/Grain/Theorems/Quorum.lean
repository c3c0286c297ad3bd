import Grain.Lemmas.Certificates

/-!
# The arithmetic of the quorum

Every stake test of the protocol truncates `(stake * 100) / full` to an integer and compares it with `QUORUM`: the leader's tests
ask for more, those of the verifiers for as much.
-/

namespace Grain

open Prog Eff

variable {Γ : Ctx} {s : St} {β : Type}

/-! ## The tests -/

/-- The test of `execute_vote`. -/
def voteQuorum (Γ : Ctx) (b : BParams) (voted : StdSet String) : Eff Bool := do
  let stake ← votedStake Γ voted.toList 0
  overQuorum stake b.fullStake

/-- What `execute_vote` does when the test passes. -/
def setVoted (Γ : Ctx) (t : TParams) (seqId : Nat) (votes : DataPtr) (vhash param value : String) : Eff Unit := do
  let vv ← getValuesNoCreate Γ >>= need
  let n ← lift (stoull value)
  assign vv.ptr (.setValue param n)
  doIf (param = "validator_min_stake") (assign vv.ptr (.setValue "validator_min_stake_activated" 1))
  assign votes (.eraseVote vhash)
  markDirty votes
  markDirty vv.ptr
  emitCommand t seqId "vote_applied" (jsonText [("param", param), ("value", value)])

/-- It is the test that decides whether the value is set. -/
theorem applyVote_eq (Γ : Ctx) (b : BParams) (t : TParams) (seqId : Nat) (votes : DataPtr) (vhash param value : String)
    (voted : StdSet String) :
    applyVote Γ b t seqId votes vhash param value voted =
      markDirty votes >>= fun _ => voteQuorum Γ b voted >>= fun q => doIf (q = true) (setVoted Γ t seqId votes vhash param value) := by
  unfold applyVote voteQuorum overQuorum percent
  refine congrArg (markDirty votes >>= ·) (funext fun _ => ?_)
  refine Eq.trans ?_ (bind_bind _ _ _).symm
  refine congrArg (votedStake Γ voted.toList 0 >>= ·) (funext fun stake => ?_)
  refine Eq.trans ?_ (bind_bind _ _ _).symm
  refine congrArg (quot (wrap64 (stake * 100)) b.fullStake >>= ·) (funext fun q => ?_)
  change doIf (q > quorum) (setVoted Γ t seqId votes vhash param value) =
    doIf (decide (q > quorum) = true) (setVoted Γ t seqId votes vhash param value)
  simp only [decide_eq_true_eq]

/-- The stake tests, with what each is asked for. -/
inductive StakeTest
  | heartBeatRSPm (bt : BlockLeader) (h : String) (mf : BlockMetaFull)
  | confirmLeaderRSPm (bt : BlockLeader) (h : String) (mf : BlockMetaFull)
  | validateBlockRSPm (bt : BlockLeader) (h : String) (mf : BlockMetaFull)
  | getTransactionRSPm (bt : BlockLeader) (h : String)
  | blockDiffValidateRSPm (bt : BlockLeader) (h : String)
  | vote (b : BParams) (voted : StdSet String)
  | makeLeaderCert (bt : BlockLeader) (hb : HeartBeatREQ) (mf : BlockMetaFull)
  | verifyLeaderCert (lc : LeaderCert) (mf : BlockMetaFull)
  | verifyBlockAll (lc : BlockAccepted2REQ)

namespace StakeTest

/-- The test asks for more than the quorum. -/
def strict : StakeTest → Bool
  | .heartBeatRSPm .. | .confirmLeaderRSPm .. | .validateBlockRSPm .. | .getTransactionRSPm .. | .blockDiffValidateRSPm ..
  | .vote .. => true
  | .makeLeaderCert .. | .verifyLeaderCert .. | .verifyBlockAll .. => false

/-- The certificate is made; it is not if the exception of a test is raised. -/
def made {α : Type} : Except Stop α → Except Stop Bool
  | .ok _ => .ok true
  | .error (.exn (.commonError _)) => .ok false
  | .error e => .error e

/-- What the code of the test answers. -/
def answer (Γ : Ctx) (s : St) : StakeTest → Except Stop Bool
  | .heartBeatRSPm bt h mf => (runEff Γ (isHeartBeatRSPmQuorum bt h mf) s).1
  | .confirmLeaderRSPm bt h mf => (runEff Γ (isConfirmLeaderRSPmQuorum bt h mf) s).1
  | .validateBlockRSPm bt h mf => (runEff Γ (isValidateBlockRSPmQuorum bt h mf) s).1
  | .getTransactionRSPm bt h => (runEff Γ (isGetTransactionRSPmQuorum Γ bt h) s).1
  | .blockDiffValidateRSPm bt h => (runEff Γ (isBlockDiffValidateRSPmQuorum Γ bt h) s).1
  | .vote b voted => (runEff Γ (voteQuorum Γ b voted) s).1
  | .makeLeaderCert bt hb mf => made (runEff Γ (Grain.makeLeaderCert Γ bt hb mf) s).1
  | .verifyLeaderCert lc mf => (runEff Γ (Grain.verifyLeaderCert Γ lc mf) s).1
  | .verifyBlockAll lc => (runEff Γ (Grain.verifyBlockAll Γ (some lc)) s).1

/-- The tree has nodes with these stakes under the names. -/
def TreeStakes (Γ : Ctx) (s : St) (names : List String) (stakes : List Int) : Prop :=
  ∃ ns, List.Forall₂ (IsNode Γ s) names ns ∧ stakes = ns.map (·.getFullStake)

/-- The enabled nodes of the tree have these stakes. -/
def EnabledStakes (Γ : Ctx) (s : St) (stakes : List Int) : Prop :=
  ∃ ns, (runEff Γ (enabledNodes Γ) s).1 = .ok ns ∧ stakes = ns.map (·.getFullStake)

/-- The metadata has these stakes for the names. -/
def MetaStakes (mf : BlockMetaFull) (names : List String) (stakes : List Int) : Prop :=
  names.mapM mf.getPrevStake = .ok stakes

/-- The nodes of the names and the signature over their keys are there, and the metadata has these stakes for them. -/
def SignedStakes (Γ : Ctx) (s : St) (mf : BlockMetaFull) (names : List String) (sig : AggregateSignature) (msg : String)
    (stakes : List Int) : Prop :=
  ∃ ns, List.Forall₂ (IsNode Γ s) names ns ∧ MetaStakes mf names stakes ∧ sig.verify (ns.map (·.blsPk)) msg = true

/-- The test is asked for signers and for a full set with these stakes. -/
def Asks (Γ : Ctx) (s : St) (signed full : List Int) : StakeTest → Prop
  | .heartBeatRSPm bt h mf => MetaStakes mf (bt.counted h .heartBeatRSPm) signed ∧ MetaStakes mf mf.allNodesEnabled full
  | .confirmLeaderRSPm bt h mf => bt.confirmLeaderRSPm.isEmpty = false ∧
      MetaStakes mf (bt.counted h .confirmLeaderRSPm) signed ∧ MetaStakes mf mf.allNodesEnabled full
  | .validateBlockRSPm bt h mf =>
      MetaStakes mf (bt.counted h .validateBlockRSPm) signed ∧ MetaStakes mf mf.committeMembers.toList full
  | .getTransactionRSPm bt h => TreeStakes Γ s (bt.counted h .getTransactionRSPm) signed ∧ EnabledStakes Γ s full
  | .blockDiffValidateRSPm bt h => TreeStakes Γ s (bt.counted h .blockDiffValidateRSPm) signed ∧ EnabledStakes Γ s full
  | .vote b voted => TreeStakes Γ s voted.toList signed ∧ b.fullStake = sumStakes full
  | .makeLeaderCert bt hb mf =>
      SignedStakes Γ s mf (((bt.confirmLeaderRSPmCopy[hb.getHash]?.getD ∅).toList.map (·.2)).map (·.nodeSigner))
        (leaderCertOf hb ((bt.confirmLeaderRSPmCopy[hb.getHash]?.getD ∅).toList.map (·.2))).aggSig hb.getHash signed ∧
      full = mf.prevStakes.toList.map (·.2)
  | .verifyLeaderCert lc mf =>
      SignedStakes Γ s mf lc.nodeValidators.toList lc.aggSig lc.hb.getHash signed ∧ full = mf.prevStakes.toList.map (·.2)
  | .verifyBlockAll lc => ∃ ns, List.Forall₂ (IsNode Γ s) lc.nodeDiffValidators ns ∧ signed = ns.map (·.getFullStake) ∧
      lc.aggDiffSig.verify (ns.map (·.blsPk)) lc.blockAcceptedREQ.getHash = true ∧ EnabledStakes Γ s full

/-- The comparison that the test stands for. -/
def Stands (t : StakeTest) (stake full : Int) : Prop :=
  if t.strict = true then 67 * full < 100 * stake else 67 * full ≤ 100 * stake

instance (t : StakeTest) (stake full : Int) : Decidable (t.Stands stake full) := by
  unfold Stands
  infer_instance

/-- The test decides its comparison, and no product overflows. -/
structure Exact (t : StakeTest) (Γ : Ctx) (s : St) (signed full : List Int) : Prop where
  fits : InI64 (signed.sum * 100)
  decides : t.answer Γ s = .ok (decide (t.Stands signed.sum full.sum))

end StakeTest

/-! ## The runs of the tests -/

/-- The comparison that the code makes. -/
def shared (strict : Bool) (stake full : Int) : Except Stop Bool :=
  if full = 0 then .error (.exn .divByZero)
  else .ok (if strict = true then decide ((wrap64 (stake * 100)).tdiv full > quorum)
    else decide (¬ (wrap64 (stake * 100)).tdiv full < quorum))

theorem result_percent (stake full : Int) : (runEff Γ (percent stake full) s).1 =
    if full = 0 then .error (.exn .divByZero) else .ok ((wrap64 (stake * 100)).tdiv full) := by
  unfold percent quot
  split <;> rfl

theorem result_overQuorum (stake full : Int) : (runEff Γ (overQuorum stake full) s).1 = shared true stake full := by
  unfold overQuorum shared
  rw [(Reads.percent stake full).result_bind, result_percent]
  split <;> rfl

theorem sumPrev_of {mf : BlockMetaFull} {l : List String} {stakes : List Int} (h : StakeTest.MetaStakes mf l stakes) :
    mf.sumPrev l = .ok (sumStakes stakes) :=
  sumPrev_ok.2 ⟨stakes, h, rfl⟩

/-- The test over two sums of the metadata. -/
theorem result_metaQuorum {x y : Except Stop Int} {a b : Int} (hx : x = .ok a) (hy : y = .ok b) :
    (runEff Γ (lift x >>= fun stake => lift y >>= fun full => overQuorum stake full) s).1 = shared true a b := by
  rw [hx, hy]
  exact result_overQuorum a b

theorem enabledStake_of {stakes : List Int} (h : StakeTest.EnabledStakes Γ s stakes) :
    (runEff Γ (enabledStake Γ) s).1 = .ok (sumStakes stakes) := by
  obtain ⟨ns, hns, rfl⟩ := h
  unfold enabledStake
  rw [Reads.enabledNodes.result_bind, hns]
  rfl

/-- The test over two sums of the tree. -/
theorem result_treeQuorum {names : List String} {signed full : List Int} (h : StakeTest.TreeStakes Γ s names signed)
    (hf : StakeTest.EnabledStakes Γ s full) :
    (runEff Γ (treeQuorum Γ names) s).1 = shared true (sumStakes signed) (sumStakes full) := by
  obtain ⟨ns, hns, rfl⟩ := h
  unfold treeQuorum
  rw [Reads.enabledStake.result_bind, enabledStake_of hf]
  change (runEff Γ (signers Γ "if(!n.valid()) $555" names >>= _) s).1 = _
  rw [(Reads.signers _ _).result_bind, signers_ok.2 hns]
  exact result_overQuorum _ _

/-- What the two functions read that look at a leader's certificate. -/
theorem stakedSigners_of (text : String) {mf : BlockMetaFull} {names : List String} {sig : AggregateSignature} {msg : String}
    {stakes : List Int} (h : StakeTest.SignedStakes Γ s mf names sig msg stakes) :
    ∃ ps, (runEff Γ (stakedSigners Γ text mf names) s).1 = .ok ps ∧ ps.map (·.2) = stakes ∧ sig.verify (ps.map (·.1)) msg = true := by
  obtain ⟨ns, hns, hstakes, hsig⟩ := h
  have hlen : (ns.map (·.blsPk)).length = stakes.length := by
    have h₁ := hns.length_eq
    have h₂ := length_of_mapM hstakes
    rw [List.length_map]
    omega
  have hfst : ((ns.map (·.blsPk)).zip stakes).map (·.1) = ns.map (·.blsPk) := List.map_fst_zip hlen.le
  have hsnd : ((ns.map (·.blsPk)).zip stakes).map (·.2) = stakes := List.map_snd_zip hlen.ge
  refine ⟨(ns.map (·.blsPk)).zip stakes, stakedSigners_ok.2 ⟨ns, hns, hfst, ?_⟩, hsnd, ?_⟩
  · rw [hsnd]
    exact hstakes
  · rw [hfst]
    exact hsig

/-- Every test makes its comparison with the two sums, as the code adds them up. -/
theorem StakeTest.answer_eq {t : StakeTest} {signed full : List Int} (h : t.Asks Γ s signed full) :
    t.answer Γ s = shared t.strict (sumStakes signed) (sumStakes full) := by
  cases t with
  | heartBeatRSPm bt k mf =>
    obtain ⟨hs, hf⟩ := h
    exact result_metaQuorum (sumPrev_of hs) (sumPrev_of hf)
  | confirmLeaderRSPm bt k mf =>
    obtain ⟨hne, hs, hf⟩ := h
    have hraise : runEff Γ (Eff.raiseIf (bt.confirmLeaderRSPm.isEmpty = true) "if(li.responses.empty())") s = (.ok (), s) := by
      unfold Eff.raiseIf
      rw [hne]
      rfl
    change (runEff Γ (isConfirmLeaderRSPmQuorum bt k mf) s).1 = _
    unfold isConfirmLeaderRSPmQuorum
    unfold runEff at hraise ⊢
    rw [run_bind_ok _ hraise]
    exact result_metaQuorum (sumPrev_of hs) (sumPrev_of hf)
  | validateBlockRSPm bt k mf =>
    obtain ⟨hs, hf⟩ := h
    exact result_metaQuorum (sumPrev_of hs) (sumPrev_of hf)
  | getTransactionRSPm bt k =>
    obtain ⟨hs, hf⟩ := h
    exact result_treeQuorum hs hf
  | blockDiffValidateRSPm bt k =>
    obtain ⟨hs, hf⟩ := h
    exact result_treeQuorum hs hf
  | vote b voted =>
    obtain ⟨⟨ns, hns, rfl⟩, hf⟩ := h
    change (runEff Γ (voteQuorum Γ b voted) s).1 = _
    unfold voteQuorum
    rw [(reads_votedStake _ _).result_bind, result_votedStake hns, hf]
    exact result_overQuorum _ _
  | makeLeaderCert bt hb mf =>
    obtain ⟨hs, rfl⟩ := h
    obtain ⟨ps, hps, rfl, hsig⟩ := stakedSigners_of "if(!n.valid()) ##124" hs
    change made (runEff Γ (Grain.makeLeaderCert Γ bt hb mf) s).1 = _
    unfold Grain.makeLeaderCert
    rw [(Reads.stakedSigners _ _ _).result_bind, hps]
    change made (runEff Γ (Eff.raiseIf _ _ >>= _) s).1 = _
    rw [(Reads.raiseIf _ _).result_bind]
    have hraise : (runEff Γ (Eff.raiseIf ((leaderCertOf hb ((bt.confirmLeaderRSPmCopy[hb.getHash]?.getD ∅).toList.map (·.2))).aggSig.verify
        (ps.map (·.1)) hb.getHash = false) "lc verify failed") s).1 = .ok () := by
      rw [hsig]
      rfl
    rw [hraise]
    change made (runEff Γ (percent _ _ >>= _) s).1 = _
    rw [(Reads.percent _ _).result_bind, result_percent]
    unfold shared BlockMetaFull.fullStake
    split
    · rfl
    · change made (runEff Γ (Eff.raiseIf _ _ >>= _) s).1 = _
      rw [(Reads.raiseIf _ _).result_bind]
      unfold Eff.raiseIf
      split
      next hlt =>
        rw [decide_eq_false (not_not.2 hlt)]
        rfl
      next hlt =>
        rw [decide_eq_true hlt]
        rfl
  | verifyLeaderCert lc mf =>
    obtain ⟨hs, rfl⟩ := h
    obtain ⟨ps, hps, rfl, hsig⟩ := stakedSigners_of "if(!n.valid()) @@$8" hs
    change (runEff Γ (Grain.verifyLeaderCert Γ lc mf) s).1 = _
    unfold Grain.verifyLeaderCert
    rw [(Reads.stakedSigners _ _ _).result_bind, hps]
    change (runEff Γ (if ¬ lc.aggSig.verify (ps.map (·.1)) lc.hb.getHash = true then _ else percent _ _ >>= _) s).1 = _
    rw [hsig, if_neg (by simp), (Reads.percent _ _).result_bind, result_percent]
    unfold shared BlockMetaFull.fullStake
    split <;> rfl
  | verifyBlockAll lc =>
    obtain ⟨ns, hns, rfl, hsig, hf⟩ := h
    change (runEff Γ (Grain.verifyBlockAll Γ (some lc)) s).1 = _
    unfold Grain.verifyBlockAll
    rw [(Reads.signers _ _).result_bind, signers_ok.2 hns]
    change (runEff Γ (enabledStake Γ >>= _) s).1 = _
    rw [Reads.enabledStake.result_bind, enabledStake_of hf]
    change (runEff Γ (percent _ _ >>= _) s).1 = _
    rw [(Reads.percent _ _).result_bind, result_percent]
    unfold shared
    split
    · rfl
    · change (runEff Γ (if (wrap64 (sumStakes (ns.map (·.getFullStake)) * 100)).tdiv (sumStakes full) < quorum then _ else _) s).1 = _
      split
      next hlt =>
        rw [decide_eq_false (not_not.2 hlt)]
        rfl
      next hlt =>
        rw [decide_eq_true hlt, hsig]
        rfl

/-! ## The arithmetic -/

/-- Where the sum is in range, the additions of the code do not leave it. -/
theorem sumStakes_eq {l : List Int} (h0 : ∀ x ∈ l, 0 ≤ x) (h : l.sum < 2 ^ 63) : sumStakes l = l.sum := by
  have hfold : ∀ (l : List Int) (a : Int), 0 ≤ a → (∀ x ∈ l, 0 ≤ x) → a + l.sum < 2 ^ 63 →
      l.foldl (fun r z => wrap64 (r + z)) a = a + l.sum := by
    intro l
    induction l with
    | nil => exact fun a _ _ _ => (add_zero a).symm
    | cons x l ih =>
      intro a ha hl hlt
      have hx := hl x List.mem_cons_self
      have hrest : ∀ y ∈ l, 0 ≤ y := fun y hy => hl y (List.mem_cons_of_mem _ hy)
      have hsum := List.sum_nonneg hrest
      rw [List.sum_cons] at hlt
      rw [List.foldl_cons, wrap64_eq ⟨by omega, by omega⟩, ih (a + x) (by omega) hrest (by omega), List.sum_cons]
      omega
  have hsum := hfold l 0 le_rfl h0 (by omega)
  rw [zero_add] at hsum
  exact hsum

/-- The share as the code computes it, if the product does not overflow. -/
theorem le_share_iff {stake full : Int} (k : Int) (h0 : 0 ≤ stake) (hf : 0 < full) (hfits : stake * 100 < 2 ^ 63) :
    k ≤ (wrap64 (stake * 100)).tdiv full ↔ k * full ≤ 100 * stake := by
  rw [wrap64_eq ⟨by omega, hfits⟩, Int.tdiv_eq_ediv_of_nonneg (by omega), Int.le_ediv_iff_mul_le hf, mul_comm stake]

/-- What the comparison of the code comes to. -/
theorem shared_eq {stake full : Int} (strict : Bool) (h0 : 0 ≤ stake) (hf : 0 < full) (hfits : stake * 100 < 2 ^ 63) :
    shared strict stake full = .ok (decide (if strict = true then 68 * full ≤ 100 * stake else 67 * full ≤ 100 * stake)) := by
  have h67 := le_share_iff 67 h0 hf hfits
  have h68 := le_share_iff 68 h0 hf hfits
  unfold shared quorum
  rw [if_neg (by omega)]
  cases strict with
  | true =>
    simp only [if_true, Except.ok.injEq, decide_eq_decide]
    rw [← h68]
    omega
  | false =>
    simp only [Bool.false_eq_true, if_false, Except.ok.injEq, decide_eq_decide]
    rw [← h67]
    omega

theorem StakeTest.answer_of_fits {t : StakeTest} {signed full : List Int} (ha : t.Asks Γ s signed full)
    (hs : ∀ x ∈ signed, 0 ≤ x) (hf : ∀ x ∈ full, 0 ≤ x) (hss : signed.sum < 2 ^ 63) (hfs : full.sum < 2 ^ 63)
    (hne : full.sum ≠ 0) (hfits : signed.sum * 100 < 2 ^ 63) :
    t.answer Γ s = .ok (decide (if t.strict = true then 68 * full.sum ≤ 100 * signed.sum else 67 * full.sum ≤ 100 * signed.sum)) := by
  have hfull := List.sum_nonneg hf
  rw [t.answer_eq ha, sumStakes_eq hs hss, sumStakes_eq hf hfs]
  exact shared_eq t.strict (List.sum_nonneg hs) (by omega) hfits

/-- A stake test is exact if, and only if, the full stake is not zero, the product does not overflow and, for the tests that ask
for more than the quorum, the share is not between 67 and 68 percent. A leader's test and a verifier's test that are asked for
the same stakes answer the same if, and only if, the share is not 67 percent or between 67 and 68 percent. -/
theorem stake_tests (Γ : Ctx) (s : St) (t : StakeTest) (signed full : List Int) (ha : t.Asks Γ s signed full)
    (hs : ∀ x ∈ signed, 0 ≤ x) (hf : ∀ x ∈ full, 0 ≤ x) (hss : signed.sum < 2 ^ 63) (hfs : full.sum < 2 ^ 63) :
    (t.Exact Γ s signed full ↔ full.sum ≠ 0 ∧ signed.sum * 100 < 2 ^ 63 ∧
      (t.strict = true → ¬ (67 * full.sum < 100 * signed.sum ∧ 100 * signed.sum < 68 * full.sum))) ∧
    ∀ (s' : St) (t' : StakeTest), t'.Asks Γ s' signed full → t'.strict ≠ t.strict → full.sum ≠ 0 → signed.sum * 100 < 2 ^ 63 →
      (t'.answer Γ s' = t.answer Γ s ↔ ¬ (67 * full.sum ≤ 100 * signed.sum ∧ 100 * signed.sum < 68 * full.sum)) := by
  have hpos := List.sum_nonneg hs
  constructor
  · constructor
    · intro h
      have hdecides := h.decides
      have hfits : signed.sum * 100 < 2 ^ 63 := h.fits.2
      have hne : full.sum ≠ 0 := by
        intro hz
        rw [t.answer_eq ha, sumStakes_eq hf hfs] at hdecides
        unfold shared at hdecides
        rw [if_pos hz] at hdecides
        cases hdecides
      refine ⟨hne, hfits, fun hstrict => ?_⟩
      rw [t.answer_of_fits ha hs hf hss hfs hne hfits, Except.ok.injEq, decide_eq_decide] at hdecides
      unfold StakeTest.Stands at hdecides
      rw [if_pos hstrict, if_pos hstrict] at hdecides
      omega
    · rintro ⟨hne, hfits, hband⟩
      refine ⟨⟨by omega, hfits⟩, ?_⟩
      rw [t.answer_of_fits ha hs hf hss hfs hne hfits, Except.ok.injEq, decide_eq_decide]
      unfold StakeTest.Stands
      cases hstrict : t.strict with
      | true =>
        have hb := hband hstrict
        simp only [if_true]
        omega
      | false => rfl
  · intro s' t' ha' hdiff hne hfits
    rw [t'.answer_of_fits ha' hs hf hss hfs hne hfits, t.answer_of_fits ha hs hf hss hfs hne hfits, Except.ok.injEq, decide_eq_decide]
    cases h : t.strict <;> cases h' : t'.strict
    · exact absurd (h'.trans h.symm) hdiff
    · simp only [if_true, Bool.false_eq_true, if_false]
      omega
    · simp only [if_true, Bool.false_eq_true, if_false]
      omega
    · exact absurd (h'.trans h.symm) hdiff

/-! ## Two nodes -/

namespace Sample

/-- The metadata of two enabled nodes with these stakes. -/
def twoNodes (a b : Int) : BlockMetaFull where
  prevStakes := ((∅ : StdMap String Int).insert "m" a).insert "n" b
  allNodesEnabled := ["m", "n"]

/-- The first of the two has answered the heartbeat. -/
def oneAnswer : BlockLeader where
  heartBeatRSPm := (∅ : StdMap String (StdMap String HeartBeatRSP)).insert "h" ((∅ : StdMap String HeartBeatRSP).insert "m" {})

/-- The leader's test with two such nodes. -/
def twoTest (a b : Int) : StakeTest := .heartBeatRSPm oneAnswer "h" (twoNodes a b)

end Sample

theorem Sample.twoTest_asks (a b : Int) : (Sample.twoTest a b).Asks (Sample.nodeCtx "m").ctx {} [a] [a, b] := by
  have hm : (Sample.twoNodes a b).getPrevStake "m" = .ok a := by
    unfold Sample.twoNodes BlockMetaFull.getPrevStake
    rw [StdMap.getElem?_insert, if_neg (by decide), StdMap.getElem?_insert, if_pos rfl]
  have hn : (Sample.twoNodes a b).getPrevStake "n" = .ok b := by
    unfold Sample.twoNodes BlockMetaFull.getPrevStake
    rw [StdMap.getElem?_insert, if_pos rfl]
  have hcounted : Sample.oneAnswer.counted "h" .heartBeatRSPm = ["m"] := by decide +kernel
  constructor
  · rw [hcounted]
    unfold StakeTest.MetaStakes
    rw [List.mapM_cons, hm]
    rfl
  · unfold StakeTest.MetaStakes
    change ["m", "n"].mapM _ = _
    rw [List.mapM_cons, hm, List.mapM_cons, hn]
    rfl

open Sample in
/-- 67.5 percent are not enough for the leader; where no stake is there it divides by zero; and where the product overflows, all
of the stake is not enough. -/
theorem stake_tests_false :
    ¬ (twoTest 675 325).Exact (nodeCtx "m").ctx {} [675] [675, 325] ∧ ¬ (twoTest 0 0).Exact (nodeCtx "m").ctx {} [0] [0, 0] ∧
      ¬ (twoTest (10 ^ 17) 0).Exact (nodeCtx "m").ctx {} [10 ^ 17] [10 ^ 17, 0] := by
  have hanswers : (twoTest 675 325).answer (nodeCtx "m").ctx {} = .ok false ∧
      (twoTest 0 0).answer (nodeCtx "m").ctx {} = .error (.exn .divByZero) ∧
      (twoTest (10 ^ 17) 0).answer (nodeCtx "m").ctx {} = .ok false := by
    decide +kernel
  obtain ⟨hband, hzero, hover⟩ := hanswers
  refine ⟨fun h => ?_, fun h => ?_, fun h => ?_⟩
  · have hd := h.decides
    rw [hband] at hd
    exact absurd hd (by decide)
  · have hd := h.decides
    rw [hzero] at hd
    cases hd
  · have hd := h.decides
    rw [hover] at hd
    exact absurd hd (by decide)

open Sample in
theorem stake_tests_sample :
    ((twoTest 700 300).Exact (nodeCtx "m").ctx {} [700] [700, 300] ↔ ([700, 300] : List Int).sum ≠ 0 ∧
      ([700] : List Int).sum * 100 < 2 ^ 63 ∧ ((twoTest 700 300).strict = true →
        ¬ (67 * ([700, 300] : List Int).sum < 100 * ([700] : List Int).sum ∧
          100 * ([700] : List Int).sum < 68 * ([700, 300] : List Int).sum))) :=
  (stake_tests (nodeCtx "m").ctx {} (twoTest 700 300) [700] [700, 300] (twoTest_asks 700 300) (by decide) (by decide) (by decide)
    (by decide)).1

end Grain
