import Grain.Lemmas.Certificates

/-!
# What a leader counts

A response is signed by its sender, and the handlers enter it under a name that it carries: only `GetTransactionRSP` uses the
sender's. The maps count a name once; the two vectors count it as often as it responds. What the leader builds from them passes
the checks of the others all the same, as these count in the same way.
-/

namespace Grain

open Prog

/-! ## Certificates -/

/-- The message carries a certificate that was built for it. -/
def Sent.builds : Sent → Bool
  | .validateBlockREQ _ => true
  | .resetAlarm (.blockDiffValidateREQ _) => true
  | .resetAlarm (.blockDBStore _) => true
  | _ => false

/-- A node in the state accepts the certificate in the message: `ValidateBlockREQ` that of a leader, `BlockDiffValidateREQ` that
of the validators, `verify_block_all` and, if it accepts the validators, `BlockDBStore` that of those who applied the block. -/
def Accepted (Γ : NodeCtx) (v : NodeSt) : Sent → Prop
  | .validateBlockREQ r => ∃ mf, v.HasMeta Γ r.heartBeat.window mf ∧
      (runEff Γ.ctx (verifyLeaderCert Γ.ctx r.lc mf) v.st).1 = .ok true
  | .resetAlarm (.blockDiffValidateREQ r) => (runNode (acceptsValidators Γ r.blockAcceptedREQ) v).1 = .ok true
  | .resetAlarm (.blockDBStore r) => (runEff Γ.ctx (verifyBlockAll Γ.ctx (some r.blockAccepted2REQ)) v.st).1 = .ok true ∧
      ((runNode (acceptsValidators Γ r.blockAccepted2REQ.blockAcceptedREQ) v).1 = .ok true →
        ∃ mf, v.HasMeta Γ r.blockAccepted2REQ.blockAcceptedREQ.blockInfo.heartBeat.window mf ∧
          (runEff Γ.ctx (acceptsBlock Γ.ctx r.blockAccepted2REQ mf) v.st).1 = .ok true)
  | _ => True

/-- Every certificate built from `s` to `t` is accepted wherever the nodes, their stakes and the metadata are those of `t`. -/
def Certifies (Γ : NodeCtx) (s t : NodeSt) : Prop := Sends (fun m => ∀ v, SameView Γ t v → Accepted Γ v m) s t

/-! ## Responses -/

/-- The response in a message that passes the checks of `NodeMsgRSP`. -/
def opened (Γ : NodeCtx) (parse : String → Option Response) (m : NodeMsgRSP) (s : NodeSt) : Option Response :=
  match (runNode (openRSP Γ parse m) s).1 with
  | .ok r => r
  | .error _ => none

/-- The response that an event delivers, with the node that has signed it. -/
def delivered (Γ : NodeCtx) (parse : String → Option Response) (e : NodeEvent) (s : NodeSt) : List (String × Response) :=
  match e with
  | .response m => (opened Γ parse m s).toList.map fun r => (m.nodeSigner, r)
  | _ => []

/-- A response that passes the checks of its handler names its sender, and is the first of it in a vector. -/
def OwnFirst (Γ : NodeCtx) (parse : String → Option Response) (e : Clock × NodeEvent) (s : NodeSt) : Prop :=
  ∀ src r, (src, r) ∈ delivered Γ parse e.2 s → (runNode (r.admits Γ e.1) s).1 = .ok true →
    r.author src = src ∧ s.bt.Fresh r

/-- It is so for every event of a run. -/
def OwnFirstAll (Γ : NodeCtx) (parse : String → Option Response) : List (Clock × NodeEvent) → NodeSt → Prop
  | [], _ => True
  | e :: es, s => OwnFirst Γ parse e s ∧ OwnFirstAll Γ parse es (nodeStep Γ parse e s)

/-- In every state of a run, which has delivered `L` so far, each table counts every node once and only for a response of its
own; and every certificate that is built in it is accepted. -/
def CountedAll (Γ : NodeCtx) (parse : String → Option Response) :
    List (Clock × NodeEvent) → List (String × Response) → NodeSt → Prop
  | [], L, s => s.Tables (Counts L)
  | e :: es, L, s => s.Tables (Counts L) ∧ Certifies Γ s (nodeStep Γ parse e s) ∧
      CountedAll Γ parse es (L ++ delivered Γ parse e.2 s) (nodeStep Γ parse e s)

/-! ## Sending certificates -/

section Certifies

variable {Γ : NodeCtx} {s t u : NodeSt} {α β : Type}

theorem accepted_of_not_builds {v : NodeSt} {m : Sent} (h : m.builds = false) : Accepted Γ v m := by
  cases m with
  | validateBlockREQ r => nomatch h
  | resetAlarm a =>
    cases a with
    | getTransactionRSP hb => trivial
    | blockDiffValidateREQ r => nomatch h
    | blockDBStore r => nomatch h
  | _ => trivial

theorem builds_of_plain {m : Sent} (h : m.plain = true) : m.builds = false := by
  cases m with
  | resetAlarm a => nomatch h
  | validateBlockREQ r => nomatch h
  | _ => rfl

/-- No certificate was built. -/
abbrev Uncertified : NodeSt → NodeSt → Prop := Sends fun m => m.builds = false

theorem Certifies.of_uncertified (h : Uncertified s t) : Certifies Γ s t := h.mono fun _ hm _ _ => accepted_of_not_builds hm

/-- A certificate that is built after the rest of the handler. -/
theorem certifies_bind {m : Node α} {k : α → Node β} (hm : Moves nodeExec Uncertified m s)
    (hk : ∀ a u, runNode m s = (.ok a, u) → Certifies Γ u (runNode (k a) u).2) : Certifies Γ s (runNode (m >>= k) s).2 := by
  have hm' : Uncertified s (runNode m s).2 := hm
  rw [runNode_bind]
  rcases hr : runNode m s with ⟨e | a, u⟩ <;> rw [hr] at hm'
  · exact .of_uncertified hm'
  · exact Sends.trans (hm'.mono fun _ h _ _ => accepted_of_not_builds h) (hk a u hr)

/-- What comes after it changes the tables only. -/
theorem certifies_then {m : Node α} {f : NodeSt → BlockLeader → BlockLeader} (hm : Certifies Γ s (runNode m s).2) :
    Certifies Γ s (runNode (m >>= fun _ => Node.modify fun s => s.onBt (f s)) s).2 := by
  rw [runNode_bind]
  rcases hr : runNode m s with ⟨e | a, u⟩ <;> rw [hr] at hm
  · exact hm
  · exact hm.mono fun _ h v hv => h v (hv.congr rfl rfl rfl)

theorem uncertified_of_rounds {m : Node α} (h : Moves nodeExec Rounds m s) : Moves nodeExec Uncertified m s := by
  have h' : Rounds s (runNode m s).2 := h
  exact h'.sent.mono fun _ hm => builds_of_plain hm

theorem builds_of_early {m : Sent} (h : m.early = true) : m.builds = false := by
  unfold Sent.early at h
  split at h
  · rfl
  · exact builds_of_plain h

theorem uncertified_of_early {m : Node α} (h : Moves nodeExec Early m s) : Moves nodeExec Uncertified m s :=
  Sends.mono h fun _ => builds_of_early

theorem uncertified_send {m : Sent} (h : m.builds = false) : Moves nodeExec Uncertified (Node.send m) s := Sends.log h

end Certifies

/-! ## What the handlers build -/

section Builds

variable (Γ : NodeCtx) (t : Clock) {s : NodeSt}

/-- The pool is put in order and nothing else. -/
theorem collectTransactions_ok {u : NodeSt} {a : Unit} (h : runNode (collectTransactions Γ) s = (.ok a, u)) :
    ∃ pool, u = { s with transactionPoolOfLeader := pool } := by
  unfold collectTransactions at h
  rw [runNode_get_bind, runNode_bind, runNode_ofExcept] at h
  split at h
  next o w hw =>
    obtain ⟨-, rfl⟩ := Prod.mk.inj hw
    exact ⟨_, (Prod.mk.inj h).2.symm⟩
  next => nomatch h

theorem certifies_doStartBlock (hk : s.Tables Keyed) : Certifies Γ s (runNode (doStartBlock Γ) s).2 := by
  have hnone : Certifies Γ s s := .of_uncertified (.none rfl)
  unfold doStartBlock
  rw [runNode_get_bind]
  split
  · exact hnone
  split
  · exact hnone
  split
  · exact hnone
  next hb _ =>
    refine certifies_bind (moves_getMetaFull _) fun mf u hu => ?_
    obtain ⟨-, mm, rfl, hmeta⟩ := getMetaFull_ok hu
    rw [runNode_get_bind]
    refine certifies_bind (moves_tree _) fun lc u hlc => ?_
    rw [runNode_tree] at hlc
    obtain ⟨hlc, hu⟩ := Prod.mk.inj hlc
    have hreads : Reads Γ.ctx (makeLeaderCert Γ.ctx ({ s with blockMetaFull := mm } : NodeSt).bt hb mf) :=
      (Reads.stakedSigners _ _ _).bind fun _ => (Reads.raiseIf _ _).bind fun _ => (Reads.percent _ _).bind fun _ =>
        (Reads.raiseIf _ _).bind fun _ => .pure _
    rw [hreads.state_eq hlc] at hu
    rw [← hu]
    have hpool : Moves nodeExec Uncertified (collectTransactions Γ) { s with blockMetaFull := mm } := by
      refine moves_get_bind (Moves.bind (.ofExcept _) fun o u _ => ?_)
      exact moves_other fun _ => ⟨rfl, rfl, rfl, rfl, rfl⟩
    refine certifies_bind hpool fun _ w hw => ?_
    obtain ⟨pool, rfl⟩ := collectTransactions_ok Γ hw
    rw [runNode_get_bind, runNode_send]
    refine .log fun v hv => ?_
    have hview : SameView Γ { s with blockMetaFull := mm } v := hv.congr rfl rfl rfl
    refine ⟨mf, hview.metadata _ _ hmeta, verifyLeaderCert_made ?_ hlc fun name n hn => hview.isNode hn⟩
    exact hk s.prevRootHashZ

/-- Code that reads ends with a value in the state it started from. -/
theorem tree_state {α : Type} {m : Eff α} (hm : Reads Γ.ctx m) {u : NodeSt} {a : α}
    (h : runNode (Node.tree Γ.ctx m) s = (.ok a, u)) : (runEff Γ.ctx m s.st).1 = .ok a ∧ s = u :=
  (runNode_tree_inv hm h).imp_right Eq.symm

theorem Reads.overQuorum {Γ : Ctx} (a b : Int) : Reads Γ (Grain.overQuorum a b) := (Reads.percent a b).bind fun _ => .pure _

theorem Reads.validateQuorum {Γ : Ctx} (bt : BlockLeader) (h : String) (mf : BlockMetaFull) :
    Reads Γ (isValidateBlockRSPmQuorum bt h mf) :=
  (Reads.lift _).bind fun _ => (Reads.lift _).bind fun _ => .overQuorum _ _

theorem Reads.treeQuorum {Γ : Ctx} (names : List String) : Reads Γ (Grain.treeQuorum Γ names) :=
  Reads.enabledStake.bind fun _ => (Reads.signers _ _).bind fun _ => .overQuorum _ _

theorem certifies_validateBlockRSP (r : ValidateBlockRSP) : Certifies Γ s (runNode (validateBlockRSP Γ r) s).2 := by
  refine certifies_bind (moves_admitValidateBlockRSP r) fun ok s _ => ?_
  split
  case isFalse => exact .of_uncertified (.none rfl)
  refine certifies_bind sends_onBt fun _ s _ => certifies_bind (moves_getMetaFull _) fun mf s hmf => ?_
  obtain ⟨-, mm, -, hmeta⟩ := getMetaFull_ok hmf
  rw [runNode_get_bind]
  refine certifies_bind (moves_tree _) fun q u htest => ?_
  obtain ⟨hq, rfl⟩ := tree_state Γ (.validateQuorum _ _ _) htest
  split
  case isFalse => exact .of_uncertified (.none rfl)
  next hq' =>
  obtain rfl : q = true := hq'
  refine certifies_bind sends_onBt fun _ u hu => ?_
  obtain rfl := (Prod.mk.inj hu).2
  rw [runNode_get_bind]
  refine certifies_bind (moves_tree _) fun ns u hsigners => ?_
  obtain ⟨hns, rfl⟩ := tree_state Γ (.signers _ _) hsigners
  change Certifies Γ (s.onBt fun bt => bt.setBlockInfoZ r.blockInfo) _
  have hrs : (s.onBt fun bt => bt.setBlockInfoZ r.blockInfo).bt.validateBlockRSPm = s.bt.validateBlockRSPm := by
    rw [NodeSt.bt_onBt]
    unfold BlockLeader.setBlockInfoZ
    split <;> rfl
  split
  case isFalse => exact .of_uncertified (.none rfl)
  next hverify =>
    refine certifies_then ?_
    rw [runNode_send]
    refine .log fun v hv => ?_
    have hview : SameView Γ s v := hv.congr rfl rfl rfl
    have hnodes := hview.isNodes (signers_ok.1 hns)
    exact acceptsValidators_made (congrArg (fun m : StdMap String (List ValidateBlockRSP) => m[r.blockInfo.getHash]?.getD []) hrs.symm)
      (hview.metadata _ _ hmeta) hq hnodes hverify

theorem certifies_blockDiffValidateRSP (r : BlockDiffValidateRSP) : Certifies Γ s (runNode (blockDiffValidateRSP Γ r) s).2 := by
  refine certifies_bind (moves_admitBlockDiffValidateRSP r) fun ok s _ => ?_
  split
  case isFalse => exact .of_uncertified (.none rfl)
  refine certifies_bind sends_onBt fun _ s _ => ?_
  rw [runNode_get_bind]
  refine certifies_bind (moves_tree _) fun q u htest => ?_
  obtain ⟨hq, rfl⟩ := tree_state Γ (.treeQuorum _) htest
  split
  case isFalse => exact .of_uncertified (.none rfl)
  next hq' =>
  obtain rfl : q = true := hq'
  rw [runNode_get_bind]
  refine certifies_bind (moves_tree _) fun bdv u hneed => ?_
  obtain ⟨-, rfl⟩ := tree_state Γ (.need _) hneed
  refine certifies_bind (moves_tree _) fun ns u hsigners => ?_
  obtain ⟨hns, rfl⟩ := tree_state Γ (.signers _ _) hsigners
  refine certifies_bind (moves_raiseIf _ _) fun _ u hraise => ?_
  obtain ⟨hverify, rfl⟩ := runNode_raiseIf_inv hraise
  rw [runNode_send]
  refine .log fun v hv => ?_
  have hview : SameView Γ u v := hv.congr rfl rfl rfl
  have hlc := verifyBlockAll_made hview hq (signers_ok.1 hns) (Bool.eq_true_of_not_eq_false hverify)
  exact ⟨hlc, fun hba => acceptsBlock_of hba hlc⟩

/-- Every response. -/
theorem certifies_response (src : String) (r : Response) : Certifies Γ s (runNode (r.handler Γ t src) s).2 := by
  cases r with
  | heartBeatRSP r => exact .of_uncertified (uncertified_of_early (early_heartBeatRSP Γ t r))
  | confirmLeaderRSP r => exact .of_uncertified (uncertified_of_early (early_confirmLeaderRSP Γ t r))
  | getTransactionRSP r => exact .of_uncertified (uncertified_of_early (early_getTransactionRSP Γ src r))
  | validateBlockRSP r => exact certifies_validateBlockRSP Γ r
  | blockDiffValidateRSP r => exact certifies_blockDiffValidateRSP Γ r

theorem certifies_nodeMsgRSP (parse : String → Option Response) (m : NodeMsgRSP) :
    Certifies Γ s (runNode (nodeMsgRSP Γ parse t m) s).2 := by
  refine certifies_bind (moves_openRSP parse m) fun r u _ => ?_
  cases r with
  | none => exact .of_uncertified (.none rfl)
  | some r => exact certifies_response Γ t m.nodeSigner r

theorem certifies_onAlarm (hk : s.Tables Keyed) (a : Alarm) : Certifies Γ s (runNode (onAlarm Γ a) s).2 := by
  have hnone : ∀ s : NodeSt, Certifies Γ s s := fun s => .of_uncertified (.none rfl)
  cases a with
  | getTransactionRSP hbHash =>
    unfold onAlarm
    rw [runNode_get_bind]
    split
    · exact hnone s
    refine certifies_bind (moves_tree _) fun q u htest => ?_
    obtain ⟨-, rfl⟩ := tree_state Γ (.treeQuorum _) htest
    split
    · exact certifies_then (certifies_doStartBlock Γ hk)
    · exact hnone s
  | blockDBStore r =>
    have h : Moves nodeExec Uncertified (onAlarm Γ (.blockDBStore r)) s := by
      refine moves_get_bind (Moves.bind (moves_tree _) fun q s _ => Moves.ite (fun _ => ?_) fun _ => .pure _)
      refine Moves.bind (moves_getMetaFull _) fun mf s _ => Moves.bind (uncertified_send rfl) fun _ s _ => ?_
      exact sends_onBt
    exact .of_uncertified h
  | blockDiffValidateREQ r =>
    have h : Moves nodeExec Uncertified (onAlarm Γ (.blockDiffValidateREQ r)) s := by
      refine Moves.bind (moves_getMetaFull _) fun mf s _ => moves_get_bind ?_
      refine Moves.bind (moves_tree _) fun q s _ => Moves.ite (fun _ => ?_) fun _ => .pure _
      exact Moves.bind (uncertified_send rfl) fun _ s _ => sends_onBt
    exact .of_uncertified h

/-- Every event of a node whose maps of confirmations are keyed. -/
theorem certifies_step (parse : String → Option Response) (e : Clock × NodeEvent) (hk : s.Tables Keyed) :
    Certifies Γ s (nodeStep Γ parse e s) := by
  obtain ⟨t, e⟩ := e
  cases e with
  | request src r => exact .of_uncertified (uncertified_of_rounds (rounds_request Γ t s src r))
  | response m => exact certifies_nodeMsgRSP Γ t parse m
  | putTransactionREQ tx => exact .of_uncertified (uncertified_of_rounds (rounds_putTransactionREQ Γ t s tx))
  | alarm a => exact certifies_onAlarm Γ hk a
  | granules db y => exact .of_uncertified (uncertified_of_rounds (rounds_granulesArrived Γ s db y))

end Builds

/-! ## What a run counts -/

section Run

variable {Γ : NodeCtx} {parse : String → Option Response} {s : NodeSt} {L : List (String × Response)}

/-- The tables count as they should, and their maps of confirmations are keyed. -/
def NodeSt.Counted (L : List (String × Response)) (s : NodeSt) : Prop := s.Tables fun bt => Counts L bt ∧ Keyed bt

theorem Counts.more {bt : BlockLeader} (h : Counts L bt ∧ Keyed bt) (L' : List (String × Response)) :
    Counts (L ++ L') bt ∧ Keyed bt := by
  refine ⟨⟨h.1.once, fun k tbl n hn => ?_⟩, h.2⟩
  obtain ⟨r, hr, hprop⟩ := h.1.own k tbl n hn
  exact ⟨r, List.mem_append_left _ hr, hprop⟩

/-- A response that names its sender, and is the first of it where that matters. -/
theorem counted_response (t : Clock) (src : String) (r : Response) (hs : s.Counted L)
    (hown : (runNode (r.admits Γ t) s).1 = .ok true → r.author src = src ∧ s.bt.Fresh r) :
    NodeSt.Counted (L ++ [(src, r)]) (runNode (r.handler Γ t src) s).2 := by
  refine tables_response (counts_closed _) (fun bt h => Counts.more h _) t r ?_ ?_ hs
  · intro hok hbt
    obtain ⟨hsrc, hfresh⟩ := hown hok
    exact ⟨hbt.1.add hbt.2 hsrc hfresh, hbt.2.add r⟩
  · intro _ v rs bt _ hbt
    exact counts_shrink hbt (fun h tbl => .inl (by cases tbl <;> rfl)) ⟨hbt.2.confirm, hbt.2.copy⟩

theorem counted_nodeMsgRSP (t : Clock) (m : NodeMsgRSP) (hs : s.Counted L) (hown : OwnFirst Γ parse (t, .response m) s) :
    NodeSt.Counted (L ++ delivered Γ parse (.response m) s) (nodeStep Γ parse (t, .response m) s) := by
  have hopen : SameRound s (runNode (openRSP Γ parse m) s).2 := moves_openRSP parse m
  have hfirst : ∀ r, opened Γ parse m s = some r → (runNode (r.admits Γ t) s).1 = .ok true →
      r.author m.nodeSigner = m.nodeSigner ∧ s.bt.Fresh r := by
    intro r hr
    refine hown m.nodeSigner r ?_
    change _ ∈ (opened Γ parse m s).toList.map _
    rw [hr]
    exact List.mem_cons_self
  change NodeSt.Counted (L ++ (opened Γ parse m s).toList.map _) (runNode (nodeMsgRSP Γ parse t m) s).2
  unfold nodeMsgRSP
  rw [runNode_bind]
  unfold opened at hfirst ⊢
  rcases hr : runNode (openRSP Γ parse m) s with ⟨e | r, u⟩ <;> rw [hr] at hopen hfirst
  · intro root
    exact Counts.more (hs.of_eq hopen.lBlocks root) _
  cases r with
  | none =>
    intro root
    exact Counts.more (hs.of_eq hopen.lBlocks root) _
  | some r =>
    obtain rfl := (openRSP_ok hr).1
    exact counted_response t m.nodeSigner r hs (hfirst r rfl)

/-- A response that is delivered is that of its message, from the signer. -/
theorem delivered_inv {m : NodeMsgRSP} {src : String} {r : Response} (h : (src, r) ∈ delivered Γ parse (.response m) s) :
    src = m.nodeSigner ∧ parse m.msgPayload = some r := by
  obtain ⟨r', hr', heq⟩ := List.mem_map.1 h
  obtain ⟨rfl, rfl⟩ := Prod.mk.inj heq
  refine ⟨rfl, ?_⟩
  rw [Option.mem_toList] at hr'
  unfold opened at hr'
  split at hr'
  case h_2 => nomatch hr'
  next x hx =>
    obtain rfl := hr'
    have hrun : runNode (openRSP Γ parse m) s = (.ok (some r'), (runNode (openRSP Γ parse m) s).2) := by rw [← hx]
    rcases (openRSP_ok hrun).2 with hnone | hparse
    · nomatch hnone
    · exact hparse.symm

/-- One event. -/
theorem counted_step (e : Clock × NodeEvent) (hs : s.Counted L) (hown : OwnFirst Γ parse e s) :
    NodeSt.Counted (L ++ delivered Γ parse e.2 s) (nodeStep Γ parse e s) := by
  obtain ⟨t, e⟩ := e
  have hcarry : ∀ u, u.Counted L → NodeSt.Counted (L ++ []) u := fun u hu root => Counts.more (hu root) _
  cases e with
  | response m => exact counted_nodeMsgRSP t m hs hown
  | request src r =>
    have h : Rounds s _ := rounds_request Γ t s src r
    exact hcarry _ (h.tables _ (counts_closed L) hs)
  | putTransactionREQ tx =>
    have h : Rounds s _ := rounds_putTransactionREQ Γ t s tx
    exact hcarry _ (h.tables _ (counts_closed L) hs)
  | alarm a => exact hcarry _ (carries_onAlarm (counts_closed L) a hs)
  | granules db y =>
    have h : Rounds s _ := rounds_granulesArrived Γ s db y
    exact hcarry _ (h.tables _ (counts_closed L) hs)

/-- Every run from such a state. -/
theorem countedAll_of (es : List (Clock × NodeEvent)) (hs : s.Counted L) (hown : OwnFirstAll Γ parse es s) :
    CountedAll Γ parse es L s := by
  induction es generalizing s L with
  | nil => exact fun root => (hs root).1
  | cons e es ih =>
    obtain ⟨hfirst, hrest⟩ := hown
    refine ⟨fun root => (hs root).1, certifies_step Γ parse e fun root => (hs root).2, ?_⟩
    exact ih (counted_step e hs hfirst) hrest

end Run

/-- In a run in which every response that passes its checks names its sender, and in a vector is the first of it for its hash,
each table counts every node once, for a response of its own; and the certificates that are built are accepted. -/
theorem counts_once (Γ : NodeCtx) (parse : String → Option Response) (es : List (Clock × NodeEvent)) (s : NodeSt)
    (hstart : s.lBlocks = ∅) (hown : OwnFirstAll Γ parse es s) : CountedAll Γ parse es [] s :=
  countedAll_of es (NodeSt.Tables.drop (counts_empty []) hstart) hown

/-! ## Responses that are counted twice -/

namespace Sample

/-- The network, with a signing key for each of its nodes. -/
def signedSt : NodeSt where
  st := genesis (nodeCtx "").ctx { nodeFile with
    nodes := [("m", 'm'), ("n", 'n'), ("o", 'o')].map fun x =>
      { name := x.1, owner := "b", blsPk := x.1, ip := x.1, stake := 100, edPk := key x.2 } }

/-- The answer of a node to `ValidateBlockREQ`, with an empty block. -/
def emptyBlockRSP (n : String) : ValidateBlockRSP :=
  let b : BlockInfo := { heartBeat := { nodeLeader := "n" } }
  { blockInfo := b, sig := { pk := n, msg := b.getHash }, nodeValidator := n }

/-- The messages of the nodes: the payload is the name of the node whose answer it is. -/
def parseRSP (p : String) : Option Response := some (.validateBlockRSP (emptyBlockRSP p))

/-- The answer of a node arrives. -/
def answer (n : String) (c : Char) : Clock × NodeEvent :=
  ({ now := 5, time := 5 }, .response { nodeSigner := n, signature := sign c, msgPayload := n })

end Sample

open Sample in
/-- The answer of one node, delivered twice, counts twice. -/
theorem counts_once_false :
    ¬ ∀ (Γ : NodeCtx) (parse : String → Option Response) (es : List (Clock × NodeEvent)) (s : NodeSt),
      s.lBlocks = ∅ → CountedAll Γ parse es [] s := by
  intro h
  have hrun := h (nodeCtx "n") parseRSP [answer "m" 'm', answer "m" 'm'] signedSt rfl
  obtain ⟨-, -, -, -, htables⟩ := hrun
  have hnodup := (htables "").once (emptyBlockRSP "m").blockInfo.getHash .validateBlockRSPm
  exact absurd hnodup (by decide +kernel)

open Sample in
/-- The answers of two nodes count once each. -/
theorem counts_once_sample :
    CountedAll (nodeCtx "n") parseRSP [answer "m" 'm', answer "o" 'o'] [] signedSt := by
  refine counts_once (nodeCtx "n") parseRSP [answer "m" 'm', answer "o" 'o'] signedSt rfl ⟨?_, ?_, trivial⟩
  · intro src r hr _
    obtain ⟨rfl, hp⟩ := delivered_inv hr
    obtain rfl := Option.some.inj hp
    have hfresh : "m" ∉ signedSt.bt.counted (emptyBlockRSP "m").blockInfo.getHash .validateBlockRSPm := by decide +kernel
    exact ⟨rfl, hfresh⟩
  · intro src r hr _
    obtain ⟨rfl, hp⟩ := delivered_inv hr
    obtain rfl := Option.some.inj hp
    have hfresh : "o" ∉ (nodeStep (nodeCtx "n") parseRSP (answer "m" 'm') signedSt).bt.counted
        (emptyBlockRSP "o").blockInfo.getHash .validateBlockRSPm := by decide +kernel
    exact ⟨rfl, hfresh⟩

end Grain
