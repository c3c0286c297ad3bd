import Grain.HeartBeat

/-!
# The leader of a round

The responses that a leader collects (`leader_node.cpp`, and `HeartBeatRSP` and `ConfirmLeaderRSP` of `heart_beat.cpp`), its
quorum tests, the certificates it builds and its alarms. The responses are kept in `l_blocks` under the root of the previous
block, in maps by the name of a node or in vectors, by the hash they are about. Each handler is in two parts: what it checks
before the response gets to its table, and the rest.
-/

namespace Grain

open Node (tree send get)

/-- `Signature::verify`. -/
def Signature.verify (s : Signature) (pk msg : String) : Bool := s = { pk := pk, msg := msg }

/-! ## The tables -/

/-- The tables of `block_leader` whose stakes are counted. -/
inductive Table
  | heartBeatRSPm
  | confirmLeaderRSPm
  | confirmLeaderRSPmCopy
  | getTransactionRSPm
  | validateBlockRSPm
  | blockDiffValidateRSPm
  deriving DecidableEq

namespace BlockLeader

/-- The names whose stakes a table has under a hash, in the order of the loops over it. -/
def counted (bt : BlockLeader) (h : String) : Table → List String
  | .heartBeatRSPm => (bt.heartBeatRSPm[h]?.getD ∅).toList.map (·.1)
  | .confirmLeaderRSPm => (bt.confirmLeaderRSPm[h]?.getD ∅).toList.map (·.2.nodeSigner)
  | .confirmLeaderRSPmCopy => (bt.confirmLeaderRSPmCopy[h]?.getD ∅).toList.map (·.2.nodeSigner)
  | .getTransactionRSPm => (bt.getTransactionRSPm[h]?.getD ∅).toList.map (·.1)
  | .validateBlockRSPm => (bt.validateBlockRSPm[h]?.getD []).map (·.nodeValidator)
  | .blockDiffValidateRSPm => (bt.blockDiffValidateRSPm[h]?.getD []).map (·.nodeValidator)

/-- Enter a response in `HeartBeatRSP_m`. -/
def addHeartBeatRSP (bt : BlockLeader) (m : HeartBeatRSP) : BlockLeader :=
  let h := m.payloadHeartBeat.getHash
  { bt with heartBeatRSPm := bt.heartBeatRSPm.insert h ((bt.heartBeatRSPm[h]?.getD ∅).insert m.nodeSigner m) }

/-- Enter a response in `ConfirmLeaderRSP_m` and its copy. -/
def addConfirmLeaderRSP (bt : BlockLeader) (m : ConfirmLeaderRSP) : BlockLeader :=
  let h := m.hb.getHash
  { bt with
    confirmLeaderRSPm := bt.confirmLeaderRSPm.insert h ((bt.confirmLeaderRSPm[h]?.getD ∅).insert m.nodeSigner m)
    confirmLeaderRSPmCopy := bt.confirmLeaderRSPmCopy.insert h ((bt.confirmLeaderRSPmCopy[h]?.getD ∅).insert m.nodeSigner m) }

/-- Enter a response in `GetTransactionRSP_m`, under the sender. -/
def addGetTransactionRSP (bt : BlockLeader) (src : String) (r : GetTransactionRSP) : BlockLeader :=
  { bt with
    getTransactionRSPm := bt.getTransactionRSPm.insert r.hbHash ((bt.getTransactionRSPm[r.hbHash]?.getD ∅).insert src r) }

/-- Append a response in `ValidateBlockRSP_m`. -/
def addValidateBlockRSP (bt : BlockLeader) (r : ValidateBlockRSP) : BlockLeader :=
  let h := r.blockInfo.getHash
  { bt with validateBlockRSPm := bt.validateBlockRSPm.insert h (bt.validateBlockRSPm[h]?.getD [] ++ [r]) }

/-- Append a response in `BlockDiffValidateRSP_m`. -/
def addBlockDiffValidateRSP (bt : BlockLeader) (r : BlockDiffValidateRSP) : BlockLeader :=
  { bt with
    blockDiffValidateRSPm := bt.blockDiffValidateRSPm.insert r.blockInfoHash
      (bt.blockDiffValidateRSPm[r.blockInfoHash]?.getD [] ++ [r]) }

/-- `blockInfo_Z[h]` is set by the first response that makes the quorum. -/
def setBlockInfoZ (bt : BlockLeader) (b : BlockInfo) : BlockLeader :=
  if b.getHash ∈ bt.blockInfoZ then bt else { bt with blockInfoZ := bt.blockInfoZ.insert b.getHash b }

end BlockLeader

/-- The tables of the current root. -/
def NodeSt.bt (s : NodeSt) : BlockLeader := s.lBlock s.prevRootHashZ

/-- Change the tables of the current root. -/
def NodeSt.onBt (s : NodeSt) (f : BlockLeader → BlockLeader) : NodeSt := s.setLBlock s.prevRootHashZ (f s.bt)

/-! ## Quorum tests -/

/-- The stake of the enabled nodes, as the metadata has it. -/
def BlockMetaFull.stakeEnabled (mf : BlockMetaFull) : Except Stop Int := mf.sumPrev mf.allNodesEnabled

/-- The stake of the committee. -/
def BlockMetaFull.stakeCommittee (mf : BlockMetaFull) : Except Stop Int := mf.sumPrev mf.committeMembers.toList

/-- The share of two stakes is over the quorum: a strict test. -/
def overQuorum (stake full : Int) : Eff Bool := do
  let q ← percent stake full
  pure (decide (q > quorum))

/-- `is_HeartBeatRSP_m_quorum`. -/
def isHeartBeatRSPmQuorum (bt : BlockLeader) (h : String) (mf : BlockMetaFull) : Eff Bool := do
  let stakeVal ← Eff.lift (mf.sumPrev (bt.counted h .heartBeatRSPm))
  let fullstake ← Eff.lift mf.stakeEnabled
  overQuorum stakeVal fullstake

/-- `is_ValidateBlockRSP_m_quorum`. -/
def isValidateBlockRSPmQuorum (bt : BlockLeader) (h : String) (mf : BlockMetaFull) : Eff Bool := do
  let stakeVal ← Eff.lift (mf.sumPrev (bt.counted h .validateBlockRSPm))
  let fullstake ← Eff.lift mf.stakeCommittee
  overQuorum stakeVal fullstake

/-- The test of the two tables whose stakes are those of the tree. -/
def treeQuorum (Γ : Ctx) (names : List String) : Eff Bool := do
  let fullstakeVal ← enabledStake Γ
  let ns ← signers Γ "if(!n.valid()) $555" names
  overQuorum (sumStakes (ns.map (·.getFullStake))) fullstakeVal

/-- `is_GetTransactionRSP_m_quorum`. -/
def isGetTransactionRSPmQuorum (Γ : Ctx) (bt : BlockLeader) (h : String) : Eff Bool :=
  treeQuorum Γ (bt.counted h .getTransactionRSPm)

/-- `is_BlockDiffValidateRSP_m_quorum`. -/
def isBlockDiffValidateRSPmQuorum (Γ : Ctx) (bt : BlockLeader) (h : String) : Eff Bool :=
  treeQuorum Γ (bt.counted h .blockDiffValidateRSPm)

/-! ## The leader's certificate -/

/-- The BLS keys and the stakes in the metadata of the nodes of the given names. -/
def stakedSigners (Γ : Ctx) (msg : String) (mf : BlockMetaFull) : List String → Eff (List (String × Int))
  | [] => pure []
  | z :: zs => do
    let n ← getNodeNoCreate Γ z
    Eff.raiseIf n.isNone msg
    let n ← Eff.need n
    let stake ← Eff.lift (mf.getPrevStake z)
    let rest ← stakedSigners Γ msg mf zs
    pure ((n.val.blsPk, stake) :: rest)

/-- `verifyLeaderCert`. -/
def verifyLeaderCert (Γ : Ctx) (lc : LeaderCert) (mf : BlockMetaFull) : Eff Bool := do
  let ns ← stakedSigners Γ "if(!n.valid()) @@$8" mf lc.nodeValidators.toList
  if ¬ lc.aggSig.verify (ns.map (·.1)) lc.hb.getHash then pure false
  else do
    let q ← percent (sumStakes (ns.map (·.2))) mf.fullStake
    pure (decide (¬ q < quorum))

/-- The certificate over the confirmations of a heartbeat. -/
def leaderCertOf (hb : HeartBeatREQ) (rs : List ConfirmLeaderRSP) : LeaderCert where
  hb := hb
  nodeValidators := rs.foldl (fun v z => v.insert z.nodeSigner) ∅
  aggSig := rs.map (·.signature)

/-- `makeLeaderCert`. -/
def makeLeaderCert (Γ : Ctx) (bt : BlockLeader) (hb : HeartBeatREQ) (mf : BlockMetaFull) : Eff LeaderCert := do
  let rs := (bt.confirmLeaderRSPmCopy[hb.getHash]?.getD ∅).toList.map (·.2)
  let ns ← stakedSigners Γ "if(!n.valid()) ##124" mf (rs.map (·.nodeSigner))
  let lc := leaderCertOf hb rs
  Eff.raiseIf (lc.aggSig.verify (ns.map (·.1)) hb.getHash = false) "lc verify failed"
  let q ← percent (sumStakes (ns.map (·.2))) mf.fullStake
  Eff.raiseIf (q < quorum) ("if((stake_lc* 100)/mf->fullStake() < QUORUM) " ++ toString q)
  pure lc

/-! ## Heartbeats and confirmations -/

/-- The recorded leader of the current root has sent another heartbeat. -/
def NodeSt.otherLeader (s : NodeSt) (hb : HeartBeatREQ) : Bool :=
  (s.cli s.prevRootHashZ).nodeLeader.any fun l => l.getHash ≠ hb.getHash

/-- The checks of `HeartBeatRSP`. -/
def admitHeartBeatRSP (Γ : NodeCtx) (t : Clock) (m : HeartBeatRSP) : Node Bool := do
  working t
  let s ← get
  if s.prevRootHashZ ≠ m.payloadHeartBeat.prevRootHash1 then pure false
  else if s.otherLeader m.payloadHeartBeat then pure false
  else do
    let n ← tree Γ.ctx (getNodeNoCreate Γ.ctx m.nodeSigner)
    pure n.isSome

/-- `HeartBeatRSP`. -/
def heartBeatRSP (Γ : NodeCtx) (t : Clock) (m : HeartBeatRSP) : Node Unit := do
  if ← admitHeartBeatRSP Γ t m then do
    Node.modify fun s => s.onBt fun bt => bt.addHeartBeatRSP m
    let mf ← getMetaFull Γ m.payloadHeartBeat.blockTimestamp
    let h := m.payloadHeartBeat.getHash
    if ← tree Γ.ctx (isHeartBeatRSPmQuorum (← get).bt h mf) then do
      send (.confirmLeaderREQ m.payloadHeartBeat)
      Node.modify fun s => s.onBt fun bt => { bt with heartBeatRSPm := bt.heartBeatRSPm.insert h ∅ }
    else pure ()
  else pure ()

/-- The checks of `ConfirmLeaderRSP`. The signature is not looked at. -/
def admitConfirmLeaderRSP (t : Clock) (m : ConfirmLeaderRSP) : Node Bool := do
  if ¬ (← get).st.sync.empty then pure false
  else do
    working t
    let s ← get
    if s.prevRootHashZ ≠ m.hb.prevRootHash1 then pure false
    else pure (!s.otherLeader m.hb)

/-- `do_request_for_transactions`. -/
def doRequestForTransactions : Node Unit := do
  match (← get).bt.leaderCert2 with
  | none => Node.commonError "if(!li.leader_cert_2.valid())"
  | some hb => send (.getTransactionREQ hb)

/-- The quorum test in `ConfirmLeaderRSP`. -/
def isConfirmLeaderRSPmQuorum (bt : BlockLeader) (h : String) (mf : BlockMetaFull) : Eff Bool := do
  Eff.raiseIf (bt.confirmLeaderRSPm.isEmpty = true) "if(li.responses.empty())"
  let stakeVal ← Eff.lift (mf.sumPrev (bt.counted h .confirmLeaderRSPm))
  let fullstake ← Eff.lift mf.stakeEnabled
  overQuorum stakeVal fullstake

/-- `ConfirmLeaderRSP`. -/
def confirmLeaderRSP (Γ : NodeCtx) (t : Clock) (m : ConfirmLeaderRSP) : Node Unit := do
  if ← admitConfirmLeaderRSP t m then do
    Node.modify fun s => s.onBt fun bt => bt.addConfirmLeaderRSP m
    let mf ← getMetaFull Γ m.hb.blockTimestamp
    if ← tree Γ.ctx (isConfirmLeaderRSPmQuorum (← get).bt m.hb.getHash mf) then do
      doRequestForTransactions
      Node.modify fun s => s.onBt fun bt => { bt with confirmLeaderRSPm := ∅ }
    else pure ()
  else pure ()

/-! ## Transactions -/

/-- The checks of `GetTransactionRSP`. The transactions go into the pool before the leader's heartbeat is looked for. -/
def admitGetTransactionRSP (Γ : NodeCtx) (r : GetTransactionRSP) : Node Bool := do
  if ¬ (← get).st.sync.empty then pure false
  else do
    Node.modify fun s => { s with
      transactionPoolOfLeader := r.trs.foldl (fun p z => p.insertIfNew (Γ.thash z.getHash) z) s.transactionPoolOfLeader }
    pure (← get).bt.leaderCert2.isSome

/-- `GetTransactionRSP`. -/
def getTransactionRSP (Γ : NodeCtx) (src : String) (r : GetTransactionRSP) : Node Unit := do
  if ← admitGetTransactionRSP Γ r then do
    Node.modify fun s => s.onBt fun bt => bt.addGetTransactionRSP src r
    let hb ← tree Γ.ctx (Eff.need (← get).bt.leaderCert2)
    let _ ← getMetaFull Γ hb.blockTimestamp
    if ← tree Γ.ctx (isGetTransactionRSPmQuorum Γ.ctx (← get).bt r.hbHash) then
      send (.resetAlarm (.getTransactionRSP r.hbHash))
    else pure ()
  else pure ()

/-- The loop of `collectTransactions`: by public key and nonce. -/
def orderTransactions (Γ : Ctx) : List TX → StdMap String (StdMap Int (List TX)) →
    Except Stop (StdMap String (StdMap Int (List TX)))
  | [], o => .ok o
  | z :: zs, o => do
    let nonce ← raiseErr (getNonce (Γ.yyjsonRead z.txBody))
    let l := (o[z.pkEdBin]?.getD ∅)[nonce]?.getD []
    orderTransactions Γ zs (o.insert z.pkEdBin ((o[z.pkEdBin]?.getD ∅).insert nonce (l ++ [z])))

/-- `collectTransactions`. The pool is a map by the hash again. -/
def collectTransactions (Γ : NodeCtx) : Node Unit := do
  let o ← Prog.ofExcept (orderTransactions Γ.ctx ((← get).transactionPoolOfLeader.toList.map (·.2)) ∅)
  let txs := o.toList.flatMap fun x => x.2.toList.flatMap (·.2)
  Node.modify fun s => { s with transactionPoolOfLeader := txs.foldl (fun p z => p.insert (Γ.thash z.getHash) z) ∅ }

/-- Another node is the recorded leader of the current root. -/
def NodeSt.notLeader (Γ : NodeCtx) (s : NodeSt) : Bool :=
  (s.cli s.prevRootHashZ).nodeLeader.any fun l => l.nodeLeader ≠ Γ.thisNodeName

/-- `do_start_block`. -/
def doStartBlock (Γ : NodeCtx) : Node Unit := do
  let s ← get
  if ¬ s.st.sync.empty then pure ()
  else if s.notLeader Γ then pure ()
  else
    match s.bt.leaderCert2 with
    | none => pure ()
    | some hb => do
      let mf ← getMetaFull Γ hb.blockTimestamp
      let lc ← tree Γ.ctx (makeLeaderCert Γ.ctx (← get).bt hb mf)
      collectTransactions Γ
      let txs := (← get).transactionPoolOfLeader.toList.map (·.2)
      send (.validateBlockREQ { heartBeat := hb, lc := lc, transactionBodies := txs })

/-! ## Blocks -/

/-- The checks of `ValidateBlockRSP`. -/
def admitValidateBlockRSP (Γ : NodeCtx) (r : ValidateBlockRSP) : Node Bool := do
  let s ← get
  if ¬ s.st.sync.empty then pure false
  else if r.blockInfo.heartBeat.prevRootHash1 ≠ s.prevRootHashZ then pure false
  else do
    let n ← tree Γ.ctx (getNodeNoCreate Γ.ctx r.nodeValidator)
    match n with
    | none => Node.commonError "if(!nnn.valid())"
    | some n => pure (r.sig.verify n.val.blsPk r.blockInfo.getHash)

/-- The certificate over the answers to `ValidateBlockREQ`. -/
def acceptedOf (b : BlockInfo) (rs : List ValidateBlockRSP) : BlockAcceptedREQ where
  blockInfo := b
  nodeValidators := rs.map (·.nodeValidator)
  aggSig := rs.map (·.sig)

/-- `ValidateBlockRSP`. -/
def validateBlockRSP (Γ : NodeCtx) (r : ValidateBlockRSP) : Node Unit := do
  if ← admitValidateBlockRSP Γ r then do
    Node.modify fun s => s.onBt fun bt => bt.addValidateBlockRSP r
    let h := r.blockInfo.getHash
    let mf ← getMetaFull Γ r.blockInfo.heartBeat.blockTimestamp
    if ← tree Γ.ctx (isValidateBlockRSPmQuorum (← get).bt h mf) then do
      Node.modify fun s => s.onBt fun bt => bt.setBlockInfoZ r.blockInfo
      let ba := acceptedOf r.blockInfo ((← get).bt.validateBlockRSPm[h]?.getD [])
      let ns ← tree Γ.ctx (signers Γ.ctx "if(!n.valid()) ^14" ba.nodeValidators)
      if ba.aggSig.verify (ns.map (·.blsPk)) ba.blockInfo.getHash then do
        let bdv : BlockDiffValidateREQ :=
          { blockAcceptedREQ := ba, txHashes := r.txHashes, diffs := r.diffs, attData := r.attData }
        send (.resetAlarm (.blockDiffValidateREQ bdv))
        Node.modify fun s => s.onBt fun bt => { bt with blockDiffValidateREQ := some bdv }
      else pure ()
    else pure ()
  else pure ()

/-- The checks of `BlockDiffValidateRSP`. -/
def admitBlockDiffValidateRSP (Γ : NodeCtx) (r : BlockDiffValidateRSP) : Node Bool := do
  let s ← get
  if ¬ s.st.sync.empty then pure false
  else
    match s.bt.blockDiffValidateREQ with
    | none => pure false
    | some bdv =>
      if bdv.blockAcceptedREQ.blockInfo.heartBeat.prevRootHash1 ≠ s.prevRootHashZ then pure false
      else do
        let n ← tree Γ.ctx (getNodeNoCreate Γ.ctx r.nodeValidator)
        match n with
        | none => Node.commonError "if(!nnn.valid()) @44"
        | some n => pure (r.sig.verify n.val.blsPk bdv.blockAcceptedREQ.getHash)

/-- The certificate over the answers to `BlockDiffValidateREQ`. -/
def accepted2Of (ba : BlockAcceptedREQ) (rs : List BlockDiffValidateRSP) : BlockAccepted2REQ where
  blockAcceptedREQ := ba
  nodeDiffValidators := rs.map (·.nodeValidator)
  aggDiffSig := rs.map (·.sig)

/-- `BlockDiffValidateRSP`. -/
def blockDiffValidateRSP (Γ : NodeCtx) (r : BlockDiffValidateRSP) : Node Unit := do
  if ← admitBlockDiffValidateRSP Γ r then do
    Node.modify fun s => s.onBt fun bt => bt.addBlockDiffValidateRSP r
    if ← tree Γ.ctx (isBlockDiffValidateRSPmQuorum Γ.ctx (← get).bt r.blockInfoHash) then do
      let bt := (← get).bt
      let bdv ← tree Γ.ctx (Eff.need bt.blockDiffValidateREQ)
      let ba2 := accepted2Of bdv.blockAcceptedREQ (bt.blockDiffValidateRSPm[r.blockInfoHash]?.getD [])
      let ns ← tree Γ.ctx (signers Γ.ctx "if(!n.valid()) @#1" ba2.nodeDiffValidators)
      Node.raiseIf (ba2.aggDiffSig.verify (ns.map (·.blsPk)) bdv.blockAcceptedREQ.getHash = false)
        "BlockDiffValidateRSP verified FAIL !!!!!!!!!!!!!!!!!!!!!"
      send (.resetAlarm (.blockDBStore
        { blockAccepted2REQ := ba2, txHashes := bdv.txHashes, diffs := bdv.diffs.diffs, attData := bdv.attData }))
    else pure ()
  else pure ()

/-! ## Alarms -/

/-- `on_alarm`. -/
def onAlarm (Γ : NodeCtx) : Alarm → Node Unit
  | .getTransactionRSP hbHash => do
    let s ← get
    if ¬ s.st.sync.empty then pure ()
    else if ← tree Γ.ctx (isGetTransactionRSPmQuorum Γ.ctx s.bt hbHash) then do
      doStartBlock Γ
      Node.modify fun s => s.onBt fun bt => { bt with getTransactionRSPm := bt.getTransactionRSPm.insert hbHash ∅ }
    else pure ()
  | .blockDBStore r => do
    let h := r.blockAccepted2REQ.blockAcceptedREQ.blockInfo.getHash
    if ← tree Γ.ctx (isBlockDiffValidateRSPmQuorum Γ.ctx (← get).bt h) then do
      let _ ← getMetaFull Γ r.blockAccepted2REQ.blockAcceptedREQ.blockInfo.heartBeat.blockTimestamp
      send (.blockDBStore r)
      Node.modify fun s => s.onBt fun bt => { bt with blockDiffValidateRSPm := bt.blockDiffValidateRSPm.insert h [] }
    else pure ()
  | .blockDiffValidateREQ r => do
    let mf ← getMetaFull Γ r.blockAcceptedREQ.blockInfo.heartBeat.blockTimestamp
    let h := r.blockAcceptedREQ.blockInfo.getHash
    if ← tree Γ.ctx (isValidateBlockRSPmQuorum (← get).bt h mf) then do
      send (.blockDiffValidateREQ r)
      Node.modify fun s => s.onBt fun bt => { bt with validateBlockRSPm := bt.validateBlockRSPm.insert h [] }
    else pure ()

/-! ## Responses of other nodes -/

/-- What another node responds. -/
inductive Response
  | heartBeatRSP (r : HeartBeatRSP)
  | confirmLeaderRSP (r : ConfirmLeaderRSP)
  | getTransactionRSP (r : GetTransactionRSP)
  | validateBlockRSP (r : ValidateBlockRSP)
  | blockDiffValidateRSP (r : BlockDiffValidateRSP)

/-- The handler of a response, with the sender it was signed by. -/
def Response.handler (Γ : NodeCtx) (t : Clock) (src : String) : Response → Node Unit
  | .heartBeatRSP r => Grain.heartBeatRSP Γ t r
  | .confirmLeaderRSP r => Grain.confirmLeaderRSP Γ t r
  | .getTransactionRSP r => Grain.getTransactionRSP Γ src r
  | .validateBlockRSP r => Grain.validateBlockRSP Γ r
  | .blockDiffValidateRSP r => Grain.blockDiffValidateRSP Γ r

/-- What the handler of a response checks before it enters it. -/
def Response.admits (Γ : NodeCtx) (t : Clock) : Response → Node Bool
  | .heartBeatRSP r => admitHeartBeatRSP Γ t r
  | .confirmLeaderRSP r => admitConfirmLeaderRSP t r
  | .getTransactionRSP r => admitGetTransactionRSP Γ r
  | .validateBlockRSP r => admitValidateBlockRSP Γ r
  | .blockDiffValidateRSP r => admitBlockDiffValidateRSP Γ r

/-- `NodeMsgRSP`: a response on its way, as bytes with a signature. -/
structure NodeMsgRSP where
  nodeSigner : String
  signature : String
  msgPayload : String

/-- The checks of `NodeMsgRSP`, with `parse` for the message factory: the response, if the signer is a node and the Ed25519
signature is its own. -/
def openRSP (Γ : NodeCtx) (parse : String → Option Response) (m : NodeMsgRSP) : Node (Option Response) := do
  let n ← tree Γ.ctx (getNodeNoCreate Γ.ctx m.nodeSigner)
  match n with
  | none => pure none
  | some n => do
    if ← Prog.ofExcept (verifyEdPk Γ.ctx n.val.edPk m.signature m.msgPayload) then
      match parse m.msgPayload with
      | none => Node.commonError "unhandled22 p020 "
      | some r => pure (some r)
    else pure none

/-- `NodeMsgRSP`. -/
def nodeMsgRSP (Γ : NodeCtx) (parse : String → Option Response) (t : Clock) (m : NodeMsgRSP) : Node Unit := do
  match ← openRSP Γ parse m with
  | none => pure ()
  | some r => r.handler Γ t m.nodeSigner

end Grain
