import Grain.Leader

/-!
# The nodes of a round

`client_node.cpp`: what a node does when the leader asks it for transactions, to execute a block, to apply the writes of an
accepted block and to store it. The granules to write are collected in `db_to_save_Z` over all of these, and a store writes
whatever is there.
-/

namespace Grain

open Node (tree send get)

/-! ## Attachments -/

/-- The node under a key, made if it is missing, is changed. -/
def EmitChildren.upsert (key : String) (f : EmitNode → EmitNode) : EmitChildren → EmitChildren
  | .nil => .cons key (f (.mk [] .nil)) .nil
  | .cons k n rest =>
    if key < k then .cons key (f (.mk [] .nil)) (.cons k n rest)
    else if key = k then .cons k (f n) rest
    else .cons k n (rest.upsert key f)

/-- `emits.push_back`. -/
def EmitNode.push (e : String × String) : EmitNode → EmitNode
  | .mk es cs => .mk (es ++ [e]) cs

/-- `children[key]`. -/
def EmitNode.child (key : String) (f : EmitNode → EmitNode) : EmitNode → EmitNode
  | .mk es cs => .mk es (cs.upsert key f)

/-- Enter an emit: of the block, of a transaction or of one of its commands. -/
def Emit.enter (e : Emit) (root : EmitNode) : EmitNode :=
  match e.txId, e.seqId with
  | none, _ => root.push (e.command, e.body)
  | some tx, none => root.child (base16Encode tx) (EmitNode.push (e.command, e.body))
  | some tx, some n => root.child (base16Encode tx) (EmitNode.child (toString n) (EmitNode.push (e.command, e.body)))

/-- `att_data` of a block; nothing is entered in the two maps of amounts. -/
def attachment (es : List Emit) : AttachmentData where
  blockRoot := es.foldl (fun r e => e.enter r) (.mk [] .nil)

/-! ## Requests for transactions -/

/-- The recorded leader of the current root is the node. -/
def NodeSt.isLeader (s : NodeSt) (src : String) : Bool :=
  (s.cli s.prevRootHashZ).nodeLeader.any fun l => l.nodeLeader = src

/-- `GetTransactionREQ`. -/
def getTransactionREQ (t : Clock) (hb : HeartBeatREQ) (src : String) : Node Unit := do
  working t
  let s ← get
  if ¬ s.st.sync.empty then pure ()
  else if s.isLeader src then
    send (.getTransactionRSP { trs := s.transactionPoolOfLeader.toList.map (·.2), hbHash := hb.getHash })
  else pure ()

/-! ## Execution -/

/-- The loop of `fix_missed_rounds`. -/
def fixRounds (limit : Int) (validators : StdSet String) : List (Option (Leaf BcNode)) → Eff Unit
  | [] => pure ()
  | z :: zs => do
    let z ← Eff.need z
    if z.val.enabled = false then fixRounds limit validators zs
    else if z.val.name ∈ validators then do
      Eff.assign z.ptr (.setRounds 0 (z.val.answeredRounds + 1))
      Eff.setDirty z.ptr false
      fixRounds limit validators zs
    else do
      Eff.assign z.ptr (.setRounds (z.val.missedRounds + 1) 0)
      Eff.doIf (z.val.missedRounds + 1 > limit) (Eff.assign z.ptr (.setEnabled false))
      Eff.setDirty z.ptr false
      fixRounds limit validators zs

/-- `fix_missed_rounds`. -/
def fixMissedRounds (Γ : Ctx) (validators : StdSet String) : Eff Unit := do
  let ls ← getAllNodes Γ
  let limit ← committeeValue Γ "missed_rounds_max"
  fixRounds limit validators ls

/-- The fees of a block. -/
def feesSnapshot (Γ : Ctx) : Eff FeesSnapshot := do
  let gasPerToken ← committeeValue Γ "gas_per_token"
  let gasPerByte ← committeeValue Γ "gas_per_byte"
  let gasPerJsiStep ← committeeValue Γ "gas_per_jsi_step"
  let gasPerHostcall ← committeeValue Γ "gas_per_hostcall"
  let gasPerCall ← committeeValue Γ "gas_per_call"
  let minTxFee ← committeeValue Γ "min_tx_fee"
  let gasNodeCreate ← committeeValue Γ "gas_node_create"
  let gasNodeEnable ← committeeValue Γ "gas_node_enable"
  let gasNodeStake ← committeeValue Γ "gas_node_stake"
  let gasNodeUpdate ← committeeValue Γ "gas_node_update"
  let gasNodeDisable ← committeeValue Γ "gas_node_disable"
  let gasContractDeploy ← committeeValue Γ "gas_contract_deploy"
  let gasCreateBase ← committeeValue Γ "gas_create_base"
  let ttlSecondsPerGas ← committeeValue Γ "ttl_seconds_per_gas"
  let gasCreateAddress ← committeeValue Γ "gas_create_address"
  pure { gasPerToken, gasPerByte, gasPerJsiStep, gasPerHostcall, gasPerCall, minTxFee, gasNodeCreate, gasNodeEnable, gasNodeStake,
         gasNodeUpdate, gasNodeDisable, gasContractDeploy, gasCreateBase, ttlSecondsPerGas, gasCreateAddress }

/-- `b_params` of a block. -/
def NodeSt.bParams (s : NodeSt) (fees : FeesSnapshot) (mf : BlockMetaFull) (hb : HeartBeatREQ) : BParams where
  fees := fees
  blockTs := hb.blockTimestamp
  fullStake := mf.fullStake
  prevTimestamp :=
    match s.prevBlock with
    | some b => b.blockAcceptedREQ.blockInfo.heartBeat.blockTimestamp
    | none => 0
  prevValidators := s.prevBlock.map fun b => b.blockAcceptedREQ.nodeValidators

/-- The leaves in a write set, as they travel. -/
def diffsOf (Γ : NodeCtx) (z : DbToSave) : Diffs where
  diffs := (z.cells.toList.filter fun x => x.1.length = 5).foldl (fun m x => m.insert (Γ.keyBytes x.1) (Γ.packMx x.2)) ∅
  deleted := (z.deleted.toList.filter fun p => p.length = 5).foldl (fun m p => m.insert (Γ.keyBytes p)) ∅

/-- The answer to `ValidateBlockREQ`: the hashes over what it carries, signed. -/
def validation (Γ : NodeCtx) (root : Hash) (txs : List TX) (diffs : Diffs) (att : AttachmentData) (hb : HeartBeatREQ) :
    ValidateBlockRSP :=
  let txHashes := txs.map (·.getHash)
  let blockInfo : BlockInfo :=
    { newRootHash1 := Γ.digest root, txHash := joinAll txHashes, diffsHash := diffs.update, attDataHash := att.getHash,
      heartBeat := hb }
  { blockInfo := blockInfo, txHashes := txHashes, attData := att, diffs := diffs,
    sig := { pk := Γ.blsPk, msg := blockInfo.getHash }, nodeValidator := Γ.thisNodeName }

/-- The checks of `ValidateBlockREQ`. What they emit is not sent. -/
def admitValidateBlockREQ (Γ : NodeCtx) (r : ValidateBlockREQ) (src : String) (mf : BlockMetaFull) : Node Bool := do
  let s ← get
  if s.isLeader src = false then pure false
  else do
    let l ← tree Γ.ctx (Eff.need (s.cli r.heartBeat.prevRootHash1).nodeLeader)
    if r.heartBeat ≠ l then pure false
    else if r.heartBeat.prevRootHash1 ≠ s.prevRootHashZ ∧ s.epochCurrent ≠ r.heartBeat.newEpoch then pure false
    else tree Γ.ctx (verifyLeaderCert Γ.ctx r.lc mf)

/-- `ValidateBlockREQ`. -/
def validateBlockREQ (Γ : NodeCtx) (t : Clock) (r : ValidateBlockREQ) (src : String) : Node Unit := do
  working t
  if ¬ (← get).st.sync.empty then pure ()
  else do
    Node.modify fun s => { s with st := { s.st with emits := [], nodeRewards := 0 } }
    let mf ← getMetaFull Γ r.heartBeat.blockTimestamp
    if ← admitValidateBlockREQ Γ r src mf then do
      tree Γ.ctx (fixMissedRounds Γ.ctx r.lc.nodeValidators)
      let fees ← tree Γ.ctx (feesSnapshot Γ.ctx)
      let b := (← get).bParams fees mf r.heartBeat
      let root ← tree Γ.ctx (executeBlock Γ.ctx b r.heartBeat.newEpoch r.transactionBodies)
      let s ← get
      send (.validateBlockRSP
        (validation Γ root r.transactionBodies (diffsOf Γ s.st.dbToSaveZ) (attachment s.st.emits) r.heartBeat))
    else pure ()

/-! ## The writes of an accepted block -/

/-- The checks of the certificate in `BlockDiffValidateREQ`. -/
def acceptsValidators (Γ : NodeCtx) (ba : BlockAcceptedREQ) : Node Bool := do
  let ns ← tree Γ.ctx (signers Γ.ctx "if(!n.valid()) @09" ba.nodeValidators)
  if ba.aggSig.verify (ns.map (·.blsPk)) ba.blockInfo.getHash = false then pure false
  else do
    let mf ← getMetaFull Γ ba.blockInfo.heartBeat.blockTimestamp
    let staked ← Prog.ofExcept (mf.sumPrev ba.nodeValidators)
    let fullstake ← Prog.ofExcept mf.stakeCommittee
    let q ← tree Γ.ctx (percent staked fullstake)
    pure (decide (¬ q < quorum))

/-- The path of a 32-byte key that travels with a block. -/
def keyPath (Γ : Ctx) (z : String) : Eff Path := do
  Eff.raiseIf (z.length ≠ 32) "if(z.first.size()!=32)"
  pure (Γ.pathFromHash z)

/-- The loop over the deleted keys. A cell that is not there or has no payload is passed over. -/
def applyDeleted (Γ : Ctx) : List String → Eff Unit
  | [] => pure ()
  | z :: zs => do
    let p ← keyPath Γ z
    match ← Eff.look p with
    | some (_, some (d, _)) => Eff.deleteGranule d .saveZ
    | _ => pure ()
    applyDeleted Γ zs

/-- `cells::replaceLeaf`; a buffer that does not unpack raises. -/
def replaceLeaf (Γ : NodeCtx) (p : Path) (body : String) : Eff Unit :=
  match Γ.unpackMx body with
  | none => Eff.commonError "unpack_mx"
  | some b => Eff.op (.replaceLeaf p b) >>= Prog.ofExcept

/-- The loop over the written leaves. -/
def applyDiffs (Γ : NodeCtx) : List (String × String) → Eff Unit
  | [] => pure ()
  | z :: zs => do
    let p ← keyPath Γ.ctx z.1
    replaceLeaf Γ p z.2
    applyDiffs Γ zs

/-- The application of the writes, with a rollback log that nothing rolls back to, and the root hash after it. -/
def applyBlock (Γ : NodeCtx) (d : Diffs) : Eff Hash :=
  inTx do
    applyDeleted Γ.ctx d.deleted.toList
    applyDiffs Γ d.diffs.toList
    proceedMerkle

/-- The answer to `BlockDiffValidateREQ`. -/
def diffValidation (Γ : NodeCtx) (ba : BlockAcceptedREQ) : BlockDiffValidateRSP where
  nodeValidator := Γ.thisNodeName
  sig := { pk := Γ.blsPk, msg := ba.getHash }
  blockInfoHash := ba.blockInfo.getHash

/-- `BlockDiffValidateREQ`. -/
def blockDiffValidateREQ (Γ : NodeCtx) (t : Clock) (r : BlockDiffValidateREQ) (src : String) : Node Unit := do
  if ¬ (← get).st.sync.empty then pure ()
  else do
    working t
    if (← get).isLeader src = false then pure ()
    else if ← acceptsValidators Γ r.blockAcceptedREQ then do
      let root ← tree Γ.ctx (applyBlock Γ r.diffs)
      if r.blockAcceptedREQ.blockInfo.newRootHash1 ≠ Γ.digest root then pure ()
      else send (.blockDiffValidateRSP (diffValidation Γ r.blockAcceptedREQ))
    else pure ()

/-! ## Storing a block -/

/-- The checks of the two certificates in `BlockDBStore`. -/
def acceptsBlock (Γ : Ctx) (lc : BlockAccepted2REQ) (mf : BlockMetaFull) : Eff Bool := do
  let ns ← stakedSigners Γ "if(!n.valid()) @86" mf lc.blockAcceptedREQ.nodeValidators
  let fullStakeVal ← Eff.lift mf.stakeCommittee
  let q ← percent (sumStakes (ns.map (·.2))) fullStakeVal
  if q < quorum then pure false
  else if lc.blockAcceptedREQ.aggSig.verify (ns.map (·.1)) lc.blockAcceptedREQ.blockInfo.getHash = false then pure false
  else do
    let ds ← signers Γ "if(!n.valid()) ##88" lc.nodeDiffValidators
    let full ← enabledStake Γ
    let q ← percent (sumStakes (ds.map (·.getFullStake))) full
    if q < quorum then pure false
    else pure (lc.aggDiffSig.verify (ds.map (·.blsPk)) lc.blockAcceptedREQ.getHash)

/-- The checks of `BlockDBStore`. -/
def admitBlockDBStore (Γ : NodeCtx) (t : Clock) (r : BlockDBStore) (src : String) : Node Bool := do
  if ¬ (← get).st.sync.empty then pure false
  else do
    working t
    let hb := r.blockAccepted2REQ.blockAcceptedREQ.blockInfo.heartBeat
    if (← get).isLeader src = false then pure false
    else if hb.nodeLeader ≠ src then pure false
    else do
      let mf ← getMetaFull Γ hb.blockTimestamp
      if ¬ (← get).st.sync.empty then pure false
      else tree Γ.ctx (acceptsBlock Γ.ctx r.blockAccepted2REQ mf)

/-- The granule of the root in the database. -/
def NodeSt.rootGranule (s : NodeSt) : Option Packed := s.st.store.db[([] : Path)]?

/-- `getRoot` for the previous block: an empty tree if the root granule does not have the block's hash. -/
def NodeSt.getRoot (Γ : NodeCtx) (s : NodeSt) : Store :=
  match s.prevBlock, s.rootGranule with
  | some b, some g =>
    if b.blockAcceptedREQ.blockInfo.newRootHash1 = Γ.digest g.hash then s.st.store.getRoot
    else { s.st.store.getRoot with heap := fun c => if c = [] then some {} else none }
  | _, _ => s.st.store.getRoot

/-- The batch is written, the block with it, and the write set is empty again. -/
def NodeSt.writeBlock (s : NodeSt) (lc : BlockAccepted2REQ) : NodeSt :=
  { s with
    lastBlock := some lc
    st := { s.st with store := s.st.store.writeGranulesBatch s.st.dbToSaveZ, dbToSaveZ := {} } }

/-- The block is the previous one; its transactions leave the pool. -/
def NodeSt.follow (Γ : NodeCtx) (s : NodeSt) (r : BlockDBStore) : NodeSt :=
  { s with
    prevBlock := some r.blockAccepted2REQ
    lBlocks := ∅
    blockMetaFull := ∅
    transactionPoolOfLeader := r.txHashes.foldl (fun p z => p.erase (Γ.thash z)) s.transactionPoolOfLeader }

/-- `BlockDBStore`. -/
def blockDBStore (Γ : NodeCtx) (t : Clock) (r : BlockDBStore) (src : String) : Node Unit := do
  if ← admitBlockDBStore Γ t r src then do
    Node.modify fun s => s.writeBlock r.blockAccepted2REQ
    send (.streamBlock r)
    Node.modify fun s => s.follow Γ r
    let _ ← tree Γ.ctx (committeeValue Γ.ctx "ttl_cache")
    Node.modify fun s => { s with
      st := { s.st with store := s.getRoot Γ, contractCache := ∅ }, cliLeaderInfo := ∅, stageIsWorking := 0 }
    if (← get).transactionPoolOfLeader.isEmpty then pure ()
    else do
      let _ ← doHeartBeat Γ t t.time
      pure ()
  else pure ()

/-! ## Falling behind -/

/-- `DelayNotificationREQ`. -/
def delayNotificationREQ (Γ : NodeCtx) (lc : BlockAccepted2REQ) (src : String) : Node Unit := do
  if ← tree Γ.ctx (verifyBlockAll Γ.ctx (some lc)) then do
    let newer := (← get).prevBlock.all fun b =>
      lc.blockAcceptedREQ.blockInfo.heartBeat.newEpoch > b.blockAcceptedREQ.blockInfo.heartBeat.newEpoch
    if newer then followRemote Γ (some lc) src else pure ()
  else pure ()

end Grain
