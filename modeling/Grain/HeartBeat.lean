import Grain.Node

/-!
# The election of a leader

`heart_beat.cpp` on the side of the nodes that are asked: a node that receives a heartbeat records its sender as the leader,
puts itself forward or ignores it; a node that is asked to confirm a leader signs the heartbeat it has recorded.
`HeartBeatREQ` is in two parts: `judge` follows its conditions to the branch it ends in, `carryOut` is what that branch does.
-/

namespace Grain

open Node (tree send get)

/-! ## Synchronisation -/

/-- `getPathes`: the keys of the shortest length that are asked for, at most 1001 of them. -/
def Sync.getPathes (y : Sync) : List Path :=
  match (y.out.toList.map List.length).min? with
  | none => []
  | some n => (y.out.toList.filter fun p => p.length = n).take 1001

/-- `add_sync_out`. -/
def Sync.addSyncOut (y : Sync) (p : Path) : Sync := { y with out := y.out.insert p, empty := false }

/-- The address of a node; one that is not in the tree raises. -/
def nodeIp (Γ : Ctx) (msg name : String) : Node String := do
  let n ← tree Γ (getNodeNoCreate Γ name)
  match n with
  | none => Node.commonError msg
  | some n => pure n.val.ip

/-- `do_sync` with `continue_sync`. -/
def doSync (Γ : NodeCtx) (srcNode : String) : Node Unit := do
  Node.modify fun s => { s with st := { s.st with sync := s.st.sync.addSyncOut [] } }
  let ip ← nodeIp Γ.ctx "if(!n.valid()) eer@##" srcNode
  Node.modify fun s => { s with syncIp := ip }
  let s ← get
  send (.getGranulesREQ ip s.st.sync.getPathes)

/-! ## Own heartbeats -/

/-- `stage_is_working = getNow()`. -/
def working (t : Clock) : Node Unit := Node.modify fun s => { s with stageIsWorking := t.now }

/-- The recorded leader that keeps the node from sending a heartbeat of its own: another node, for the same window. -/
def NodeSt.rival (Γ : NodeCtx) (s : NodeSt) (tnow : Int) : Option HeartBeatREQ :=
  (s.cli s.prevRootHashZ).nodeLeader.filter fun l => l.window = window tnow ∧ l.nodeLeader ≠ Γ.thisNodeName

/-- The heartbeat the node sends of its own. -/
def NodeSt.ownHeartBeat (Γ : NodeCtx) (s : NodeSt) (tnow : Int) : HeartBeatREQ where
  prevRootHash1 := s.prevRootHashZ
  newEpoch := s.epochCurrent
  nodeLeader := Γ.thisNodeName
  blockTimestamp := tnow

/-- The tables are those of another heartbeat. -/
def NodeSt.stale (s : NodeSt) (hb : HeartBeatREQ) : Bool :=
  (s.lBlock s.prevRootHashZ).leaderCert2.any fun c => c.getHash ≠ hb.getHash

/-- The bookkeeping of an own heartbeat: the tables of another round are dropped, and the node records itself. -/
def NodeSt.startRound (s : NodeSt) (hb : HeartBeatREQ) (now : Int) : NodeSt :=
  let root := s.prevRootHashZ
  let s := { s with lBlocks := if s.stale hb then ∅ else s.lBlocks }
  let s := s.setLBlock root { s.lBlock root with leaderCert2 := some hb }
  s.setCli root { nodeLeader := some hb, heartBeatSent := (s.cli root).heartBeatSent.insert hb.window now }

/-- `do_heart_beat`. -/
def doHeartBeat (Γ : NodeCtx) (t : Clock) (tnow : Int) : Node HeartBeatREQ := do
  working t
  let s ← get
  match s.rival Γ tnow with
  | some hb => pure hb
  | none => do
    let _ ← getMetaFull Γ tnow
    let s ← get
    let hb := s.ownHeartBeat Γ tnow
    Node.modify fun s => s.startRound hb t.now
    send (.heartBeatREQ hb s.prevBlock)
    pure hb

/-! ## Heartbeats of other nodes -/

/-- `reply_HeartBeatRSP`. -/
def replyHeartBeatRSP (Γ : NodeCtx) (t : Clock) (h : HeartBeatREQ) : Node Unit := do
  working t
  send (.heartBeatRSP { payloadHeartBeat := h, nodeSigner := Γ.thisNodeName })

/-- The branch in which `HeartBeatREQ` ends: the heartbeat is the node's own and only answered; it is ignored; its sender is told
that it is behind; it is recorded, with the tables dropped (`clear`) or the round entered (`cert`); the node puts itself forward;
the node is behind itself. The flags `forward` are `need_continue_broadcast`. -/
inductive Verdict
  | reply
  | ignore (forward : Bool)
  | delay (msg : String)
  | adopt (clear cert : Bool)
  | promote (forward : Bool)
  | sync (onlyIfEmpty : Bool)
  deriving DecidableEq

/-- The recorded leader of a root, dropped if its window is not next to the current one. -/
def NodeSt.expire (s : NodeSt) (t : Clock) (root : String) : NodeSt :=
  match (s.cli root).nodeLeader with
  | none => s
  | some l =>
    if l.window < window t.time - 1 ∨ l.window > window t.time + 1 then
      s.setCli root { s.cli root with nodeLeader := none }
    else s

/-- The last own heartbeat of the window is longer ago than the timeout. -/
def ClientLeaderInfo.mayPromote (c : ClientLeaderInfo) (t : Clock) (h : HeartBeatREQ) : Bool :=
  t.now - c.heartBeatSent[h.window]?.getD 0 > oneSec * heartBeatSentTimeout

/-- The branch for a first block: neither side shows a block that verifies. -/
def judgeFirst (Γ : NodeCtx) (t : Clock) (h : HeartBeatREQ) : Node Verdict := do
  let mf ← getMetaFull Γ h.blockTimestamp
  let s ← get
  match (s.cli h.prevRootHash1).nodeLeader with
  | some l =>
    if ← Prog.ofExcept (isNodeGreater l.nodeLeader h.nodeLeader mf) then pure (.ignore false)
    else pure (.adopt false false)
  | none =>
    if ← Prog.ofExcept (isNodeGreater Γ.thisNodeName h.nodeLeader mf) then
      pure (if (s.cli h.prevRootHash1).mayPromote t h then .promote false else .ignore true)
    else pure (.adopt false true)

/-- The branch for two blocks of the same epoch. -/
def judgeSame (Γ : NodeCtx) (t : Clock) (h : HeartBeatREQ) (remote localPrev : BlockAccepted2REQ) : Node Verdict := do
  let s ← get
  if remote.blockAcceptedREQ.blockInfo.heartBeat.prevRootHash1 ≠
      localPrev.blockAcceptedREQ.blockInfo.heartBeat.prevRootHash1 then pure (.ignore true)
  else if s.prevRootHashZ ≠ h.prevRootHash1 then pure (.ignore true)
  else
    match (s.cli h.prevRootHash1).nodeLeader with
    | some l =>
      if l.window = h.window then do
        let mf ← getMetaFull Γ h.blockTimestamp
        if ← Prog.ofExcept (isNodeGreater h.nodeLeader l.nodeLeader mf) then pure (.adopt true false)
        else pure (.ignore false)
      else pure (.ignore true)
    | none => do
      let mf ← getMetaFull Γ h.blockTimestamp
      if ← Prog.ofExcept (isNodeGreater Γ.thisNodeName h.nodeLeader mf) then
        pure (if (s.cli h.prevRootHash1).mayPromote t h then .promote true else .ignore true)
      else pure (.adopt false false)

/-- The branch for two blocks that both verify. -/
def judgeNext (Γ : NodeCtx) (t : Clock) (h : HeartBeatREQ) (remote localPrev : BlockAccepted2REQ) : Node Verdict :=
  let remoteEpoch := remote.blockAcceptedREQ.blockInfo.heartBeat.newEpoch
  let localEpoch := localPrev.blockAcceptedREQ.blockInfo.heartBeat.newEpoch
  if remoteEpoch < localEpoch then pure (.delay "if(!n.valid()) @3455")
  else if remoteEpoch > localEpoch then pure (.sync false)
  else judgeSame Γ t h remote localPrev

/-- The conditions of `HeartBeatREQ`. -/
def judge (Γ : NodeCtx) (t : Clock) (h : HeartBeatREQ) (remote : Option BlockAccepted2REQ) : Node Verdict := do
  working t
  if h.nodeLeader = Γ.thisNodeName then pure .reply
  else if h.window < window t.time - 1 ∨ h.window > window t.time + 1 then pure (.ignore true)
  else if ¬ (← get).st.sync.empty then pure (.ignore true)
  else do
    Node.modify fun s => s.expire t h.prevRootHash1
    let localPrev := (← get).prevBlock
    let remoteVerified ← tree Γ.ctx (verifyBlockAll Γ.ctx remote)
    let localVerified ← tree Γ.ctx (verifyBlockAll Γ.ctx localPrev)
    match remoteVerified, localVerified, remote, localPrev with
    | false, true, _, _ => pure (.delay "if(!n.valid()) #45555")
    | false, false, _, _ => judgeFirst Γ t h
    | true, false, _, _ => pure (.sync true)
    | true, true, some remote, some localPrev => judgeNext Γ t h remote localPrev
    | true, true, _, _ => pure (.ignore true)

/-- Record a heartbeat as the leader's. -/
def NodeSt.record (s : NodeSt) (h : HeartBeatREQ) : NodeSt := s.setCli h.prevRootHash1 { nodeLeader := some h }

/-- Record a heartbeat, and drop the tables or enter the round. -/
def NodeSt.adopt (s : NodeSt) (clear cert : Bool) (h : HeartBeatREQ) : NodeSt :=
  let s := { s with lBlocks := if clear then ∅ else s.lBlocks }.record h
  if cert then s.setLBlock h.prevRootHash1 { s.lBlock h.prevRootHash1 with leaderCert2 := some h } else s

/-- Take the other side's block as the previous one and ask its sender for the tree. -/
def followRemote (Γ : NodeCtx) (remote : Option BlockAccepted2REQ) (srcNode : String) : Node Unit := do
  Node.modify fun s => { s with prevBlock := remote }
  doSync Γ srcNode

/-- What `HeartBeatREQ` does in the branch; the result is `need_continue_broadcast`. -/
def carryOut (Γ : NodeCtx) (t : Clock) (h : HeartBeatREQ) (remote : Option BlockAccepted2REQ) (srcNode : String) :
    Verdict → Node Bool
  | .reply => do
    replyHeartBeatRSP Γ t h
    pure true
  | .ignore forward => pure forward
  | .delay msg => do
    let ip ← nodeIp Γ.ctx msg srcNode
    match (← get).prevBlock with
    | some lc => send (.delayNotificationREQ ip lc)
    | none => pure ()
    pure false
  | .adopt clear cert => do
    Node.modify fun s => s.adopt clear cert h
    replyHeartBeatRSP Γ t h
    pure true
  | .promote forward => do
    let _ ← doHeartBeat Γ t h.blockTimestamp
    pure forward
  | .sync onlyIfEmpty => do
    if onlyIfEmpty ∧ ¬ (← get).st.sync.empty then pure ()
    else followRemote Γ remote srcNode
    pure true

/-- `HeartBeatREQ`. -/
def heartBeatREQ (Γ : NodeCtx) (t : Clock) (h : HeartBeatREQ) (remote : Option BlockAccepted2REQ) (srcNode : String) :
    Node Bool := do
  let v ← judge Γ t h remote
  carryOut Γ t h remote srcNode v

/-! ## Confirmations -/

/-- The signed answer to `ConfirmLeaderREQ`. -/
def confirmation (Γ : NodeCtx) (hb : HeartBeatREQ) : ConfirmLeaderRSP where
  hb := hb
  nodeSigner := Γ.thisNodeName
  signature := { pk := Γ.blsPk, msg := hb.getHash }

/-- The recorded leader of the heartbeat's root; if there is none, the heartbeat is recorded. -/
def NodeSt.recordIfNone (s : NodeSt) (hb : HeartBeatREQ) : NodeSt :=
  match (s.cli hb.prevRootHash1).nodeLeader with
  | some _ => s
  | none => s.setCli hb.prevRootHash1 { s.cli hb.prevRootHash1 with nodeLeader := some hb }

/-- `ConfirmLeaderREQ`. -/
def confirmLeaderREQ (Γ : NodeCtx) (t : Clock) (hb : HeartBeatREQ) : Node Unit := do
  if ¬ (← get).st.sync.empty then pure ()
  else do
    working t
    if (← get).prevRootHashZ ≠ hb.prevRootHash1 then pure ()
    else do
      Node.modify fun s => s.recordIfNone hb
      if ((← get).cli hb.prevRootHash1).nodeLeader = some hb then send (.confirmLeaderRSP (confirmation Γ hb))
      else pure ()

/-- `PutTransactionREQ`. -/
def putTransactionREQ (Γ : NodeCtx) (t : Clock) (tx : TX) : Node Unit := do
  Node.modify fun s => { s with transactionPoolOfLeader := s.transactionPoolOfLeader.insert (Γ.thash tx.getHash) tx }
  if t.now - (← get).stageIsWorking > stageIsWorkingTimeout * oneSec then do
    working t
    let _ ← doHeartBeat Γ t t.time
    pure ()
  else pure ()

/-! ## Runs -/

/-- The events of an election. -/
inductive ElectionEvent
  | heartBeatREQ (h : HeartBeatREQ) (remote : Option BlockAccepted2REQ) (srcNode : String)
  | confirmLeaderREQ (hb : HeartBeatREQ)
  | putTransactionREQ (tx : TX)

/-- The handler of an event. -/
def ElectionEvent.handler (Γ : NodeCtx) (t : Clock) : ElectionEvent → Node Unit
  | .heartBeatREQ h remote srcNode => do
    let _ ← Grain.heartBeatREQ Γ t h remote srcNode
    pure ()
  | .confirmLeaderREQ hb => Grain.confirmLeaderREQ Γ t hb
  | .putTransactionREQ tx => Grain.putTransactionREQ Γ t tx

/-- An event of an election: an exception of its handler is logged and nothing else. -/
def electionStep (Γ : NodeCtx) (e : Clock × ElectionEvent) (s : NodeSt) : NodeSt := (runNode (e.2.handler Γ e.1) s).2

/-- The state after a sequence of events. -/
def electionRun (Γ : NodeCtx) (es : List (Clock × ElectionEvent)) (s : NodeSt) : NodeSt :=
  es.foldl (fun s e => electionStep Γ e s) s

end Grain
