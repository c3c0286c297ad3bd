import Grain.BroadcasterTree
import Grain.Genesis
import Grain.Messages

/-!
# The state of a node

The fields of `Node::Service`, the code over them, and what all of its handlers use: the metadata of a window (`getMetaFull`),
the order of the nodes in it (`isNodeGreater`) and the check of a certificate (`verify_block_all`).

A handler is a program over two operations, reading the state and changing it; the code over the tree runs inside it. An
exception ends the handler where it is raised and is logged; a crash (a null pointer, a division by zero) is a run without
further events. Within one event both clocks show one reading.
-/

namespace Grain

open Eff

/-! ## Constants -/

/-- `HB_TIME_WINDOW`, in seconds. -/
def hbTimeWindow : Int := 10

/-- `_1sec`, in microseconds. -/
def oneSec : Int := 1000000

/-- `HEART_BEAT_SENT_TIMEOUT`, in seconds. -/
def heartBeatSentTimeout : Int := 1

/-- `STAGE_IS_WORKING_TIMEOUT`, in seconds. -/
def stageIsWorkingTimeout : Int := 2

/-- The window of a time: the quotient of C++. -/
def window (t : Int) : Int := t.tdiv hbTimeWindow

/-- The window of a heartbeat. -/
def HeartBeatREQ.window (h : HeartBeatREQ) : Int := Grain.window h.blockTimestamp

/-! ## Messages to other nodes -/

/-- `HeartBeatRSP`. -/
structure HeartBeatRSP where
  payloadHeartBeat : HeartBeatREQ := {}
  nodeSigner : String := ""
  deriving DecidableEq

/-- `ConfirmLeaderRSP`. -/
structure ConfirmLeaderRSP where
  hb : HeartBeatREQ := {}
  nodeSigner : String := ""
  signature : Signature
  deriving DecidableEq

/-- `GetTransactionRSP`. -/
structure GetTransactionRSP where
  trs : List TX := []
  hbHash : String := ""
  deriving DecidableEq

/-- `ValidateBlockREQ`. -/
structure ValidateBlockREQ where
  heartBeat : HeartBeatREQ := {}
  lc : LeaderCert := {}
  transactionBodies : List TX := []

/-- `ValidateBlockRSP`. -/
structure ValidateBlockRSP where
  blockInfo : BlockInfo := {}
  txHashes : List String := []
  attData : AttachmentData := {}
  diffs : Diffs := {}
  sig : Signature
  nodeValidator : String := ""

/-- `BlockDiffValidateREQ`. -/
structure BlockDiffValidateREQ where
  blockAcceptedREQ : BlockAcceptedREQ := {}
  txHashes : List String := []
  diffs : Diffs := {}
  attData : AttachmentData := {}

/-- `BlockDiffValidateRSP`. -/
structure BlockDiffValidateRSP where
  nodeValidator : String := ""
  sig : Signature
  blockInfoHash : String := ""
  deriving DecidableEq

/-- `BlockDBStore`. -/
structure BlockDBStore where
  blockAccepted2REQ : BlockAccepted2REQ := {}
  txHashes : List String := []
  diffs : StdMap String String := ∅
  attData : AttachmentData := {}

/-- The alarms of a leader, with what they carry. -/
inductive Alarm
  | getTransactionRSP (hbHash : String)
  | blockDiffValidateREQ (r : BlockDiffValidateREQ)
  | blockDBStore (r : BlockDBStore)

/-- What a node sends, to other nodes, with `resetAlarm` to the timer and with `streamBlock` to the block streamer. A heartbeat
travels with the sender's previous block. -/
inductive Sent
  | heartBeatREQ (hb : HeartBeatREQ) (lc : Option BlockAccepted2REQ)
  | heartBeatRSP (r : HeartBeatRSP)
  | confirmLeaderREQ (hb : HeartBeatREQ)
  | confirmLeaderRSP (r : ConfirmLeaderRSP)
  | getTransactionREQ (hb : HeartBeatREQ)
  | getTransactionRSP (r : GetTransactionRSP)
  | validateBlockREQ (r : ValidateBlockREQ)
  | validateBlockRSP (r : ValidateBlockRSP)
  | blockDiffValidateREQ (r : BlockDiffValidateREQ)
  | blockDiffValidateRSP (r : BlockDiffValidateRSP)
  | blockDBStore (r : BlockDBStore)
  | delayNotificationREQ (ip : String) (lc : BlockAccepted2REQ)
  | getGranulesREQ (ip : String) (keys : List Path)
  | resetAlarm (a : Alarm)
  | streamBlock (r : BlockDBStore)

/-! ## State -/

/-- `BlockMetaFull`. -/
structure BlockMetaFull where
  prevStakes : StdMap String Int := ∅
  allNodesEnabled : List String := []
  treeAllNodes : TreeNode := .mk { name := "" } []
  treeCommitte : TreeNode := .mk { name := "" } []
  positionOfNode : StdMap String Nat := ∅
  committeMembers : StdSet String := ∅

/-- `client_leader_info`. -/
structure ClientLeaderInfo where
  nodeLeader : Option HeartBeatREQ := none
  heartBeatSent : StdMap Int Int := ∅
  deriving DecidableEq

/-- `block_leader`: the responses a leader collects, by the hash they are about. -/
structure BlockLeader where
  leaderCert2 : Option HeartBeatREQ := none
  heartBeatRSPm : StdMap String (StdMap String HeartBeatRSP) := ∅
  confirmLeaderRSPm : StdMap String (StdMap String ConfirmLeaderRSP) := ∅
  confirmLeaderRSPmCopy : StdMap String (StdMap String ConfirmLeaderRSP) := ∅
  getTransactionRSPm : StdMap String (StdMap String GetTransactionRSP) := ∅
  blockInfoZ : StdMap String BlockInfo := ∅
  validateBlockRSPm : StdMap String (List ValidateBlockRSP) := ∅
  blockDiffValidateRSPm : StdMap String (List BlockDiffValidateRSP) := ∅
  blockDiffValidateREQ : Option BlockDiffValidateREQ := none

/-- The state of a node. `st` has the tree, the database and the pending writes, `lastBlock` is the granule
`...last_block...`; `sent` is the log of what was sent. -/
structure NodeSt where
  st : St := {}
  prevBlock : Option BlockAccepted2REQ := none
  lastBlock : Option BlockAccepted2REQ := none
  lBlocks : StdMap String BlockLeader := ∅
  cliLeaderInfo : StdMap String ClientLeaderInfo := ∅
  transactionPoolOfLeader : StdMap String TX := ∅
  blockMetaFull : StdMap String (StdMap Int BlockMetaFull) := ∅
  stageIsWorking : Int := 0
  syncIp : String := ""
  sent : List Sent := []

namespace NodeSt

/-- `prev_root_hash_Z`. -/
def prevRootHashZ (s : NodeSt) : String :=
  match s.prevBlock with
  | some b => b.blockAcceptedREQ.blockInfo.newRootHash1
  | none => ""

/-- `epoch_current`. -/
def epochCurrent (s : NodeSt) : Int :=
  match s.prevBlock with
  | some b => wrap64 (b.blockAcceptedREQ.blockInfo.heartBeat.newEpoch + 1)
  | none => 0

/-- `cli_leader_info[root]`. -/
def cli (s : NodeSt) (root : String) : ClientLeaderInfo := s.cliLeaderInfo[root]?.getD {}

/-- Assign to `cli_leader_info[root]`. -/
def setCli (s : NodeSt) (root : String) (c : ClientLeaderInfo) : NodeSt :=
  { s with cliLeaderInfo := s.cliLeaderInfo.insert root c }

/-- `l_blocks[root]`. -/
def lBlock (s : NodeSt) (root : String) : BlockLeader := s.lBlocks[root]?.getD {}

/-- Assign to `l_blocks[root]`. -/
def setLBlock (s : NodeSt) (root : String) (b : BlockLeader) : NodeSt := { s with lBlocks := s.lBlocks.insert root b }

/-- `block_meta_full[root][win]`. -/
def metaAt (s : NodeSt) (root : String) (win : Int) : Option BlockMetaFull := (s.blockMetaFull[root]?.getD ∅)[win]?

/-- Assign to `block_meta_full[root][win]`. -/
def setMeta (s : NodeSt) (root : String) (win : Int) (m : BlockMetaFull) : NodeSt :=
  { s with blockMetaFull := s.blockMetaFull.insert root ((s.blockMetaFull[root]?.getD ∅).insert win m) }

/-- Log a message that is sent. -/
def log (s : NodeSt) (m : Sent) : NodeSt := { s with sent := s.sent ++ [m] }

end NodeSt

/-- What a node takes from outside: besides the world of block execution its name, its public BLS key, the digest of a cell as
bytes, the first eight bytes of the digest of a text, the digest of a transaction as the bytes that a map of transactions is in
the order of, and the bytes of a key and of a packed cell. -/
structure NodeCtx where
  ctx : Ctx
  thisNodeName : String
  blsPk : String
  digest : Hash → String
  weight : String → Nat
  thash : String → String
  keyBytes : Path → String
  packMx : Packed → String
  unpackMx : String → Option Packed

/-- The two clocks at an event: `iUtils->getNow()` in microseconds and `time(NULL)` in seconds. -/
structure Clock where
  now : Int
  time : Int

/-! ## The code of a node -/

/-- The accesses of a handler to the state. -/
inductive NodeOp
  | get
  | modify (f : NodeSt → NodeSt)

/-- The answers to them. -/
abbrev NodeResp : NodeOp → Type
  | .get => NodeSt
  | .modify _ => Unit

/-- What they do. -/
def nodeExec : (o : NodeOp) → NodeSt → NodeResp o × NodeSt
  | .get, s => (s, s)
  | .modify f, s => ((), f s)

/-- The code of a handler. -/
abbrev Node := Prog NodeOp NodeResp Stop

/-- The run of a handler. -/
def runNode {α : Type} (m : Node α) (s : NodeSt) : Except Stop α × NodeSt := m.run nodeExec s

namespace Node

def get : Node NodeSt := Prog.ask NodeOp.get
def modify (f : NodeSt → NodeSt) : Node Unit := Prog.ask (NodeOp.modify f)

/-- Send a message. -/
def send (m : Sent) : Node Unit := modify fun s => s.log m

/-- Code over the tree. -/
def tree {α : Type} (Γ : Ctx) (m : Eff α) : Node α := do
  let s ← get
  let r := runEff Γ m s.st
  modify fun s => { s with st := r.2 }
  Prog.ofExcept r.1

/-- Raise `CommonError`. -/
def commonError {α : Type} (msg : String) : Node α := .stop (.exn (.commonError msg))

/-- Raise `CommonError` if the condition holds. -/
def raiseIf (c : Prop) [Decidable c] (msg : String) : Node Unit := if c then commonError msg else .ret ()

end Node

open Node (tree send get)

/-! ## Stakes -/

/-- Use pointers that may be null, one after the other. -/
def needAll {α : Type} : List (Option α) → Eff (List α)
  | [] => pure []
  | x :: xs => do
    let a ← need x
    let as ← needAll xs
    pure (a :: as)

/-- The enabled nodes of the tree. -/
def enabledNodes (Γ : Ctx) : Eff (List BcNode) := do
  let an ← getAllNodes Γ
  let ns ← needAll an
  pure ((ns.map (·.val)).filter (·.enabled))

/-- Add up stakes in `int64_t`. -/
def sumStakes (l : List Int) : Int := l.foldl (fun r z => wrap64 (r + z)) 0

/-- The stake of all enabled nodes, as the tree has it. -/
def enabledStake (Γ : Ctx) : Eff Int := do
  let ns ← enabledNodes Γ
  pure (sumStakes (ns.map (·.getFullStake)))

/-- The nodes of the given names; a name that is no node raises. -/
def signers (Γ : Ctx) (msg : String) : List String → Eff (List BcNode)
  | [] => pure []
  | z :: zs => do
    let n ← getNodeNoCreate Γ z
    Eff.raiseIf n.isNone msg
    let n ← need n
    let rest ← signers Γ msg zs
    pure (n.val :: rest)

/-- `(stake * 100) / full`. -/
def percent (stake full : Int) : Eff Int := quot (wrap64 (stake * 100)) full

/-- `getPrevStake`: a node that was not enabled raises. -/
def BlockMetaFull.getPrevStake (m : BlockMetaFull) (n : String) : Except Stop Int :=
  match m.prevStakes[n]? with
  | some a => .ok a
  | none => .error (.exn (.commonError "if(it==prev_stakes.end())"))

/-- The sum of `getPrevStake` over a list. -/
def BlockMetaFull.sumPrev (m : BlockMetaFull) (l : List String) : Except Stop Int := do
  let stakes ← l.mapM m.getPrevStake
  .ok (sumStakes stakes)

/-- `fullStake`. -/
def BlockMetaFull.fullStake (m : BlockMetaFull) : Int := sumStakes (m.prevStakes.toList.map (·.2))

/-- `verify_block_all`: the quorum and the signature of those who checked the diffs. -/
def verifyBlockAll (Γ : Ctx) : Option BlockAccepted2REQ → Eff Bool
  | none => pure false
  | some lc => do
    let ns ← signers Γ "if(!n.valid()) #00" lc.nodeDiffValidators
    let full ← enabledStake Γ
    let q ← percent (sumStakes (ns.map (·.getFullStake))) full
    if q < quorum then pure false
    else pure (lc.aggDiffSig.verify (ns.map (·.blsPk)) lc.blockAcceptedREQ.getHash)

/-! ## The metadata of a window -/

/-- The seed of a node's weight. -/
def NodeSt.seed (s : NodeSt) (win : Int) (name : String) : String :=
  name ++ (match s.prevBlock with
    | some b => b.blockAcceptedREQ.blockInfo.heartBeat.prevRootHash1
    | none => "") ++ toString win

/-- The weight of a node, as the key it is filed under: a `uint64_t` quotient, read as an `int64_t`. -/
def NodeSt.weightOf (Γ : NodeCtx) (s : NodeSt) (win : Int) (n : BcNode) : Int :=
  let w := Γ.weight (s.seed win n.name)
  wrap64 (if n.getFullStake = 0 then w else w / (n.getFullStake % 2 ^ 64))

/-- The nodes in the order of their weights, and of their names where these are equal. -/
def rank (weight : BcNode → Int) (ns : List BcNode) : List BcNode :=
  let result : StdMap Int (StdMap String BcNode) :=
    ns.foldl (fun r n => r.insert (weight n) ((r[weight n]?.getD ∅).insert n.name n)) ∅
  result.toList.flatMap fun x => x.2.toList.map (·.2)

/-- `position_of_node`: every name at its place in the list. -/
def positions (l : List String) : StdMap String Nat := l.zipIdx.foldl (fun m z => m.insert z.1 z.2) ∅

/-- `getElement`. -/
def BcNode.getElement (n : BcNode) : NodeElement := { name := n.name, stakeA := n.getFullStake, ip := n.ip }

/-- The metadata before the trees are built. -/
def rankMeta (ns vne : List BcNode) : BlockMetaFull where
  allNodesEnabled := ns.map (·.name)
  prevStakes := ns.foldl (fun m n => m.insert n.name n.getFullStake) ∅
  positionOfNode := positions (vne.map (·.name))

/-- Enter a candidate in `committe_members`. -/
def BlockMetaFull.enrol (m : BlockMetaFull) (x : NodeElement) : BlockMetaFull :=
  { m with committeMembers := m.committeMembers.insert x.name }

/-- The first loop over the candidates: those that answered often enough and have the stake. The entry in the cache has
them as soon as they are chosen. -/
def strictCommittee (Γ : NodeCtx) (root : String) (win count answeredMin minStake : Int) :
    List NodeElement → BlockMetaFull → List NodeElement → Node (List NodeElement)
  | [], _, c => pure c
  | x :: xs, m, c =>
    if (c.length : Int) < count then do
      match ← tree Γ.ctx (getNodeNoCreate Γ.ctx x.name) with
      | none => strictCommittee Γ root win count answeredMin minStake xs m c
      | some n =>
        if n.val.answeredRounds > answeredMin ∧ x.stakeA ≥ minStake then do
          Node.modify fun s => s.setMeta root win (m.enrol x)
          strictCommittee Γ root win count answeredMin minStake xs (m.enrol x) (c ++ [x])
        else strictCommittee Γ root win count answeredMin minStake xs m c
    else pure c

/-- The second loop: the stake alone. -/
def relaxedCommittee (count minStake : Int) :
    List NodeElement → BlockMetaFull → List NodeElement → BlockMetaFull × List NodeElement
  | [], m, c => (m, c)
  | x :: xs, m, c =>
    if (c.length : Int) < count then
      if x.name ∉ m.committeMembers ∧ x.stakeA ≥ minStake then relaxedCommittee count minStake xs (m.enrol x) (c ++ [x])
      else relaxedCommittee count minStake xs m c
    else (m, c)

/-- The values that the choice of the committee depends on. -/
def committeeValue (Γ : Ctx) (name : String) : Eff Int := do
  let v ← getValuesNoCreate Γ >>= need
  lift (v.val.getValue name)

/-- The end of the computation of `getMetaFull`, from the two loops on. -/
def chooseCommittee (Γ : NodeCtx) (root : String) (win count : Int) (elements : List NodeElement) (m : BlockMetaFull) :
    Node BlockMetaFull := do
  let minStake ← tree Γ.ctx (committeeValue Γ.ctx "validator_min_stake")
  let answeredMin ← tree Γ.ctx (committeeValue Γ.ctx "answered_committee_min")
  let strict ← strictCommittee Γ root win count answeredMin minStake elements m []
  let relaxed := relaxedCommittee count minStake elements (strict.foldl .enrol m) strict
  Node.modify fun s => s.setMeta root win relaxed.1
  Node.raiseIf (relaxed.2 = []) "getMetaFull: no committee (even relaxed)"
  let committe ← Prog.ofExcept (buildTree relaxed.2)
  Node.modify fun s => s.setMeta root win { relaxed.1 with treeCommitte := committe }
  pure { relaxed.1 with treeCommitte := committe }

/-- The computation of `getMetaFull` for a window that is not in the cache. The entry is made first and filled in as the
computation goes on, so that one that raises leaves what it has got to. -/
def computeMeta (Γ : NodeCtx) (root : String) (win : Int) : Node BlockMetaFull := do
  Node.modify fun s => s.setMeta root win {}
  let ns ← tree Γ.ctx (enabledNodes Γ.ctx)
  let pct ← tree Γ.ctx (committeeValue Γ.ctx "validator_count_percent")
  let count := (wrap64 (ns.length * pct)).tdiv 100
  let s ← get
  let vne := rank (s.weightOf Γ win) ns
  let elements := vne.map (·.getElement)
  let m := rankMeta ns vne
  Node.modify fun s => s.setMeta root win m
  let all ← Prog.ofExcept (buildTree elements)
  let m := { m with treeAllNodes := all }
  Node.modify fun s => s.setMeta root win m
  -- a negative number is a large `size_t`
  Node.raiseIf (count < 0 ∨ count ≥ vne.length) "if(validator_count>=vne.size())"
  chooseCommittee Γ root win count elements m

/-- `getMetaFull`. -/
def getMetaFull (Γ : NodeCtx) (ti : Int) : Node BlockMetaFull := do
  let s ← get
  match s.metaAt s.prevRootHashZ (window ti) with
  | some m => pure m
  | none => computeMeta Γ s.prevRootHashZ (window ti)

/-- `isNodeGreater`: the left node stands before the right one. A node without a position raises. -/
def isNodeGreater (nodeLeft nodeRight : String) (m : BlockMetaFull) : Except Stop Bool :=
  match m.positionOfNode[nodeLeft]?, m.positionOfNode[nodeRight]? with
  | none, _ => .error (.exn (.commonError ("if(itL == m->position_of_node.end()) " ++ nodeLeft)))
  | _, none => .error (.exn (.commonError ("if(itR == m->position_of_node.end()) " ++ nodeRight)))
  | some l, some r => .ok (l < r)

/-! ## A small network of nodes -/

namespace Sample

/-- The names in use in the network. -/
def nodeNames : List String :=
  [Name.state, .nodeList, .values, .votes, .addressState "b", .node "m", .node "n", .node "o"].map Name.text

/-- Three nodes with the same stake. -/
def nodeFile : GenesisFile where
  users := [{ addr := "b", balance := 50 }]
  nodes := ["m", "n", "o"].map fun n => { name := n, owner := "b", blsPk := n, ip := n, stake := 100 }

/-- The weights of the three nodes: `n` comes first, then `m`, then `o`. -/
def weight (seed : String) : Nat :=
  match seed.toList with
  | 'n' :: _ => 100
  | 'm' :: _ => 200
  | _ => 300

/-- The world of one of them. -/
def nodeCtx (self : String) : NodeCtx where
  ctx := { ctx [] (fun _ => none) with
    path := fun n => [1, 2, 3, 4, ident nodeNames n]
    path_length := fun _ => rfl
    path_inj := fun a b h => by simpa [(ident_injective nodeNames).eq_iff] using h }
  thisNodeName := self
  blsPk := self
  digest _ := "root"
  weight := weight
  thash h := h
  keyBytes p := String.join (p.map toString)
  packMx _ := ""
  unpackMx _ := none

/-- The state of a node before the first block. -/
def nodeSt : NodeSt where
  st := genesis (nodeCtx "").ctx nodeFile

/-- A heartbeat for the first block. -/
def heartBeat (n : String) (ts : Int) : HeartBeatREQ := { nodeLeader := n, blockTimestamp := ts }

/-- The clocks at a second. -/
def clock (ts : Int) : Clock := { now := ts * oneSec, time := ts }

end Sample

end Grain
