import Grain.State

/-!
# The messages of the nodes

The parts of `md_*.h` that the protocol signs and carries, with the byte streams that their `update` functions feed to
`Blake2bHasher`. A stream stands for its digest: the hash is collision-free. A node, an address and a digest are the strings
they wrap.
-/

namespace Grain

/-! ## Heartbeats and blocks -/

/-- `HeartBeatREQ`. -/
structure HeartBeatREQ where
  prevRootHash1 : String := ""
  newEpoch : Int := 0
  nodeLeader : String := ""
  blockTimestamp : Int := 0
  deriving DecidableEq

/-- `HeartBeatREQ::update`; `std::to_string` writes a number in decimal. -/
def HeartBeatREQ.update (h : HeartBeatREQ) : String :=
  h.prevRootHash1 ++ h.newEpoch.repr ++ h.nodeLeader ++ h.blockTimestamp.repr

/-- `getHash`. -/
def HeartBeatREQ.getHash (h : HeartBeatREQ) : String := h.update

/-- `blst_cpp::Signature`: the key it was made with and what it signs. -/
structure Signature where
  pk : String
  msg : String
  deriving DecidableEq

/-- `blst_cpp::AggregateSignature`: the signatures that were added up. -/
abbrev AggregateSignature := List Signature

/-- `AggregateSignature::verify`: it accepts exactly the sum of the signatures of the listed keys, a key that is listed twice
counting twice; an empty list is refused. -/
def AggregateSignature.verify (a : AggregateSignature) (pks : List String) (msg : String) : Bool :=
  !pks.isEmpty && a.isPerm (pks.map fun pk => { pk := pk, msg := msg })

/-- `LeaderCert`. -/
structure LeaderCert where
  hb : HeartBeatREQ := {}
  nodeValidators : StdSet String := ∅
  aggSig : AggregateSignature := []

/-- `BlockInfo`. -/
structure BlockInfo where
  newRootHash1 : String := ""
  txHash : String := ""
  diffsHash : String := ""
  attDataHash : String := ""
  heartBeat : HeartBeatREQ := {}
  deriving DecidableEq

/-- `BlockInfo::update`. -/
def BlockInfo.update (b : BlockInfo) : String :=
  b.newRootHash1 ++ b.txHash ++ b.diffsHash ++ b.attDataHash ++ b.heartBeat.update

/-- `getHash`. -/
def BlockInfo.getHash (b : BlockInfo) : String := b.update

/-- A list of strings, one after the other. -/
def joinAll : List String → String
  | [] => ""
  | s :: l => s ++ joinAll l

/-- `BlockAcceptedREQ`. -/
structure BlockAcceptedREQ where
  blockInfo : BlockInfo := {}
  nodeValidators : List String := []
  aggSig : AggregateSignature := []
  deriving DecidableEq

/-- `BlockAcceptedREQ::update`. -/
def BlockAcceptedREQ.update (b : BlockAcceptedREQ) : String := b.blockInfo.update ++ joinAll b.nodeValidators

/-- `getHash`. -/
def BlockAcceptedREQ.getHash (b : BlockAcceptedREQ) : String := b.update

/-- `BlockAccepted2REQ`. -/
structure BlockAccepted2REQ where
  blockAcceptedREQ : BlockAcceptedREQ := {}
  nodeDiffValidators : List String := []
  aggDiffSig : AggregateSignature := []
  deriving DecidableEq

/-! ## Attachments -/

mutual

/-- `EmitNode`: the emits of a level and the levels below it. -/
inductive EmitNode
  | mk (emits : List (String × String)) (children : EmitChildren)

/-- The children of an `EmitNode`, in the order of their keys. -/
inductive EmitChildren
  | nil
  | cons (key : String) (node : EmitNode) (rest : EmitChildren)

end

/-- The emits of a level, in the stream. -/
def updateEmits : List (String × String) → String
  | [] => ""
  | (a, b) :: l => a ++ b ++ updateEmits l

mutual

/-- `EmitNode::update`. -/
def EmitNode.update : EmitNode → String
  | .mk emits children => updateEmits emits ++ children.update

/-- Its loop over the children. -/
def EmitChildren.update : EmitChildren → String
  | .nil => ""
  | .cons key node rest => key ++ node.update ++ rest.update

end

/-- `attachment_data`. -/
structure AttachmentData where
  blockRoot : EmitNode := .mk [] .nil
  fees : StdMap String Int := ∅
  rewards : StdMap String Int := ∅

/-- The entries of a map of amounts, in the stream. -/
def updateAmounts : List (String × Int) → String
  | [] => ""
  | (k, n) :: l => k ++ n.repr ++ updateAmounts l

/-- `attachment_data::update`. -/
def AttachmentData.update (a : AttachmentData) : String :=
  a.blockRoot.update ++ updateAmounts a.fees.toList ++ updateAmounts a.rewards.toList

/-- `getHash`. -/
def AttachmentData.getHash (a : AttachmentData) : String := a.update

/-! ## Diffs -/

/-- The written leaves and the deleted ones, as they travel: packed cells under their 32-byte keys. -/
structure Diffs where
  diffs : StdMap String String := ∅
  deleted : StdSet String := ∅

/-- The stream of `diff_hash` in `ValidateBlockREQ`. -/
def Diffs.update (d : Diffs) : String := updateEmits d.diffs.toList ++ joinAll d.deleted.toList

end Grain
