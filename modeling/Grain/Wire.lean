import Grain.BroadcasterTree
import Grain.Messages
import Grain.Pack

/-!
# Packed messages

`pack` and `unpack` of the messages of the block protocol (`md_*.h`) and of the tree that a broadcast carries, and the factory
that makes the message for a type tag. An aggregate signature is its compressed form, `none` before the first signature was
added. Of the references only `att_data` can be null: the constructors make the objects behind the others.
-/

namespace Grain

open Codec

/-! ## Messages and references -/

/-- `Base::pack`, which writes the type, and the fields of the message. -/
def packBase (type : Nat) (fields : List Buffer) : Buffer := putPN type ++ fields.flatten

/-- `unpack2`: the type has to be the message's own. -/
def unpack2 {α : Type} (type : Nat) (u : Unpack α) : Unpack α := do
  let t ← getPN
  if t ≠ type then failure else u

/-- `operator<<` of a reference. -/
def putRef (b : Buffer) : Buffer := putPN 1 ++ b

/-- `operator>>` into a reference. -/
def getRef {α : Type} (type : Nat) (u : Unpack α) : Unpack α := do
  let _ ← getPN
  unpack2 type u

/-- `AggregateSignature::deserialize`: 96 bytes that `blst_p2_uncompress` takes. -/
def getAggSig (sigOk : String → Bool) : Unpack (Option String) := do
  let s ← getPSTR
  if s.length = 96 ∧ sigOk s = true then pure (some s) else failure

/-- `operator<<` of a vector of strings. -/
def putStrings (l : List String) : Buffer := packList elements putPSTR l

/-- `operator>>` into a vector of strings. -/
def getStrings : Unpack (List String) := unpackList elements getPSTR

/-! ## Heartbeats, certificates and transactions -/

/-- The fields of a `HeartBeatREQ`. -/
def HeartBeatREQ.fields (h : HeartBeatREQ) : List Buffer :=
  [putPSTR h.prevRootHash1, putPSTR h.nodeLeader, putInt h.newEpoch, putInt h.blockTimestamp]

/-- `HeartBeatREQ::pack`. -/
def HeartBeatREQ.pack (h : HeartBeatREQ) : Buffer := packBase 0 h.fields

/-- `HeartBeatREQ::unpack`. -/
def HeartBeatREQ.unpack : Unpack HeartBeatREQ := do
  let prevRootHash1 ← getPSTR
  let nodeLeader ← getPSTR
  let newEpoch ← getInt64
  let blockTimestamp ← getInt64
  pure { prevRootHash1 := prevRootHash1, newEpoch := newEpoch, nodeLeader := nodeLeader, blockTimestamp := blockTimestamp }

/-- The fields of a `TX`. -/
def TX.fields (t : TX) : List Buffer := [putPSTR t.txBody, putPSTR t.pkEdBin, putPSTR t.sigEdBin]

/-- `TX::unpack`. -/
def TX.unpack : Unpack TX := do
  let txBody ← getPSTR
  let pkEdBin ← getPSTR
  let sigEdBin ← getPSTR
  pure { txBody := txBody, pkEdBin := pkEdBin, sigEdBin := sigEdBin }

/-- The fields of a `BlockInfo`. -/
def BlockInfo.fields (b : BlockInfo) : List Buffer :=
  [putPSTR b.newRootHash1, putPSTR b.attDataHash, putPSTR b.txHash, putPSTR b.diffsHash, putRef b.heartBeat.pack]

/-- `BlockInfo::pack`. -/
def BlockInfo.pack (b : BlockInfo) : Buffer := packBase 4 b.fields

/-- `BlockInfo::unpack`. -/
def BlockInfo.unpack : Unpack BlockInfo := do
  let newRootHash1 ← getPSTR
  let attDataHash ← getPSTR
  let txHash ← getPSTR
  let diffsHash ← getPSTR
  let heartBeat ← getRef 0 HeartBeatREQ.unpack
  pure { newRootHash1 := newRootHash1, txHash := txHash, diffsHash := diffsHash, attDataHash := attDataHash,
         heartBeat := heartBeat }

namespace Wire

/-- `LeaderCert`, with the bytes of its signature. -/
structure LeaderCert where
  hb : HeartBeatREQ := {}
  nodeValidators : StdSet String := ∅
  aggSig : Option String := none

/-- The fields of a `LeaderCert`; without a signature `serialize` raises. -/
def LeaderCert.fields (x : LeaderCert) : Option (List Buffer) := do
  let aggSig ← x.aggSig
  pure [putRef x.hb.pack, putSet x.nodeValidators, putPSTR aggSig]

/-- `LeaderCert::unpack`. -/
def LeaderCert.unpack (sigOk : String → Bool) : Unpack LeaderCert := do
  let hb ← getRef 0 HeartBeatREQ.unpack
  let nodeValidators ← getSet
  let aggSig ← getAggSig sigOk
  pure { hb := hb, nodeValidators := nodeValidators, aggSig := aggSig }

/-- `BlockAcceptedREQ`, with the bytes of its signature. -/
structure BlockAcceptedREQ where
  blockInfo : BlockInfo := {}
  nodeValidators : List String := []
  aggSig : Option String := none

/-- The fields of a `BlockAcceptedREQ`. -/
def BlockAcceptedREQ.fields (x : BlockAcceptedREQ) : Option (List Buffer) := do
  let aggSig ← x.aggSig
  pure [putRef x.blockInfo.pack, putStrings x.nodeValidators, putPSTR aggSig]

/-- `BlockAcceptedREQ::unpack`. -/
def BlockAcceptedREQ.unpack (sigOk : String → Bool) : Unpack BlockAcceptedREQ := do
  let blockInfo ← getRef 4 BlockInfo.unpack
  let nodeValidators ← getStrings
  let aggSig ← getAggSig sigOk
  pure { blockInfo := blockInfo, nodeValidators := nodeValidators, aggSig := aggSig }

/-- `BlockAccepted2REQ`, with the bytes of its signature. -/
structure BlockAccepted2REQ where
  blockAcceptedREQ : BlockAcceptedREQ := {}
  nodeDiffValidators : List String := []
  aggDiffSig : Option String := none

/-- The fields of a `BlockAccepted2REQ`. -/
def BlockAccepted2REQ.fields (x : BlockAccepted2REQ) : Option (List Buffer) := do
  let blockAcceptedREQ ← x.blockAcceptedREQ.fields
  let aggDiffSig ← x.aggDiffSig
  pure [putRef (packBase 5 blockAcceptedREQ), putStrings x.nodeDiffValidators, putPSTR aggDiffSig]

/-- `BlockAccepted2REQ::unpack`. -/
def BlockAccepted2REQ.unpack (sigOk : String → Bool) : Unpack BlockAccepted2REQ := do
  let blockAcceptedREQ ← getRef 5 (BlockAcceptedREQ.unpack sigOk)
  let nodeDiffValidators ← getStrings
  let aggDiffSig ← getAggSig sigOk
  pure { blockAcceptedREQ := blockAcceptedREQ, nodeDiffValidators := nodeDiffValidators, aggDiffSig := aggDiffSig }

end Wire

/-! ## Attachments -/

/-- The entries of the children. -/
def EmitChildren.entries : EmitChildren → List (String × EmitNode)
  | .nil => []
  | .cons key node rest => (key, node) :: rest.entries

/-- The children that have these entries. -/
def EmitChildren.ofEntries : List (String × EmitNode) → EmitChildren
  | [] => .nil
  | e :: l => .cons e.1 e.2 (ofEntries l)

mutual

/-- `operator<<` of an `EmitNode`. -/
def EmitNode.pack : EmitNode → Buffer
  | .mk emits children =>
    packList elements (packEntry putPSTR putPSTR) emits ++ (putCount children.entries.length ++ children.pack)

/-- The entries of the children, one after the other. -/
def EmitChildren.pack : EmitChildren → Buffer
  | .nil => []
  | .cons key node rest => putPSTR key ++ node.pack ++ rest.pack

end

/-- `operator>>` into an `EmitNode`, with at most `n` levels. -/
def EmitNode.unpackLevels : Nat → Unpack EmitNode
  | 0 => failure
  | n + 1 => do
    let emits ← unpackList elements (unpackEntry getPSTR getPSTR)
    let children ← getMap (EmitNode.unpackLevels n)
    pure (.mk emits (.ofEntries children.toList))

/-- `operator>>` into an `EmitNode`. -/
def EmitNode.unpack : Unpack EmitNode := nested EmitNode.unpackLevels

/-- The fields of an `attachment_data`. -/
def AttachmentData.fields (a : AttachmentData) : List Buffer := [putMap putInt a.fees, putMap putInt a.rewards, a.blockRoot.pack]

/-- `attachment_data::pack`. -/
def AttachmentData.pack (a : AttachmentData) : Buffer := packBase 13 a.fields

/-- `attachment_data::unpack`. -/
def AttachmentData.unpack : Unpack AttachmentData := do
  let fees ← getMap getInt64
  let rewards ← getMap getInt64
  let blockRoot ← EmitNode.unpack
  pure { blockRoot := blockRoot, fees := fees, rewards := rewards }

namespace Wire

/-- `BlockDBStore`. -/
structure BlockDBStore where
  blockAccepted2REQ : BlockAccepted2REQ := {}
  txHashes : List String := []
  diffs : StdMap String String := ∅
  attData : Option AttachmentData := none

/-- The fields of a `BlockDBStore`; a null `att_data` cannot be packed. -/
def BlockDBStore.fields (x : BlockDBStore) : Option (List Buffer) := do
  let blockAccepted2REQ ← x.blockAccepted2REQ.fields
  let attData ← x.attData
  pure [putRef (packBase 20 blockAccepted2REQ), putStrings x.txHashes, putMap putPSTR x.diffs, putRef attData.pack]

/-- `operator>>` into `att_data`, which is null before. -/
def getAttData : Unpack (Option AttachmentData) := getRef 13 AttachmentData.unpack >>= fun a => pure (some a)

/-- `BlockDBStore::unpack`. -/
def BlockDBStore.unpack (sigOk : String → Bool) : Unpack BlockDBStore := do
  let blockAccepted2REQ ← getRef 20 (BlockAccepted2REQ.unpack sigOk)
  let txHashes ← getStrings
  let diffs ← getMap getPSTR
  let attData ← getAttData
  pure { blockAccepted2REQ := blockAccepted2REQ, txHashes := txHashes, diffs := diffs, attData := attData }

end Wire

/-! ## Trees -/

/-- `operator<<` of a `NodeElement`. -/
def NodeElement.pack (t : NodeElement) : Buffer := [putPSTR t.name, putInt t.stakeA, putPSTR t.ip].flatten

/-- `operator>>` into a `NodeElement`. -/
def NodeElement.unpack : Unpack NodeElement := do
  let name ← getPSTR
  let stakeA ← getInt64
  let ip ← getPSTR
  pure { name := name, stakeA := stakeA, ip := ip }

mutual

/-- `operator<<` of a `TreeNode`. -/
def TreeNode.pack : Rose NodeElement → Buffer
  | .mk node children => node.pack ++ (putCount children.length ++ TreeNode.packAll children)

/-- Trees, one after the other. -/
def TreeNode.packAll : List (Rose NodeElement) → Buffer
  | [] => []
  | t :: l => TreeNode.pack t ++ TreeNode.packAll l

end

/-- `operator>>` into a `TreeNode`, with at most `n` levels. -/
def TreeNode.unpackLevels : Nat → Unpack TreeNode
  | 0 => failure
  | n + 1 => do
    let node ← NodeElement.unpack
    let children ← unpackList elements (TreeNode.unpackLevels n)
    pure (.mk node children)

/-- `operator>>` into a `TreeNode`. -/
def TreeNode.unpack : Unpack TreeNode := nested TreeNode.unpackLevels

/-! ## The factory -/

namespace Wire

/-- A message of the block protocol. -/
inductive Msg
  | heartBeatREQ (x : HeartBeatREQ)
  | blockInfo (x : BlockInfo)
  | blockAcceptedREQ (x : BlockAcceptedREQ)
  | blockDBStore (x : BlockDBStore)
  | tx (x : TX)
  | attachmentData (x : AttachmentData)
  | blockAccepted2REQ (x : BlockAccepted2REQ)
  | leaderCert (x : LeaderCert)

/-- `Base::type`. -/
def Msg.type : Msg → Nat
  | .heartBeatREQ _ => 0
  | .blockInfo _ => 4
  | .blockAcceptedREQ _ => 5
  | .blockDBStore _ => 8
  | .tx _ => 12
  | .attachmentData _ => 13
  | .blockAccepted2REQ _ => 20
  | .leaderCert _ => 21

/-- The fields of a message. -/
def Msg.fields : Msg → Option (List Buffer)
  | .heartBeatREQ x => some x.fields
  | .blockInfo x => some x.fields
  | .blockAcceptedREQ x => x.fields
  | .blockDBStore x => x.fields
  | .tx x => some x.fields
  | .attachmentData x => some x.fields
  | .blockAccepted2REQ x => x.fields
  | .leaderCert x => x.fields

/-- The virtual `pack`. -/
def Msg.pack (m : Msg) : Option Buffer := m.fields.map (packBase m.type)

/-- The virtual `unpack` of what has a type; the messages outside of the block protocol are not followed. -/
def Msg.unpack (sigOk : String → Bool) : Nat → Unpack Msg
  | 0 => HeartBeatREQ.unpack >>= fun x => pure (.heartBeatREQ x)
  | 4 => BlockInfo.unpack >>= fun x => pure (.blockInfo x)
  | 5 => BlockAcceptedREQ.unpack sigOk >>= fun x => pure (.blockAcceptedREQ x)
  | 8 => BlockDBStore.unpack sigOk >>= fun x => pure (.blockDBStore x)
  | 12 => TX.unpack >>= fun x => pure (.tx x)
  | 13 => AttachmentData.unpack >>= fun x => pure (.attachmentData x)
  | 20 => BlockAccepted2REQ.unpack sigOk >>= fun x => pure (.blockAccepted2REQ x)
  | 21 => LeaderCert.unpack sigOk >>= fun x => pure (.leaderCert x)
  | _ => failure

/-- The types that `MsgFactory::MsgFactory` registers. -/
def registry : List Nat :=
  [0, 1, 6, 7, 2, 3, 5, 20, 10, 11, 12, 14, 15, 16, 17, 22, 23, 24, 25, 26, 27, 18, 19, 8, 28, 29, 30, 31, 32, 33, 34, 35, 36,
    37, 38, 39]

/-- A message off a stream: its type, and what the factory makes for it; `create` raises for a type that is not registered. -/
def Msg.receive (sigOk : String → Bool) : Unpack Msg := do
  let id ← getInt
  if id.toNat ∈ registry ∧ 0 ≤ id then Msg.unpack sigOk id.toNat else failure

end Wire

/-! ## The ranges of the fields -/

/-- The fields of a heartbeat are in the ranges of their types. -/
structure HeartBeatREQ.Typed (h : HeartBeatREQ) : Prop where
  prevRootHash1 : Sized h.prevRootHash1
  newEpoch : InI64 h.newEpoch
  nodeLeader : Sized h.nodeLeader
  blockTimestamp : InI64 h.blockTimestamp

/-- The fields of a transaction are in the ranges of their types. -/
structure TX.Typed (t : TX) : Prop where
  txBody : Sized t.txBody
  pkEdBin : Sized t.pkEdBin
  sigEdBin : Sized t.sigEdBin

/-- The fields of a block info are in the ranges of their types. -/
structure BlockInfo.Typed (b : BlockInfo) : Prop where
  newRootHash1 : Sized b.newRootHash1
  txHash : Sized b.txHash
  diffsHash : Sized b.diffsHash
  attDataHash : Sized b.attDataHash
  heartBeat : b.heartBeat.Typed

mutual

/-- The property holds of the emits and the entries of the node, and of every node below it. -/
def EmitNode.All (P : List (String × String) → List (String × EmitNode) → Prop) : EmitNode → Prop
  | .mk emits children => P emits children.entries ∧ children.All P

/-- It holds of every child. -/
def EmitChildren.All (P : List (String × String) → List (String × EmitNode) → Prop) : EmitChildren → Prop
  | .nil => True
  | .cons _ node rest => node.All P ∧ rest.All P

end

/-- The strings have lengths, and the entries are in the order of their keys, at every level. -/
def EmitNode.Typed (t : EmitNode) : Prop :=
  t.All fun emits entries => (∀ e ∈ emits, Sized e.1 ∧ Sized e.2) ∧ (∀ e ∈ entries, Sized e.1) ∧
    entries.Pairwise fun a b => compare a.1 b.1 = .lt

/-- The fields of an attachment are in the ranges of their types. -/
structure AttachmentData.Typed (a : AttachmentData) : Prop where
  blockRoot : a.blockRoot.Typed
  fees : SizedMap InI64 a.fees
  rewards : SizedMap InI64 a.rewards

/-- The fields of a node element are in the ranges of their types. -/
structure NodeElement.Typed (t : NodeElement) : Prop where
  name : Sized t.name
  stakeA : InI64 t.stakeA
  ip : Sized t.ip

/-- The fields of every node are in the ranges of their types. -/
def TreeNode.Typed (t : TreeNode) : Prop := t.All fun u => u.node.Typed

namespace Wire

/-- The bytes of a signature are 96 that `blst_p2_uncompress` takes. -/
def SigTyped (sigOk : String → Bool) (o : Option String) : Prop := ∀ s ∈ o, s.length = 96 ∧ sigOk s = true

/-- The fields of a certificate are in the ranges of their types. -/
structure LeaderCert.Typed (sigOk : String → Bool) (x : LeaderCert) : Prop where
  hb : x.hb.Typed
  nodeValidators : SizedSet x.nodeValidators
  aggSig : SigTyped sigOk x.aggSig

/-- The fields of the message are in the ranges of their types. -/
structure BlockAcceptedREQ.Typed (sigOk : String → Bool) (x : BlockAcceptedREQ) : Prop where
  blockInfo : x.blockInfo.Typed
  nodeValidators : ∀ a ∈ x.nodeValidators, Sized a
  aggSig : SigTyped sigOk x.aggSig

/-- The fields of the message are in the ranges of their types. -/
structure BlockAccepted2REQ.Typed (sigOk : String → Bool) (x : BlockAccepted2REQ) : Prop where
  blockAcceptedREQ : x.blockAcceptedREQ.Typed sigOk
  nodeDiffValidators : ∀ a ∈ x.nodeDiffValidators, Sized a
  aggDiffSig : SigTyped sigOk x.aggDiffSig

/-- The fields of the message are in the ranges of their types. -/
structure BlockDBStore.Typed (sigOk : String → Bool) (x : BlockDBStore) : Prop where
  blockAccepted2REQ : x.blockAccepted2REQ.Typed sigOk
  txHashes : ∀ a ∈ x.txHashes, Sized a
  diffs : SizedMap Sized x.diffs
  attData : ∀ a ∈ x.attData, a.Typed

/-- The fields of a message are in the ranges of their types. -/
def Msg.Typed (sigOk : String → Bool) : Msg → Prop
  | .heartBeatREQ x => x.Typed
  | .blockInfo x => x.Typed
  | .blockAcceptedREQ x => x.Typed sigOk
  | .blockDBStore x => x.Typed sigOk
  | .tx x => x.Typed
  | .attachmentData x => x.Typed
  | .blockAccepted2REQ x => x.Typed sigOk
  | .leaderCert x => x.Typed sigOk

end Wire

/-! ## When a message comes back -/

/-- Every level has numbers of emits and of children that an `unsigned int` holds. -/
def EmitNode.Counted (t : EmitNode) : Prop := t.All fun emits entries => emits.length < 2 ^ 32 ∧ entries.length < 2 ^ 32

/-- Every container of the attachment has a number of elements that an `unsigned int` holds. -/
def AttachmentData.Counted (a : AttachmentData) : Prop :=
  a.fees.size < 2 ^ 32 ∧ a.rewards.size < 2 ^ 32 ∧ a.blockRoot.Counted

/-- Every node has a number of children that an `unsigned int` holds. -/
def TreeNode.Counted (t : TreeNode) : Prop := t.All fun u => u.children.length < 2 ^ 32

namespace Wire

/-- There is nothing in the message that `pack` raises for: its signatures were made and `att_data` is not null. -/
def Msg.Complete : Msg → Prop
  | .blockAcceptedREQ x => x.aggSig.isSome
  | .blockDBStore x =>
    (x.blockAccepted2REQ.blockAcceptedREQ.aggSig.isSome ∧ x.blockAccepted2REQ.aggDiffSig.isSome) ∧ x.attData.isSome
  | .blockAccepted2REQ x => x.blockAcceptedREQ.aggSig.isSome ∧ x.aggDiffSig.isSome
  | .leaderCert x => x.aggSig.isSome
  | .heartBeatREQ _ | .blockInfo _ | .tx _ | .attachmentData _ => True

/-- Every container of the message has a number of elements that an `unsigned int` holds. -/
def Msg.Counted : Msg → Prop
  | .blockAcceptedREQ x => x.nodeValidators.length < 2 ^ 32
  | .blockDBStore x =>
    (x.blockAccepted2REQ.blockAcceptedREQ.nodeValidators.length < 2 ^ 32 ∧
      x.blockAccepted2REQ.nodeDiffValidators.length < 2 ^ 32) ∧
    x.txHashes.length < 2 ^ 32 ∧ x.diffs.size < 2 ^ 32 ∧ ∀ a ∈ x.attData, a.Counted
  | .attachmentData x => x.Counted
  | .blockAccepted2REQ x => x.blockAcceptedREQ.nodeValidators.length < 2 ^ 32 ∧ x.nodeDiffValidators.length < 2 ^ 32
  | .leaderCert x => x.nodeValidators.size < 2 ^ 32
  | .heartBeatREQ _ | .blockInfo _ | .tx _ => True

end Wire

end Grain
