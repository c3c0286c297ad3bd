import Grain.IoBuffer

/-!
# Packed cells

`pack` and `unpack` of the payloads (`bc_*.h`), of their header `data_base`, and of a cell (`pack_mx`, `unpack_mx`): the bytes
of a granule, of a hash preimage and of a rollback snapshot. A child identifier and a hash are the strings of their bytes, a
`blst_cpp::PublicKey` is its compressed form.
-/

namespace Grain

open Codec

/-- `map<string, …>`. -/
def putMap {ν : Type} (y : ν → Buffer) (m : StdMap String ν) : Buffer := packMap elements putPSTR y m

/-- `operator>>` into a `map<string, …>`. -/
def getMap {ν : Type} (x : Unpack ν) : Unpack (StdMap String ν) := unpackMap compare elements getPSTR x

/-- `set<string>`, also of the identifiers that wrap strings. -/
def putSet (s : StdSet String) : Buffer := packSet elements putPSTR s

/-- `operator>>` into a `set<string>`. -/
def getSet : Unpack (StdSet String) := unpackSet compare elements getPSTR

/-! ## The payloads -/

/-- `Key::pack`. -/
def Key.pack (k : Key) : Buffer := [putPN k.id, putPN k.type, putPSTR k.keybuffer].flatten

/-- `Key::unpack`. -/
def Key.unpack : Unpack Key := do
  let id ← getPN
  let type ← getUInt8
  let keybuffer ← getPSTR
  pure { id := id, type := type, keybuffer := keybuffer }

/-- `bc_contract` as it is packed: with its name, which nothing reads. -/
structure NamedContract where
  name : String := ""
  owners : StdSet String := ∅
  src : String := ""

/-- `bc_contract::pack`, after the header. -/
def NamedContract.pack (c : NamedContract) : Buffer := [putPN 1, putPSTR c.name, putSet c.owners, putPSTR c.src].flatten

/-- `bc_contract::unpack`, after the header. -/
def NamedContract.unpack : Unpack NamedContract := do
  let _ ← getPN
  let name ← getPSTR
  let owners ← getSet
  let src ← getPSTR
  pure { name := name, owners := owners, src := src }

/-- `bc_address_state::pack`, after the header. -/
def BcAddressState.pack (u : BcAddressState) : Buffer :=
  [putPN 1, putInt u.nonce, putInt u.balance, packMap elements putPN Key.pack u.keys, putSet u.contracts, putSet u.ownedNodes,
    putSet u.stakedIn].flatten

/-- `bc_address_state::unpack`, after the header. -/
def BcAddressState.unpack : Unpack BcAddressState := do
  let _ ← getPN
  let nonce ← getInt64
  let balance ← getInt64
  let keys ← unpackMap compare elements getPN Key.unpack
  let contracts ← getSet
  let ownedNodes ← getSet
  let stakedIn ← getSet
  pure { balance := balance, nonce := nonce, keys := keys, contracts := contracts, ownedNodes := ownedNodes,
         stakedIn := stakedIn }

/-- `PublicKey::deserialize`: 48 bytes that `blst_p1_uncompress` takes. -/
def getBlsPk (blsPkOk : String → Bool) : Unpack String := do
  let s ← getPSTR
  if s.length = 48 ∧ blsPkOk s = true then pure s else failure

/-- `bc_node::pack`, after the header. -/
def BcNode.pack (n : BcNode) : Buffer :=
  [putPN 1, putPSTR n.name, putPSTR n.ownerAddress, putPSTR n.blsPk, putPSTR n.edPk, putPSTR n.ip, putMap putInt n.stakes,
    putBool n.enabled, putInt n.missedRounds, putInt n.answeredRounds].flatten

/-- `bc_node::unpack`, after the header. -/
def BcNode.unpack (blsPkOk : String → Bool) : Unpack BcNode := do
  let _ ← getPN
  let name ← getPSTR
  let ownerAddress ← getPSTR
  let blsPk ← getBlsPk blsPkOk
  let edPk ← getPSTR
  let ip ← getPSTR
  let stakes ← getMap getInt64
  let enabled ← getBool
  let missedRounds ← getInt
  let answeredRounds ← getInt64
  pure { name := name, ownerAddress := ownerAddress, blsPk := blsPk, edPk := edPk, ip := ip, stakes := stakes,
         enabled := enabled, missedRounds := missedRounds, answeredRounds := answeredRounds }

/-- `bc_values::pack`, after the header. -/
def BcValues.pack (v : BcValues) : Buffer := [putPN 1, putMap putInt v.values, putSet v.emittersBin].flatten

/-- `bc_values::unpack`, after the header. -/
def BcValues.unpack : Unpack BcValues := do
  let _ ← getPN
  let values ← getMap getInt64
  let emittersBin ← getSet
  pure { values := values, emittersBin := emittersBin }

/-- `operator<<` of a `vote`. -/
def Vote.pack (z : Vote) : Buffer :=
  [putPSTR z.param, putInt z.value, putSet z.nodes, putInt z.createTime, putInt z.ttl].flatten

/-- `operator>>` into a `vote`. -/
def Vote.unpack : Unpack Vote := do
  let param ← getPSTR
  let value ← getInt64
  let nodes ← getSet
  let createTime ← getInt64
  let ttl ← getInt64
  pure { param := param, value := value, nodes := nodes, createTime := createTime, ttl := ttl }

/-- `i128_put`: the zigzag number in two halves. -/
def putI128 (v : Int) : Buffer :=
  let z := (if v < 0 then -2 * v - 1 else 2 * v).toNat
  [putPN (z % 2 ^ 64), putPN (z / 2 ^ 64)].flatten

/-- `i128_get`. -/
def getI128 : Unpack Int := do
  let lo ← getPN
  let hi ← getPN
  let z := hi * 2 ^ 64 + lo
  pure (if z % 2 = 0 then ((z / 2 : Nat) : Int) else -((z / 2 : Nat) : Int) - 1)

/-- `bc_state::pack`, after the header. -/
def BcState.pack (s : BcState) : Buffer :=
  [putPN 1, putI128 s.totalSupply, putI128 s.totalStake, putInt s.accountCount, putInt s.nodeCount, putInt s.contractCount,
    putInt s.txCount, putInt s.blockHeight, putInt s.genesisTime, putInt s.chainId].flatten

/-- `bc_state::unpack`, after the header. -/
def BcState.unpack : Unpack BcState := do
  let _ ← getPN
  let totalSupply ← getI128
  let totalStake ← getI128
  let accountCount ← getInt64
  let nodeCount ← getInt64
  let contractCount ← getInt64
  let txCount ← getInt64
  let blockHeight ← getInt64
  let genesisTime ← getInt64
  let chainId ← getInt64
  pure { totalSupply := totalSupply, totalStake := totalStake, accountCount := accountCount, nodeCount := nodeCount,
         contractCount := contractCount, txCount := txCount, blockHeight := blockHeight, genesisTime := genesisTime,
         chainId := chainId }

/-- A payload as it is packed. -/
inductive PayloadImage
  | contract (v : NamedContract)
  | addressState (v : BcAddressState)
  | node (v : BcNode)
  | nodelist (list : StdSet String)
  | values (v : BcValues)
  | contractData (container : String)
  | votes (votes : StdMap String Vote)
  | contractBalance (amount : Int)
  | state (v : BcState)
  | contractActivity (name : String)

/-- The virtual `pack`, after the header. -/
def PayloadImage.pack : PayloadImage → Buffer
  | .contract v => v.pack
  | .addressState v => v.pack
  | .node v => v.pack
  | .nodelist list => [putPN 1, putSet list].flatten
  | .values v => v.pack
  | .contractData container => [putPN 1, putPSTR container].flatten
  | .votes m => [putPN 1, putMap Vote.pack m].flatten
  | .contractBalance amount => [putPN 1, putInt amount].flatten
  | .state v => v.pack
  | .contractActivity name => [putPN 1, putPSTR name].flatten

/-- A version number, and one field. -/
def versioned {α : Type} (u : Unpack α) : Unpack α := do
  let _ ← getPN
  let a ← u
  pure a

/-- The virtual `unpack`, after the header, of what `db_constructors` makes for an index; behind the last there is none. -/
def PayloadImage.unpack (blsPkOk : String → Bool) : Hsh → Unpack PayloadImage
  | .bcContract => NamedContract.unpack >>= fun v => pure (.contract v)
  | .bcAddressState => BcAddressState.unpack >>= fun v => pure (.addressState v)
  | .bcNode => BcNode.unpack blsPkOk >>= fun v => pure (.node v)
  | .bcNodelist => versioned getSet >>= fun v => pure (.nodelist v)
  | .bcValues => BcValues.unpack >>= fun v => pure (.values v)
  | .bcContractData => versioned getPSTR >>= fun v => pure (.contractData v)
  | .bcVotes => versioned (getMap Vote.unpack) >>= fun v => pure (.votes v)
  | .bcContractBalance => versioned getInt64 >>= fun v => pure (.contractBalance v)
  | .bcState => BcState.unpack >>= fun v => pure (.state v)
  | .bcContractActivity => versioned getPSTR >>= fun v => pure (.contractActivity v)
  | .hshEnd => failure

/-- The constructor index of the payload's type. -/
def PayloadImage.hsh : PayloadImage → Hsh
  | .contract _ => .bcContract
  | .addressState _ => .bcAddressState
  | .node _ => .bcNode
  | .nodelist _ => .bcNodelist
  | .values _ => .bcValues
  | .contractData _ => .bcContractData
  | .votes _ => .bcVotes
  | .contractBalance _ => .bcContractBalance
  | .state _ => .bcState
  | .contractActivity _ => .bcContractActivity

/-- An enumerator of `hsh::hashers` as a number. -/
def Hsh.index : Hsh → Nat
  | .bcContract => 0
  | .bcAddressState => 1
  | .bcNode => 2
  | .bcNodelist => 3
  | .bcValues => 4
  | .bcContractData => 5
  | .bcVotes => 6
  | .bcContractBalance => 7
  | .bcState => 8
  | .bcContractActivity => 9
  | .hshEnd => 10

/-- The entries of `db_constructors`. -/
def Hsh.ofIndex : Nat → Hsh
  | 0 => .bcContract
  | 1 => .bcAddressState
  | 2 => .bcNode
  | 3 => .bcNodelist
  | 4 => .bcValues
  | 5 => .bcContractData
  | 6 => .bcVotes
  | 7 => .bcContractBalance
  | 8 => .bcState
  | 9 => .bcContractActivity
  | _ => .hshEnd

/-! ## Cells -/

/-- A payload with its header `data_base`. -/
structure DataImage where
  type : Int
  updateTime : Int := 0
  ttl : Int := -1
  content : PayloadImage

/-- The virtual `pack` of a payload. -/
def DataImage.pack (d : DataImage) : Buffer :=
  [putPN 1, putInt d.type, putInt d.updateTime, putInt d.ttl, d.content.pack].flatten

/-- The virtual `unpack` of a payload that was made for the index. -/
def DataImage.unpack (blsPkOk : String → Bool) (idx : Hsh) : Unpack DataImage := do
  let _ ← getPN
  let type ← getInt
  let updateTime ← getInt64
  let ttl ← getInt
  let content ← PayloadImage.unpack blsPkOk idx
  pure { type := type, updateTime := updateTime, ttl := ttl, content := content }

/-- What `pack_mx` writes of a `Cellable`. -/
structure CellImage where
  payloadCtorIdx : Nat := Hsh.hshEnd.index
  childrenHashes : StdMap String String := ∅
  data : Option DataImage := none

/-- The data behind its flag `valid`. -/
def packData : Option DataImage → Buffer
  | none => putBool false
  | some d => putBool true ++ d.pack

/-- The flag `valid` and the data. -/
def unpackData (blsPkOk : String → Bool) (idx : Nat) : Unpack (Option DataImage) := do
  let valid ← getBool
  if valid then
    if idx < Hsh.hshEnd.index then DataImage.unpack blsPkOk (.ofIndex idx) >>= fun d => pure (some d) else failure
  else pure none

/-- `pack_mx`. -/
def CellImage.pack (c : CellImage) : Buffer :=
  [putPN 1, putPN c.payloadCtorIdx, putMap putPSTR c.childrenHashes, packData c.data].flatten

/-- `unpack_mx` into a new cell. -/
def CellImage.unpack (blsPkOk : String → Bool) : Unpack CellImage := do
  let _ ← getPN
  let payloadCtorIdx ← getUInt
  let childrenHashes ← getMap getPSTR
  let data ← unpackData blsPkOk payloadCtorIdx
  pure { payloadCtorIdx := payloadCtorIdx, childrenHashes := childrenHashes, data := data }

/-! ## The ranges of the fields -/

/-- Every string of the set has a length. -/
def SizedSet (s : StdSet String) : Prop := ∀ a ∈ s, Sized a

/-- Every key of the map has a length and every value is in its range. -/
def SizedMap {ν : Type} (P : ν → Prop) (m : StdMap String ν) : Prop := ∀ e ∈ m.toList, Sized e.1 ∧ P e.2

/-- The fields of a key are in the ranges of their types. -/
structure Key.Typed (k : Key) : Prop where
  id : k.id < 2 ^ 64
  type : k.type < 2 ^ 8
  keybuffer : Sized k.keybuffer

/-- The fields of a contract are in the ranges of their types. -/
structure NamedContract.Typed (c : NamedContract) : Prop where
  name : Sized c.name
  owners : SizedSet c.owners
  src : Sized c.src

/-- The fields of an address state are in the ranges of their types. -/
structure BcAddressState.Typed (u : BcAddressState) : Prop where
  nonce : InI64 u.nonce
  balance : InI64 u.balance
  keys : ∀ e ∈ u.keys.toList, e.1 < 2 ^ 64 ∧ e.2.Typed
  contracts : SizedSet u.contracts
  ownedNodes : SizedSet u.ownedNodes
  stakedIn : SizedSet u.stakedIn

/-- The fields of a node are in the ranges of their types; the key is one that `blst_p1_uncompress` takes. -/
structure BcNode.Typed (blsPkOk : String → Bool) (n : BcNode) : Prop where
  name : Sized n.name
  ownerAddress : Sized n.ownerAddress
  blsPk : n.blsPk.length = 48 ∧ blsPkOk n.blsPk = true
  edPk : Sized n.edPk
  ip : Sized n.ip
  stakes : SizedMap InI64 n.stakes
  missedRounds : InI32 n.missedRounds
  answeredRounds : InI64 n.answeredRounds

/-- The fields of the values are in the ranges of their types. -/
structure BcValues.Typed (v : BcValues) : Prop where
  values : SizedMap InI64 v.values
  emittersBin : SizedSet v.emittersBin

/-- The fields of a vote are in the ranges of their types. -/
structure Vote.Typed (z : Vote) : Prop where
  param : Sized z.param
  value : InI64 z.value
  nodes : SizedSet z.nodes
  createTime : InI64 z.createTime
  ttl : InI64 z.ttl

/-- The fields of the chain state are in the ranges of their types. -/
structure BcState.Typed (s : BcState) : Prop where
  totalSupply : InI128 s.totalSupply
  totalStake : InI128 s.totalStake
  accountCount : InI64 s.accountCount
  nodeCount : InI64 s.nodeCount
  contractCount : InI64 s.contractCount
  txCount : InI64 s.txCount
  blockHeight : InI64 s.blockHeight
  genesisTime : InI64 s.genesisTime
  chainId : InI64 s.chainId

/-- The fields of a payload are in the ranges of their types. -/
def PayloadImage.Typed (blsPkOk : String → Bool) : PayloadImage → Prop
  | .contract v => v.Typed
  | .addressState v => v.Typed
  | .node v => v.Typed blsPkOk
  | .nodelist list => SizedSet list
  | .values v => v.Typed
  | .contractData container => Sized container
  | .votes m => SizedMap Vote.Typed m
  | .contractBalance amount => InI64 amount
  | .state v => v.Typed
  | .contractActivity name => Sized name

/-- A payload as its constructor and its setters leave it: the type is its own, the fields are in range. -/
structure DataImage.Typed (blsPkOk : String → Bool) (d : DataImage) : Prop where
  type : d.type = d.content.hsh.index
  updateTime : InI64 d.updateTime
  ttl : InI32 d.ttl
  content : d.content.Typed blsPkOk

/-- A cell of a well-formed state: an index below `2 ^ 32`, which is that of the payload where there is one. -/
structure CellImage.Typed (blsPkOk : String → Bool) (c : CellImage) : Prop where
  payloadCtorIdx : c.payloadCtorIdx < 2 ^ 32
  childrenHashes : SizedMap Sized c.childrenHashes
  data : ∀ d ∈ c.data, c.payloadCtorIdx = d.content.hsh.index ∧ d.Typed blsPkOk

/-! ## The numbers of elements -/

/-- Every container of the payload has a number of elements that an `unsigned int` holds. -/
def PayloadImage.Counted : PayloadImage → Prop
  | .contract v => v.owners.size < 2 ^ 32
  | .addressState v => v.keys.size < 2 ^ 32 ∧ v.contracts.size < 2 ^ 32 ∧ v.ownedNodes.size < 2 ^ 32 ∧ v.stakedIn.size < 2 ^ 32
  | .node v => v.stakes.size < 2 ^ 32
  | .nodelist list => list.size < 2 ^ 32
  | .values v => v.values.size < 2 ^ 32 ∧ v.emittersBin.size < 2 ^ 32
  | .votes m => m.size < 2 ^ 32 ∧ ∀ e ∈ m.toList, e.2.nodes.size < 2 ^ 32
  | .contractData _ | .contractBalance _ | .state _ | .contractActivity _ => True

/-- Every container of the cell has a number of elements that an `unsigned int` holds. -/
def CellImage.Counted (c : CellImage) : Prop := c.childrenHashes.size < 2 ^ 32 ∧ ∀ d ∈ c.data, d.content.Counted

end Grain
