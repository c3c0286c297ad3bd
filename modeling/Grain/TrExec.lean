import Grain.Leaves

/-!
# The root commands

The commands of `tr_exec.cpp`. Each reads its parameters, checks them against the tree and then writes leaves; an error is
returned as a text (`Stop.err`), an exception passes through. The order of a leaf's mutation and of its `markDirty`, which is
where the rollback log takes its snapshot, is that of the source.
-/

namespace Grain

open Eff

/-- The part of `t_params` that does not change during a transaction. -/
structure TParams where
  senderAddress : String
  tx : TX
  gasLimitGas : Int
  blockTimestamp : Int
  nonce : Int
  chainId : Int

/-- What does not change during a block: the fees, the timestamp of the request's heartbeat, the full stake of the enabled
nodes and, of the last stored block if there is one, its timestamp and validators. -/
structure BParams where
  fees : FeesSnapshot
  blockTs : Int
  fullStake : Int
  prevTimestamp : Int
  prevValidators : Option (List String)

/-- The text of an emit: `vsnprintf` into 1024 bytes. -/
def emitText (s : String) : String := if s.length ≥ 1024 then "\"overflow\"" else s

/-- `emit_command`. -/
def emitCommand (t : TParams) (seqId : Nat) (command body : String) : Eff Unit :=
  emit { txId := some t.tx.getHash, seqId := some seqId, command := command, body := emitText body }

/-- A JSON object whose members have the given texts, as the emits write them. -/
def jsonObj (kvs : List (String × String)) : String :=
  "\x7b" ++ ",".intercalate (kvs.map fun kv => "\"" ++ kv.1 ++ "\":" ++ kv.2) ++ "\x7d"

/-- A JSON object of text members. -/
def jsonText (kvs : List (String × String)) : String := jsonObj (kvs.map fun kv => (kv.1, "\"" ++ kv.2 ++ "\""))

/-- `execute_mint`. -/
def executeMint (Γ : Ctx) (params : Json) (t : TParams) (seqId : Nat) : Eff Unit := do
  let v ← getValuesNoCreate Γ >>= need
  failIf (t.senderAddress ∉ v.val.emittersBin) "insufficient_privileges"
  let amount ← lift (yyGetInt64 params "amount")
  let u ← getAddressStateNoCreate Γ t.senderAddress >>= orErr "mint: sender not found"
  assign u.ptr (.addBalance amount)
  markDirty u.ptr
  let st ← getStateNoCreate Γ >>= orErr "state create failed"
  assign st.ptr (.addTotalSupply amount)
  markDirty st.ptr
  emitCommand t seqId "mint" (jsonText [("to", base16Encode t.senderAddress), ("amount", toString amount)])

/-- `execute_transfer`. -/
def executeTransfer (Γ : Ctx) (params : Json) (t : TParams) (seqId : Nat) : Eff Unit := do
  let amount ← lift (yyGetInt64 params "amount")
  let toHex ← lift (yyGetString params "to")
  let toAddr ← lift (base16Decode toHex)
  failIf (toAddr.length ≠ t.senderAddress.length) "param to has invalid size"
  let _ ← getAddressStateNoCreate Γ t.senderAddress >>= orErr "sender userstate invalid"
  failIf (toAddr = t.senderAddress) "cannot transfer to self"
  let dst ← getAddressStateNoCreate Γ toAddr >>= orErr ("execute_transfer: to address not found " ++ base16Encode toAddr)
  failIf (amount > (← value)) "amount>t.value"
  addValue (-amount)
  assign dst.ptr (.addBalance amount)
  markDirty dst.ptr
  emitCommand t seqId "transfer"
    (jsonText [("from", base16Encode t.senderAddress), ("to", base16Encode toAddr), ("amount", toString amount)])

/-- `execute_node_update`. -/
def executeNodeUpdate (Γ : Ctx) (params : Json) (b : BParams) (t : TParams) (seqId : Nat) : Eff Unit := do
  let _ ← getValuesNoCreate Γ
  let name ← lift (yyGetString params "name")
  let nn ← getNodeNoCreate Γ name >>= orErr "Node not found"
  failIf (nn.val.ownerAddress ≠ t.senderAddress) "only node owner can update node info"
  let _ ← getAddressStateNoCreate Γ t.senderAddress >>= orErr "if(!us.valid())"
  let ip ← lift (yyGetString params "ip")
  assign nn.ptr (.setIp ip)
  emitCommand t seqId "node_change_ip" (jsonText [("node", name), ("ip", ip)])
  markDirty nn.ptr
  addGas b.fees.gasNodeUpdate

/-- The check that `node_create` and `contract_deploy` make of every character of a name. -/
def checkNameChars : List Char → Eff Unit
  | [] => pure ()
  | z :: zs => do
    failIf (¬ z.isAlphanum ∧ z ≠ '_') "allowed only isalnum symbols and '_'"
    failIf z.isUpper "allowed only lowercase symbols"
    checkNameChars zs

/-- `blst_cpp::PublicKey::deserializeHexStr`. -/
def deserializeBls (Γ : Ctx) (hex : String) : Except Stop String := do
  let buf ← base16Decode hex
  if buf.length ≠ 48 then throw (.exn (.commonError ("bad pk(48) size" ++ toString buf.length)))
  else if Γ.blsPkOk buf then pure buf
  else throw (.exn (.commonError "bad pk"))

/-- `execute_node_create`. The node is added before its parameters are read. -/
def executeNodeCreate (Γ : Ctx) (params : Json) (b : BParams) (t : TParams) (seqId : Nat) : Eff Unit := do
  let _ ← getValuesNoCreate Γ
  let name ← lift (yyGetString params "name")
  checkNameChars name.toList
  failIf (← getNodeNoCreate Γ name).isSome "Node already registered with name"
  let us ← getAddressStateNoCreate Γ t.senderAddress >>= orErr "if(!us.valid())"
  let n ← addNode Γ name
  let ip ← lift (yyGetString params "ip")
  let pkEd ← lift (yyGetString params "pk_ed")
  let pkBls ← lift (yyGetString params "pk_bls")
  let bls ← lift (deserializeBls Γ pkBls)
  let ed ← lift (base16Decode pkEd)
  assign n (.initNode name t.senderAddress bls ed ip)
  assign us.ptr (.insertOwnedNode name)
  assign us.ptr (.raiseUpdateTime t.blockTimestamp)
  markDirty us.ptr
  markDirty n
  addGas b.fees.gasNodeCreate
  emitCommand t seqId "node_create" (jsonText [("node", name), ("ip", ip)])

/-- `execute_node_stake`. -/
def executeNodeStake (Γ : Ctx) (params : Json) (b : BParams) (t : TParams) (seqId : Nat) : Eff Unit := do
  let _ ← getValuesNoCreate Γ
  let amount ← lift (yyGetInt64 params "amount")
  let node ← lift (yyGetString params "node")
  let us ← getAddressStateNoCreate Γ t.senderAddress >>= orErr "if(!us.valid())"
  let n ← getNodeNoCreate Γ node >>= orErr "node not found"
  failIf ((← value) < amount) "Insufficient funds"
  addValue (-amount)
  assign n.ptr (.addStake t.senderAddress amount)
  assign us.ptr (.insertStakedIn node)
  assign us.ptr (.raiseUpdateTime t.blockTimestamp)
  markDirty us.ptr
  addGas b.fees.gasNodeStake
  let st ← getStateNoCreate Γ >>= orErr "if (!st.valid())"
  assign st.ptr (.addTotalStake amount)
  markDirty st.ptr
  emitCommand t seqId "node_stake"
    (jsonText [("node", node), ("stake", toString amount), ("from", base16Encode t.senderAddress)])
  markDirty n.ptr

/-- `execute_unstake_node`. -/
def executeUnstakeNode (Γ : Ctx) (params : Json) (t : TParams) (seqId : Nat) : Eff Unit := do
  let _ ← getValuesNoCreate Γ
  let amount ← lift (yyGetInt64 params "amount")
  let node ← lift (yyGetString params "node")
  let n ← getNodeNoCreate Γ node >>= orErr "nodes not registered"
  let stake := n.val.getUserStake t.senderAddress
  failIf (stake = 0) "no_stake_found"
  failIf (stake < amount) "insufficient stake in node"
  let u ← getAddressStateNoCreate Γ t.senderAddress >>= orErr "if(!u.valid())"
  addValue amount
  assign n.ptr (.addStake t.senderAddress (-amount))
  doIf ((← derefNode n.ptr).getUserStake t.senderAddress = 0) (assign u.ptr (.eraseStakedIn node))
  assign u.ptr (.raiseUpdateTime t.blockTimestamp)
  markDirty u.ptr
  markDirty n.ptr
  let st ← getStateNoCreate Γ >>= orErr "state create failed"
  assign st.ptr (.addTotalStake (-amount))
  markDirty st.ptr
  emitCommand t seqId "node_unstake"
    (jsonText [("node", node), ("from", base16Encode t.senderAddress), ("amount", toString amount)])

/-- The common form of `execute_node_enable` and `execute_node_disable`: only the owner may set the flag, and only to a new
value. -/
def setNodeEnabled (Γ : Ctx) (on : Bool) (already command : String) (gas : Int) (params : Json) (t : TParams)
    (seqId : Nat) : Eff Unit := do
  let _ ← getValuesNoCreate Γ
  let node ← lift (yyGetString params "node")
  let n ← getNodeNoCreate Γ node >>= orErr "node not found"
  failIf (n.val.ownerAddress ≠ t.senderAddress)
    ("only node owner can enable node owner " ++ base16Encode n.val.ownerAddress ++ " " ++ base16Encode t.senderAddress)
  failIf (n.val.enabled = on) already
  assign n.ptr (.setEnabled on)
  markDirty n.ptr
  addGas gas
  emitCommand t seqId command (jsonText [("node", node)])

/-- `execute_node_enable`. -/
def executeNodeEnable (Γ : Ctx) (params : Json) (b : BParams) (t : TParams) (seqId : Nat) : Eff Unit :=
  setNodeEnabled Γ true "node already enabled" "node_enable" b.fees.gasNodeEnable params t seqId

/-- `execute_node_disable`. -/
def executeNodeDisable (Γ : Ctx) (params : Json) (b : BParams) (t : TParams) (seqId : Nat) : Eff Unit :=
  setNodeEnabled Γ false "node already disabled" "node_disable" b.fees.gasNodeDisable params t seqId

/-! ## Contracts -/

/-- `MAX_GRANULE_TTL`: ten years. -/
def maxGranuleTtl : Int := 315360000

/-- The gas of a time to live: the quotient, rounded up. -/
def ttlGas (b : FeesSnapshot) (ttl : Int) : Eff Int := quot (ttl + b.ttlSecondsPerGas - 1) b.ttlSecondsPerGas

/-- `execute_contract_deploy`. -/
def executeContractDeploy (Γ : Ctx) (params : Json) (b : BParams) (t : TParams) (seqId : Nat) : Eff Unit := do
  let name ← lift (yyGetString params "name")
  checkNameChars name.toList
  failIf (← getContractNoCreate Γ name).isSome "Contract already registered with name"
  let us ← getAddressStateNoCreate Γ t.senderAddress >>= orErr "if(!us.valid())"
  let ttl ← lift (yyGetInt64 params "ttl")
  failIf (ttl ≤ 0) "contract_deploy: ttl must be > 0"
  failIf (ttl > maxGranuleTtl) "contract_deploy: ttl > MAX_TTL"
  let n ← getContractOrCreate Γ name
  let src ← lift (yyGetString params "src")
  assign n (.initContract t.senderAddress src)
  assign n (.raiseUpdateTime 0)
  assign n (.setTtl 0)
  markDirty n
  let act ← getContractActivityOrCreate Γ name >>= orErr "activity create failed"
  assign act (.raiseUpdateTime (wrap64 (t.blockTimestamp + ttl)))
  assign act (.setTtl ttl)
  setDirty act true
  let ab ← getContractBalanceOrCreate Γ name
  raiseIf ab.isNone "if(!ab.valid())"
  let ab ← need ab
  setDirty ab true
  assign ab (.setUpdateTime 0)
  assign ab (.setTtl 0)
  addGas (b.fees.gasContractDeploy + (← ttlGas b.fees ttl))
  let st ← getStateNoCreate Γ >>= orErr "state create failed"
  assign st.ptr .incContractCount
  markDirty st.ptr
  assign us.ptr (.insertContract name)
  markDirty us.ptr
  assign us.ptr (.raiseUpdateTime t.blockTimestamp)
  emitCommand t seqId "contract_deploy"
    (jsonText [("name", name), ("owner", base16Encode t.senderAddress), ("ttl", toString ttl)])

/-- `execute_contract_update`. -/
def executeContractUpdate (Γ : Ctx) (params : Json) (t : TParams) (seqId : Nat) : Eff Unit := do
  let _ ← getValuesNoCreate Γ
  let cn ← lift (yyGetString params "name")
  let n ← getContractNoCreate Γ cn >>= orErr "contract not exists"
  failIf (t.senderAddress ∉ n.val.owners) "sender is not contract owner"
  let _ ← getAddressStateNoCreate Γ t.senderAddress >>= orErr "if(!us.valid())"
  let src ← lift (yyGetString params "src")
  assign n.ptr (.setSrc src)
  markDirty n.ptr
  let act ← getContractActivityNoCreate Γ cn >>= orErr "activity create failed"
  assign act.ptr (.raiseUpdateTime (wrap64 (t.blockTimestamp + act.obj.ttl)))
  setDirty act.ptr true
  emitCommand t seqId "contract_update" (jsonText [("name", cn), ("owner", base16Encode t.senderAddress)])
  uncache cn

/-! ## Votes -/

/-- The optional `ttl` of a vote. -/
def voteTtl (params : Json) : Except Stop (Option Int) :=
  match params.objGet "ttl" with
  | none => .ok none
  | some (.str s) =>
    match stoull (cstr s) with
    | .ok n => .ok (some n)
    | .error _ => .error (.err "param 'ttl' invalid")
  | some v => if v.isNum then .ok (some v.getSint) else .error (.err "param 'ttl' must be number or string")

/-- The stake of the nodes that voted. -/
def votedStake (Γ : Ctx) : List String → Int → Eff Int
  | [], stake => pure stake
  | z :: zs, stake => do
    let nn ← getNodeNoCreate Γ z >>= orErr ("node not found " ++ z)
    votedStake Γ zs (wrap64 (stake + nn.val.getFullStake))

/-- `QUORUM`. -/
def quorum : Int := 67

/-- The end of `execute_vote`, with the vote filed: if the stake behind it is enough, the value is set. -/
def applyVote (Γ : Ctx) (b : BParams) (t : TParams) (seqId : Nat) (votes : DataPtr) (vhash param value : String)
    (voted : StdSet String) : Eff Unit := do
  markDirty votes
  let stake ← votedStake Γ voted.toList 0
  let percent ← quot (wrap64 (stake * 100)) b.fullStake
  doIf (percent > quorum) do
    let vv ← getValuesNoCreate Γ >>= need
    let n ← lift (stoull value)
    assign vv.ptr (.setValue param n)
    doIf (param = "validator_min_stake") (assign vv.ptr (.setValue "validator_min_stake_activated" 1))
    assign votes (.eraseVote vhash)
    markDirty votes
    markDirty vv.ptr
    emitCommand t seqId "vote_applied" (jsonText [("param", param), ("value", value)])

/-- `execute_vote`. A vote is filed under the hash of the parameter followed by the value's text. -/
def executeVote (Γ : Ctx) (params : Json) (b : BParams) (t : TParams) (seqId : Nat) : Eff Unit := do
  let _ ← getValuesNoCreate Γ
  let votesPtr ← getVotesNoCreate Γ
  let node ← lift (yyGetString params "node")
  let param ← lift (yyGetString params "param")
  let value ← lift (yyGetString params "value")
  let ttl ← lift (voteTtl params)
  let n ← getNodeNoCreate Γ node >>= orErr "node not exists"
  failIf (n.val.ownerAddress ≠ t.senderAddress) "insufficient privileges, node owner required"
  let vhash := param ++ value
  let votes ← need votesPtr
  match votes.val[vhash]? with
  | none =>
    failIf (ttl.getD 0 = 0) "param 'ttl' must be specified on first vote"
    -- the entry is made before the value is converted, so an exception leaves it behind without value, time and nodes
    assign votes.ptr (.setVote vhash { param := param, value := 0, nodes := ∅, createTime := 0, ttl := 0 })
    let z ← lift (stoull value)
    assign votes.ptr (.setVote vhash
      { param := param, value := z, nodes := (∅ : StdSet String).insert node, createTime := b.blockTs, ttl := ttl.getD 0 })
    applyVote Γ b t seqId votes.ptr vhash param value ((∅ : StdSet String).insert node)
    emitCommand t seqId "vote_counted" (jsonText [("node", node), ("param", param), ("value", value)])
  | some z =>
    let elapsed := wrap64 (b.blockTs - z.createTime)
    if elapsed > z.ttl then
      emitCommand t seqId "vote_failed" (jsonText [("param", param), ("value", value), ("reason", "ttl_expired"),
        ("elapsed", toString elapsed), ("ttl", toString z.ttl)])
      assign votes.ptr (.eraseVote vhash)
      markDirty votes.ptr
    else
      assign votes.ptr (.setVote vhash { z with nodes := z.nodes.insert node })
      applyVote Γ b t seqId votes.ptr vhash param value (z.nodes.insert node)
      emitCommand t seqId "vote_counted" (jsonText [("node", node), ("param", param), ("value", value)])

/-! ## Keys -/

/-- The size `verify_ed_pk` requires of a public key. -/
def edPublicKeyBytes : Nat := 32

/-- The size `verify_ed_pk` requires of a signature. -/
def edSignatureBytes : Nat := 64

/-- `verify_ed_pk`. -/
def verifyEdPk (Γ : Ctx) (pk sig msg : String) : Except Stop Bool :=
  if pk.length ≠ edPublicKeyBytes then .error (.exn (.commonError "if(pk.size()!=crypto_sign_PUBLICKEYBYTES)"))
  else if sig.length ≠ edSignatureBytes then .error (.exn (.commonError "if(signature.size()!=crypto_sign_BYTES)"))
  else .ok (Γ.edVerify pk sig msg)

/-- `verify`. -/
def verify (Γ : Ctx) (k : Key) (sig msg : String) : Except Stop Bool :=
  match k.type with
  | 0 => verifyEdPk Γ k.keybuffer sig msg
  | 1 => .ok (sig.length = 64 && Γ.ecdsaVerify 1 k.keybuffer sig msg)
  | 2 => .ok (sig.length = 64 && Γ.ecdsaVerify 2 k.keybuffer sig msg)
  | _ => .ok false

/-- The checks of a key's type against the length of its buffer. -/
def checkKey (type : Int) (kb : String) : Eff Unit := do
  failIf (type = 0 ∧ kb.length ≠ 32) "key: bad ed25519 size"
  failIf ((type = 1 ∨ type = 2) ∧ kb.length ≠ 33 ∧ kb.length ≠ 65) "key: bad ecdsa size (33/65)"

/-- The conversion of a key type to `uint8_t`. -/
def toU8 (n : Int) : Nat := (n % 256).toNat

/-- `addKey`: the new key's identifier, or none when the address is full. -/
def addKey (u : DataPtr) (type : Nat) (kb : String) : Eff (Option Nat) := do
  match (← derefAddress u).newKeyId with
  | none => pure none
  | some id =>
    assign u (.insertKey { id := id, type := type, keybuffer := kb })
    pure (some id)

/-- Some key of the address has the public key that the transaction carries. -/
def isOwner (u : BcAddressState) (pk : String) : Bool := u.keys.toList.any fun z => z.2.keybuffer = pk

/-- `execute_add_address_key`. -/
def executeAddAddressKey (Γ : Ctx) (params : Json) (t : TParams) (seqId : Nat) : Eff Unit := do
  let addrHex ← lift (yyGetString params "addr")
  let type ← lift (yyGetInt64 params "type")
  let kbHex ← lift (yyGetString params "keybuffer")
  let sigHex ← lift (yyGetString params "sig")
  let addr ← lift (base16Decode addrHex)
  let u ← getAddressStateNoCreate Γ addr >>= orErr "execute_add_address_key: address not found"
  failIf (¬ isOwner u.val t.tx.pkEdBin) "sender is not an owner"
  let kb ← lift (base16Decode kbHex)
  checkKey type kb
  let sig ← lift (base16Decode sigHex)
  let ok ← lift (verify Γ { id := 0, type := toU8 type, keybuffer := kb } sig
    ("add_address_key:" ++ addrHex ++ ":" ++ kbHex))
  failIf (¬ ok) "sig: invalid"
  let id ← addKey u.ptr (toU8 type) kb >>= orErr "too many keys (max 5)"
  markDirty u.ptr
  emitCommand t seqId "add_address_key" (jsonObj [("addr", "\"" ++ addrHex ++ "\""), ("key_id", toString id)])

/-- `execute_remove_address_key`. -/
def executeRemoveAddressKey (Γ : Ctx) (params : Json) (t : TParams) (seqId : Nat) : Eff Unit := do
  let addrHex ← lift (yyGetString params "addr")
  let keyId ← lift (yyGetInt64 params "key_id")
  let addr ← lift (base16Decode addrHex)
  let u ← getAddressStateNoCreate Γ addr >>=
    orErr ("execute_remove_address_key: address not found " ++ base16Encode addr)
  failIf (¬ isOwner u.val t.tx.pkEdBin) "sender is not an owner"
  let id := (keyId % 2 ^ 64).toNat
  failIf (id ∉ u.val.keys) "key_id not found"
  failIf (u.val.keys.size ≤ 1) "cannot remove last key"
  assign u.ptr (.removeKey id)
  markDirty u.ptr
  emitCommand t seqId "remove_address_key" (jsonObj [("addr", "\"" ++ addrHex ++ "\""), ("key_id", toString keyId)])

/-- The keys of a new address, parsed and checked one by one. -/
def parseKeys : List Json → Eff (List (Nat × String))
  | [] => pure []
  | item :: items => do
    let type ← lift (yyGetInt64 item "type")
    let kbHex ← lift (yyGetString item "keybuffer")
    let kb ← lift (base16Decode kbHex)
    checkKey type kb
    let rest ← parseKeys items
    pure ((toU8 type, kb) :: rest)

/-- Add the keys of a new address. -/
def addKeys (u : DataPtr) : List (Nat × String) → Eff Unit
  | [] => pure ()
  | (type, kb) :: ks => do
    let _ ← addKey u type kb >>= orErr "addKey failed"
    addKeys u ks

/-- The elements of a JSON array; none for any other value. -/
def Json.elems? : Json → Option (List Json)
  | .arr xs => some xs
  | _ => none

/-- `execute_create_address`. -/
def executeCreateAddress (Γ : Ctx) (params : Json) (b : BParams) (t : TParams) (seqId : Nat) : Eff Unit := do
  let addrHex ← lift (yyGetString params "addr")
  let addr ← lift (base16Decode addrHex)
  failIf (addr.length ≠ 32) "addr: must be 32 bytes hex"
  failIf (← getAddressStateNoCreate Γ addr).isSome "address already exists"
  let items ← orErr "keys: must be array" ((params.objGet "keys").bind Json.elems?)
  failIf (items.length = 0 ∨ items.length > maxKeysPerAddress) "keys: 1..5 required"
  let parsed ← parseKeys items
  let u ← getAddressStateOrCreate Γ addr >>= orErr "create failed"
  addKeys u parsed
  markDirty u
  addGas b.fees.gasCreateAddress
  emitCommand t seqId "create_address"
    (jsonObj [("addr", "\"" ++ addrHex ++ "\""), ("keys", toString parsed.length)])

/-! ## Garbage collection

The `gc_*_apply` functions decide again, at the block's time, whether an item has expired; a text they return only counts the
item as skipped, an exception ends the command. They delete into `db_to_save_Z`. -/

/-- `gc_granule_apply`. -/
def gcGranuleApply (now : Int) (cc : Option (DataPtr × DataObj)) : Eff Unit := do
  let d ← orErr "not bc_contract_data" (castTo Payload.contractData? cc)
  failIf (d.obj.ttl ≤ 0) "ttl <= 0"
  failIf (wrap64 (d.obj.updateTime + d.obj.ttl) ≥ now) "not expired"
  deleteGranule d.ptr .saveZ

/-- Write a leaf if it is there, and mark it. -/
def writeIf {τ : Type} (ws : List Write) : Option (Leaf τ) → Eff Unit
  | none => pure ()
  | some d => do
    ws.forM (assign d.ptr)
    markDirty d.ptr

/-- Delete a leaf if it is there. -/
def deleteIf {τ : Type} : Option (Leaf τ) → Eff Unit
  | none => pure ()
  | some d => deleteGranule d.ptr .saveZ

/-- Take a contract out of the sets of its owners. -/
def eraseFromOwners (Γ : Ctx) (cn : String) (now : Int) : List String → Eff Unit
  | [] => pure ()
  | owner :: owners => do
    getAddressStateNoCreate Γ owner >>= writeIf [.eraseContract cn, .raiseUpdateTime now]
    eraseFromOwners Γ cn now owners

/-- The owners of a contract that may be missing. -/
def ownersOf : Option (Leaf BcContract) → List String
  | none => []
  | some c => c.val.owners.toList

/-- Burn a contract's balance and delete its leaf. -/
def burnContractBalance (Γ : Ctx) : Option (Leaf Int) → Eff Unit
  | none => pure ()
  | some bal => do
    doIf (bal.val > 0) (getStateNoCreate Γ >>= writeIf [.addTotalSupply (-bal.val)])
    deleteGranule bal.ptr .saveZ

/-- `gc_contract_apply`. -/
def gcContractApply (Γ : Ctx) (now : Int) (cc : Option (DataPtr × DataObj)) : Eff Unit := do
  let act ← orErr "not bc_contract_activity" (castTo Payload.contractActivity? cc)
  failIf (act.obj.updateTime ≥ now) "not expired"
  failIf (act.val = "") "empty name"
  let contract ← getContractNoCreate Γ act.val
  eraseFromOwners Γ act.val now (ownersOf contract)
  getContractBalanceNoCreate Γ act.val >>= burnContractBalance Γ
  deleteIf contract
  deleteGranule act.ptr .saveZ

/-- Return the stakes of a node that is collected; the sum of what was returned. -/
def returnStakes (Γ : Ctx) (name : String) (now : Int) : List (String × Int) → Int → Eff Int
  | [], total => pure total
  | (addr, amount) :: l, total =>
    if amount ≤ 0 then returnStakes Γ name now l total
    else do
      getAddressStateNoCreate Γ addr >>= writeIf [.addBalance amount, .eraseStakedIn name, .raiseUpdateTime now]
      returnStakes Γ name now l (wrap64 (total + amount))

/-- `gc_node_apply`. -/
def gcNodeApply (Γ : Ctx) (now : Int) (cc : Option (DataPtr × DataObj)) : Eff Unit := do
  let n ← orErr "not bc_node" (castTo Payload.node? cc)
  failIf (n.obj.ttl ≤ 0) "ttl <= 0"
  failIf (wrap64 (n.obj.updateTime + n.obj.ttl) ≥ now) "not expired"
  let total ← returnStakes Γ n.val.name now n.val.stakes.toList 0
  doIf (total > 0) (getStateNoCreate Γ >>= writeIf [.addTotalStake (-total)])
  getAddressStateNoCreate Γ n.val.ownerAddress >>= writeIf [.eraseOwnedNode n.val.name, .raiseUpdateTime now]
  getNodeListNoCreate Γ >>= writeIf [.removeNode n.val.name]
  getStateNoCreate Γ >>= writeIf [.addNodeCount (-1)]
  deleteGranule n.ptr .saveZ

/-- `gc_address_apply`: the balance is burnt and the keys go; the leaf stays. -/
def gcAddressApply (Γ : Ctx) (now : Int) (cc : Option (DataPtr × DataObj)) : Eff Unit := do
  let u ← orErr "not bc_address_state" (castTo Payload.address? cc)
  failIf (u.obj.ttl ≤ 0) "ttl <= 0"
  failIf (wrap64 (u.obj.updateTime + u.obj.ttl) ≥ now) "not expired"
  failIf (¬ u.val.contracts.isEmpty) "has contracts"
  failIf (¬ u.val.ownedNodes.isEmpty) "has owned_nodes"
  failIf (¬ u.val.stakedIn.isEmpty) "has staked_in"
  doIf (u.val.balance > 0) (getStateNoCreate Γ >>= writeIf [.addTotalSupply (-u.val.balance)])
  assign u.ptr .clearBalance
  assign u.ptr .clearKeys
  assign u.ptr (.raiseUpdateTime now)
  markDirty u.ptr

/-- The counts of `execute_gc`. -/
structure GcCounts where
  granule : Nat := 0
  contract : Nat := 0
  node : Nat := 0
  address : Nat := 0
  skipped : Nat := 0

/-- Count an item as skipped. -/
def GcCounts.skip (cnt : GcCounts) : GcCounts := { cnt with skipped := cnt.skipped + 1 }

/-- Run one of the `gc_*_apply` functions: a text it returns counts the item as skipped, an exception passes. -/
def gcTry (m : Eff Unit) (counted cnt : GcCounts) : Eff GcCounts :=
  Prog.handle (m >>= fun _ => pure counted) fun
    | .err _ => pure cnt.skip
    | .exn e => exn e

/-- Collect one leaf, by its constructor index. -/
def gcItem (Γ : Ctx) (now : Int) (cnt : GcCounts) (z : Store.Look) : Eff GcCounts :=
  match z.2, z.1 with
  | none, _ => pure cnt.skip
  | some d, .bcContractData => gcTry (gcGranuleApply now (some d)) { cnt with granule := cnt.granule + 1 } cnt
  | some d, .bcContractActivity => gcTry (gcContractApply Γ now (some d)) { cnt with contract := cnt.contract + 1 } cnt
  | some d, .bcNode => gcTry (gcNodeApply Γ now (some d)) { cnt with node := cnt.node + 1 } cnt
  | some d, .bcAddressState => gcTry (gcAddressApply Γ now (some d)) { cnt with address := cnt.address + 1 } cnt
  | _, _ => pure cnt.skip

/-- One item of `execute_gc`: the hexadecimal key of a leaf. -/
def gcKey (Γ : Ctx) (now : Int) (hex : String) (cnt : GcCounts) : Eff GcCounts := do
  let h ← lift (base16Decode hex)
  if h.length ≠ 32 then pure cnt.skip
  else do
    let r ← look (Γ.pathFromHash h)
    match r with
    | none => pure cnt.skip
    | some z => gcItem Γ now cnt z

/-- The loop of `execute_gc` over the items. -/
def gcItems (Γ : Ctx) (now : Int) : List Json → GcCounts → Eff GcCounts
  | [], cnt => pure cnt
  | .str hex :: items, cnt => do
    let cnt ← gcKey Γ now (cstr hex) cnt
    gcItems Γ now items cnt
  | _ :: items, cnt => gcItems Γ now items cnt.skip

/-- `execute_gc`. -/
def executeGc (Γ : Ctx) (params : Json) (t : TParams) (seqId : Nat) : Eff Unit := do
  let v ← getValuesNoCreate Γ >>= orErr "values not found"
  failIf (t.senderAddress ∉ v.val.emittersBin) "insufficient_privileges gc"
  let items ← orErr "param 'items' must be array" ((params.objGet "items").bind Json.elems?)
  let cnt ← gcItems Γ t.blockTimestamp items {}
  let count (n : Nat) := jsonObj [("count", toString n)]
  emitCommand t seqId "gc_granule" (count cnt.granule)
  emitCommand t seqId "gc_contract" (count cnt.contract)
  emitCommand t seqId "gc_node" (count cnt.node)
  emitCommand t seqId "gc_address" (count cnt.address)
  emitCommand t seqId "gc" (jsonObj
    [("applied", toString (cnt.granule + cnt.contract + cnt.node + cnt.address)), ("skipped", toString cnt.skipped)])

end Grain
