import Grain.Contract

/-!
# Transactions and blocks

`execute_tx_commands`, `execute_transaction` and `execute_block` of `nodeService.cpp`. A transaction runs its commands on the
live tree and is undone from the rollback log when it fails; a block runs its transactions one after the other and settles the
fees.
-/

namespace Grain

open Eff

/-! ## Commands -/

/-- The dispatch of a root command by its method name. -/
def executeRoot (Γ : Ctx) (b : BParams) (t : TParams) (index : Nat) (method : String) (params : Json) : Eff Unit :=
  match method with
  | "mint" => executeMint Γ params t index
  | "transfer" => executeTransfer Γ params t index
  | "node_create" => executeNodeCreate Γ params b t index
  | "node_update" => executeNodeUpdate Γ params b t index
  | "node_stake" => executeNodeStake Γ params b t index
  | "node_unstake" => executeUnstakeNode Γ params t index
  | "node_enable" => executeNodeEnable Γ params b t index
  | "node_disable" => executeNodeDisable Γ params b t index
  | "contract_deploy" => executeContractDeploy Γ params b t index
  | "contract_update" => executeContractUpdate Γ params t index
  | "vote" => executeVote Γ params b t index
  | "gc" => executeGc Γ params t index
  | "create_address" => executeCreateAddress Γ params b t index
  | "add_address_key" => executeAddAddressKey Γ params t index
  | "remove_address_key" => executeRemoveAddressKey Γ params t index
  | _ => err ("unhandled method '" ++ method ++ "' for root contract")

/-- A command of a transaction: contract, method and parameters. -/
structure Command where
  contract : String
  method : String
  params : Json

/-- Read one element of the command list. -/
def parseCommand (item : Json) : Except Stop Command :=
  match item.objGet "contract", item.objGet "method", item.objGet "params" with
  | none, _, _ => .error (.err "'contract' field required")
  | _, none, _ => .error (.err "'method' field required")
  | _, _, none => .error (.err "'params' field required")
  | some (.str c), some (.str m), some (.obj kvs) => .ok { contract := cstr c, method := cstr m, params := .obj kvs }
  | some (.str _), some (.str _), some _ => .error (.err "'params' must be object type")
  | some (.str _), some _, some _ => .error (.err "'method' must be string type")
  | some _, some _, some _ => .error (.err "'contract' must be string type")

/-- Run one command. -/
def executeCommand (Γ : Ctx) (b : BParams) (t : TParams) (index : Nat) (c : Command) : Eff Unit :=
  if c.contract = "root" then executeRoot Γ b t index c.method c.params
  else executeContractCall Γ b t index c.contract c.method c.params

/-- The loop of `execute_tx_commands`. -/
def executeCommands (Γ : Ctx) (b : BParams) (t : TParams) : List Json → Nat → Eff Unit
  | [], _ => pure ()
  | item :: items, index => do
    let c ← lift (parseCommand item)
    executeCommand Γ b t index c
    executeCommands Γ b t items (index + 1)

/-- `execute_tx_commands`. -/
def executeTxCommands (Γ : Ctx) (b : BParams) (t : TParams) (tx : Json) : Eff Unit := do
  let items ← orErr "command list must be json array" tx.elems?
  failIf ((← gasUsed) > t.gasLimitGas) "gas exceeds limit"
  executeCommands Γ b t items 0

/-! ## Gas and tokens -/

/-- The gas a token buys at a priority; the checks that both conversions make. -/
def gasPerToken (priority base : Int) : Except Stop Int :=
  if base ≤ 0 then .error (.err "gas_per_token must be > 0")
  else
    let g := (wrap64 (base * (100 - priority))).tdiv 100
    if g ≤ 0 then .error (.err "gas_per_token <= 0") else .ok g

/-- `token_2_gas`. -/
def token2Gas (tokens priority base : Int) : Except Stop Int :=
  if priority < 0 ∨ priority > 99 then .error (.err "priority must be 0..99")
  else if tokens < 0 then .error (.err "tokens must be >= 0")
  else do
    let g ← gasPerToken priority base
    if tokens * g > 2 ^ 63 - 1 then .error (.err "gasLimit overflow") else .ok (tokens * g)

/-- `gas_2_token`: rounded up, at least one token. -/
def gas2Token (gasUsed priority base : Int) : Except Stop Int :=
  if priority < 0 ∨ priority > 99 then .error (.err "priority must be 0..99")
  else if gasUsed < 0 then .error (.err "gasUsed must be >= 0")
  else do
    let g ← gasPerToken priority base
    .ok (max 1 ((wrap64 (gasUsed + g - 1)).tdiv g))

/-! ## Transactions -/

/-- `getNonce`. -/
def getNonce (doc : Option Json) : Except Stop Int :=
  match doc with
  | none => .error (.err "yyjson: !doc")
  | some root =>
    match root.objGet "nonce" with
    | none => .error (.err "yyjson: omitted nonce")
    | some (.str s) => .ok (atoll (cstr s))
    | some v => if v.isNum then .ok v.getSint else .error (.err "yyjson: nonce must be string or num")

/-- The `chainId` of a transaction, 0 if it has none. -/
def getChainId (root : Json) : Int :=
  match root.objGet "chainId" with
  | some (.str s) => atoll (cstr s)
  | some v => v.getSint
  | none => 0

/-- `emit_tx`. -/
def emitTx (tx : TX) (command body : String) : Eff Unit :=
  emit { txId := some tx.getHash, seqId := none, command := command, body := emitText body }

/-- The text of an error emit. -/
def errorBody (msg : String) : String := jsonText [("error", msg)]

/-- The three amounts of a transaction: value, gas limit in tokens, and priority. -/
structure Amounts where
  value : Int
  gasLimit : Int
  priority : Int

/-- Read the three amounts, in the order of the source. -/
def readAmounts (root : Json) : Except Stop Amounts := do
  let value ← yyGetInt64 root "value"
  let gasLimit ← yyGetInt64 root "gasLimit"
  let priority ← yyGetInt64 root "priority"
  .ok { value := value, gasLimit := gasLimit, priority := priority }

/-- Read the amounts; an error text is emitted here, besides being returned. -/
def readAmountsEmit (tx : TX) (root : Json) : Eff Amounts :=
  match readAmounts root with
  | .ok a => pure a
  | .error (.err msg) => do
    emitTx tx "error" (errorBody msg)
    err msg
  | .error e => .stop e

/-- `charge_gas`: take the tokens of the gas from the sender's leaf, through the pointer it was found under before the
commands ran. -/
def chargeGas (b : BParams) (uu : DataPtr) (priority gas : Int) : Eff Unit := do
  let spent ← lift (gas2Token gas priority b.fees.gasPerToken)
  assign uu (.addBalance (-spent))
  reward spent

/-- `fail`: undo the transaction, charge the gas, return the error. -/
def fail {α : Type} (b : BParams) (uu : DataPtr) (priority : Int) (msg : String) (gas : Int) : Eff α := do
  addGas ((← rollSize) * b.fees.gasPerByte)
  rollback
  chargeGas b uu priority gas
  err msg

/-- The deletions that the transaction's contracts asked for. -/
def deletePending : List DataPtr → Eff Unit
  | [] => pure ()
  | d :: ds => do
    deleteGranule d .dbDump
    deletePending ds

/-- Subtract in `int64_t`. -/
def sub64 (x y : Int) : Eff Int := do
  doIf (¬ InI64 (x - y)) overflow
  pure (wrap64 (x - y))

/-- Add in `int64_t`. -/
def add64 (x y : Int) : Eff Int := do
  doIf (¬ InI64 (x + y)) overflow
  pure (wrap64 (x + y))

/-- The end of a transaction whose commands succeeded and stayed within value and gas: deletions, hashing, the gas of the
written leaves, and the settlement with the sender. -/
def settle (b : BParams) (uu : DataPtr) (a : Amounts) (gasLimitGas : Int) : Eff Unit := do
  let ds ← pending
  deletePending ds
  calcTreeHash .dbDump
  addGas ((← dumpSize) * b.fees.gasPerByte)
  let gas ← gasUsed
  if gas > gasLimitGas then fail b uu a.priority "gas exceeds limit" gasLimitGas
  else do
    chargeGas b uu a.priority gas
    let spentValue ← sub64 a.value (← value)
    assign uu (.addBalance (-spentValue))
    calcTreeHash .dbDump
    mergeDump

/-- What follows the commands: `r` is what they returned. -/
def afterCommands (b : BParams) (uu : DataPtr) (a : Amounts) (gasLimitGas : Int) (r : Option String) : Eff Unit := do
  let gas ← gasUsed
  match r with
  | some msg => fail b uu a.priority msg gas
  | none =>
    if (← value) < 0 then fail b uu a.priority "value exceeds limit" gas
    else if gas > gasLimitGas then fail b uu a.priority "gas exceeds limit" gasLimitGas
    else settle b uu a gasLimitGas

/-- The error text a piece of code returns, or none; exceptions pass. -/
def catchErr (m : Eff Unit) : Eff (Option String) :=
  Prog.handle (m >>= fun _ => pure none) fun
    | .err msg => pure (some msg)
    | .exn e => exn e

/-- Code with the variables of a transaction: they go when it ends, in whatever way. -/
def inTx {α : Type} (m : Eff α) : Eff α :=
  Prog.handle (m >>= fun a => endTx >>= fun _ => pure a) fun e => endTx >>= fun _ => .stop e

/-- The body of `execute_transaction`. -/
def transaction (Γ : Ctx) (b : BParams) (senderAddress : String) (tx : TX) : Eff Unit := do
  let st ← getStateNoCreate Γ
  raiseIf st.isNone "if (!st.valid()) "
  let st ← need st
  assign st.ptr .incTxCount
  setDirty st.ptr false
  let root := (Γ.yyjsonRead tx.txBody).getD .null
  let jtx := root.objGet "tx"
  raiseIf jtx.isNone "if(!j_tx)"
  let jtx ← need jtx
  let a ← readAmountsEmit tx root
  let _ ← getValuesNoCreate Γ
  let gasLimitGas ← lift (token2Gas a.gasLimit a.priority b.fees.gasPerToken)
  beginTx a.value
  let nonce := match getNonce (Γ.yyjsonRead tx.txBody) with
    | .ok n => n
    | .error _ => 0
  let t : TParams := { senderAddress := senderAddress, tx := tx, gasLimitGas := gasLimitGas,
                       blockTimestamp := b.prevTimestamp, nonce := nonce, chainId := getChainId root }
  let uu ← getAddressStateNoCreate Γ senderAddress
  raiseIf uu.isNone "if(!uu.valid())"
  let uu ← need uu
  let reserve ← add64 a.gasLimit a.value
  failIf (uu.val.balance < reserve) "not enough funds to reserve gasLimit+value"
  calcTreeHash .saveZ
  let r ← catchErr (executeTxCommands Γ b t jtx)
  afterCommands b uu.ptr a gasLimitGas r

/-- `execute_transaction`. -/
def executeTransaction (Γ : Ctx) (b : BParams) (senderAddress : String) (tx : TX) : Eff Unit :=
  inTx (transaction Γ b senderAddress tx)

/-! ## Blocks -/

/-- The `sender` of a transaction, as `execute_block` reads it. -/
def senderHex (doc : Option Json) : String :=
  match doc.bind (Json.objGet "sender") with
  | some (.str s) => cstr s
  | _ => ""

/-- The `key_id` of a transaction, -1 if it has none. -/
def keyIdOf (doc : Option Json) : Int :=
  match doc.bind (Json.objGet "key_id") with
  | some v => if v.isNum then v.getSint else -1
  | none => -1

/-- The checks of the signature: the sender's address. -/
def checkSender (Γ : Ctx) (tx : TX) : Eff String := do
  let doc := Γ.yyjsonRead tx.txBody
  let hex := senderHex doc
  failIf (hex = "") "sender address not specified"
  let sender ← lift (base16Decode hex)
  let uu ← getAddressStateNoCreate Γ sender >>= orErr "sender address not found"
  let keyId := keyIdOf doc
  failIf (keyId < 0) "key_id required"
  let k ← orErr "key_id not found" uu.val.keys[keyId.toNat]?
  let ok ← lift (verify Γ k tx.sigEdBin tx.getHash)
  failIf (¬ ok) "verify failed"
  pure sender

/-- An error text that the code raises as an exception. -/
def raiseErr {α : Type} : Except Stop α → Except Stop α
  | .error (.err msg) => .error (.exn (.commonError msg))
  | r => r

/-- One turn of the loop of `execute_block`, up to the emit: the checks, the transaction, and the nonce of the sender's leaf,
through the pointer it was found under before the transaction. -/
def checkAndExecute (Γ : Ctx) (b : BParams) (tx : TX) : Eff Unit := do
  let sender ← checkSender Γ tx
  let u ← getAddressStateNoCreate Γ sender >>= orErr "sender invalid"
  let nonce ← lift (raiseErr (getNonce (Γ.yyjsonRead tx.txBody)))
  failIf (u.val.nonce ≠ nonce) "invalid nonce"
  let r ← catchErr (executeTransaction Γ b sender tx)
  assign u.ptr .incNonce
  setDirty u.ptr false
  match r with
  | some msg => err msg
  | none => pure ()

/-- One turn of the loop of `execute_block`. -/
def executeBlockTx (Γ : Ctx) (b : BParams) (tx : TX) : Eff Unit := do
  match ← catchErr (checkAndExecute Γ b tx) with
  | none => emitTx tx "result" "\x7b\"success\":true\x7d"
  | some msg => emitTx tx "error" (errorBody msg)

/-- The transactions of a block, in order. -/
def executeTxs (Γ : Ctx) (b : BParams) : List TX → Eff Unit
  | [] => pure ()
  | tx :: txs => do
    executeBlockTx Γ b tx
    executeTxs Γ b txs

/-- `proceed_merkle_on_transaction_pool_hashers`: the root hash, with the root cell filed for writing. -/
def proceedMerkle : Eff Hash := do
  calcTreeHash .saveZ
  saveRoot

/-- The full stakes of the validators; a validator that is no node raises. -/
def validatorStakes (Γ : Ctx) : List String → Eff (List Int)
  | [] => pure []
  | z :: zs => do
    let n ← getNodeNoCreate Γ z
    raiseIf n.isNone "if(!n.valid()) --@34"
    let n ← need n
    let rest ← validatorStakes Γ zs
    pure (n.val.getFullStake :: rest)

/-- `emit_block`. -/
def emitBlock (command body : String) : Eff Unit :=
  emit { txId := none, seqId := none, command := command, body := emitText body }

/-- The rewards of the validators, one after the other. The owner's leaf is marked also when it was not found. -/
def rewardValidators (Γ : Ctx) (rewards : Int) (stakes : List Int) : List String → Eff Unit
  | [] => pure ()
  | z :: zs => do
    let n ← getNodeNoCreate Γ z
    raiseIf n.isNone "if(!n.valid())00@@"
    let n ← need n
    let u ← getAddressStateNoCreate Γ n.val.ownerAddress >>= need
    assign u.ptr (.addBalance (Γ.rewardDelta u.val.balance n.val.getFullStake rewards stakes))
    setDirty u.ptr false
    emitBlock "reward" (jsonText [("node", z), ("fee", Γ.rewardText n.val.getFullStake rewards stakes)])
    rewardValidators Γ rewards stakes zs

/-- Look up the nodes of the given names. -/
def getNodes (Γ : Ctx) : List String → Eff (List (Option (Leaf BcNode)))
  | [] => pure []
  | z :: zs => do
    let n ← getNodeNoCreate Γ z
    let rest ← getNodes Γ zs
    pure (n :: rest)

/-- Look up every node of the list. -/
def getAllNodes (Γ : Ctx) : Eff (List (Option (Leaf BcNode))) := do
  let nl ← getNodeListNoCreate Γ
  raiseIf nl.isNone "if(!nl.valid())"
  let nl ← need nl
  getNodes Γ nl.val.toList

/-- `calc_fee_rewards_nodes`. -/
def calcFeeRewardsNodes (Γ : Ctx) (b : BParams) : Eff Unit := do
  let _ ← getAllNodes Γ
  let rewards ← rewards
  match b.prevValidators with
  | none => emitBlock "total_fee" (jsonText [("fee", toString rewards)])
  | some vs =>
    let stakes ← validatorStakes Γ vs
    rewardValidators Γ rewards stakes vs
    emitBlock "total_fee" (jsonText [("fee", toString rewards)])

/-- The start of `execute_block`. -/
def beginBlock (Γ : Ctx) (newEpoch : Int) : Eff Unit := do
  let st ← getStateNoCreate Γ >>= need
  assign st.ptr (.setBlockHeight newEpoch)
  setDirty st.ptr false

/-- The end of `execute_block`, after the transactions. -/
def endBlock (Γ : Ctx) (b : BParams) : Eff Hash := do
  let _ ← proceedMerkle
  calcFeeRewardsNodes Γ b
  proceedMerkle

/-- `execute_block`. -/
def executeBlock (Γ : Ctx) (b : BParams) (newEpoch : Int) (txs : List TX) : Eff Hash := do
  beginBlock Γ newEpoch
  executeTxs Γ b txs
  endBlock Γ b

end Grain
