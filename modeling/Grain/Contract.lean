import Grain.TrExec

/-!
# The contract interface

The functions a contract's code can call (`contract_api.cpp`), the granule store behind them (`NodeGranuleIO`), and the calls
of methods and views (`contract_call.cpp`). The engine and the code it runs are outside: a method is a `Script` of calls to the
interface, and whatever it does with the answers is up to it. A C++ exception inside one of these functions becomes a
JavaScript exception, which the code may catch; a trap (`nullDeref`, `divByZero`) does not.
-/

namespace Grain

open Eff

/-- `MAX_CALL_DEPTH`. -/
def maxCallDepth : Nat := 64

/-- `MAX_GRANULE_SIZE`. -/
def maxGranuleSize : Nat := 10240

/-- The events a call has emitted: name and serialised value. -/
abbrev Events := List (String × String)

/-- The text of an exception as the code of a contract sees it. -/
def Exn.text : Exn → String
  | .commonError msg => msg
  | .invalidArgument => "stoull"
  | .outOfRange => "stoull"
  | .nullDeref => ""
  | .divByZero => ""

/-- The catch clauses of a function of the interface. -/
def hostTry (m : Eff HostRes) : Eff HostRes :=
  Prog.handle m fun
    | .err text => pure (.exception text)
    | .exn .nullDeref => exn .nullDeref
    | .exn .divByZero => exn .divByZero
    | .exn e => pure (.exception e.text)

/-! ## The granule store -/

/-- Raise the time of a contract's activity leaf, if it is there. -/
def raiseActivity (Γ : Ctx) (contract : String) (untilTime : Int) : Eff Unit :=
  getContractActivityNoCreate Γ contract >>= writeIf [.raiseUpdateTime untilTime]

/-- `NodeGranuleIO::createGranule`. -/
def ioCreateGranule (Γ : Ctx) (contract key value : String) (createTime ttl : Int) : Eff Unit := do
  failIf (← getContractDataNoCreate Γ contract key).isSome "create: leaf already exists"
  let dd ← getContractDataOrCreate Γ contract key ttl createTime
  assign dd (.setContainer value)
  raiseActivity Γ contract (wrap64 (createTime + ttl))

/-- `NodeGranuleIO::setGranule`: here the leaf is marked before it is written. -/
def ioSetGranule (Γ : Ctx) (contract key value : String) (now : Int) : Eff Unit := do
  let d ← getContractDataNoCreate Γ contract key >>= orErr "granule not exists"
  setDirty d.ptr true
  assign d.ptr (.setContainer value)
  assign d.ptr (.raiseUpdateTime now)
  raiseActivity Γ contract (wrap64 (now + d.obj.ttl))

/-- `NodeGranuleIO::addContractBalance`. -/
def ioAddContractBalance (Γ : Ctx) (c : String) (delta : Int) : Eff Unit := do
  let b ← getContractBalanceOrCreate Γ c >>= orErr "balance create failed"
  assign b (.addAmount delta)
  setDirty b true

/-- `NodeGranuleIO::getContractBalance`. -/
def ioGetContractBalance (Γ : Ctx) (c : String) : Eff (Option Int) := do
  let b ← getContractBalanceNoCreate Γ c
  pure (b.map (·.val))

/-! ## The functions of the interface -/

/-- The gas every call of the interface from a method costs. -/
def consumeCallGas (b : BParams) : Eff Unit := addGas (b.fees.gasPerCall + b.fees.gasPerHostcall)

/-- `jsi_createGranule`. -/
def jsiCreateGranule (Γ : Ctx) (b : BParams) (t : TParams) (self key : String) (value : Option String)
    (ttl : Option Int) : Eff HostRes := do
  consumeCallGas b
  failIf (key = "") ""
  let ttl ← orErr "createGranule: ttl must be int64" ttl
  failIf (ttl ≤ 0) "createGranule: ttl must be > 0 (no eternal granules)"
  failIf (ttl > maxGranuleTtl) "createGranule: ttl > MAX_TTL (10 years)"
  let gas ← ttlGas b.fees ttl
  failIf (← getContractDataNoCreate Γ self key).isSome ("createGranule: already exists: " ++ self ++ key)
  let s ← orErr ("createGranule(" ++ self ++ key ++ "): cannot serialize value") value
  failIf (s.length > maxGranuleSize) ("createGranule(" ++ self ++ key ++ "): value too large")
  ioCreateGranule Γ self key s t.blockTimestamp ttl
  addGas (b.fees.gasCreateBase + gas)
  pure .undefined

/-- `jsi_setGranule`. -/
def jsiSetGranule (Γ : Ctx) (b : BParams) (t : TParams) (self key : String) (value : Option String) : Eff HostRes := do
  consumeCallGas b
  failIf (key = "") ""
  let d ← getContractDataNoCreate Γ self key >>= orErr ("setGranule: not found: " ++ self ++ key)
  let ttl := d.obj.ttl
  failIf (ttl ≤ 0) "setGranule: no ttl (granule without ttl)"
  let gas ← ttlGas b.fees ttl
  let s ← orErr ("setGranule(" ++ self ++ key ++ "): cannot serialize value") value
  failIf (s.length > maxGranuleSize) ("setGranule(" ++ self ++ key ++ "): value too large")
  ioSetGranule Γ self key s t.blockTimestamp
  addGas gas
  pure .undefined

/-- `jsi_getGranule`; allowed in views. -/
def jsiGetGranule (Γ : Ctx) (self key : String) : Eff HostRes := do
  failIf (key = "") ""
  let d ← getContractDataNoCreate Γ self key
  pure ((d.map fun d => .text d.val).getD .undefined)

/-- `jsi_deleteGranule`: the granule is only remembered, and deleted at the end of the transaction. -/
def jsiDeleteGranule (Γ : Ctx) (b : BParams) (self key : String) : Eff HostRes := do
  consumeCallGas b
  failIf (key = "") ""
  let d ← getContractDataNoCreate Γ self key >>= orErr ("deleteGranule: not found: " ++ key)
  pend d.ptr
  pure .undefined

/-- `jsi_consumeValue`. -/
def jsiConsumeValue (Γ : Ctx) (b : BParams) (self : String) (amount : Option Int) : Eff HostRes := do
  consumeCallGas b
  let amount ← orErr "consumeValue: amount must be int64" amount
  failIf (amount < 0) "consumeValue: amount < 0"
  failIf (amount > (← value)) "consumeValue: insufficient value"
  addValue (-amount)
  ioAddContractBalance Γ self amount
  let _ ← ioGetContractBalance Γ self
  pure .undefined

/-- `jsi_refundValue`. -/
def jsiRefundValue (Γ : Ctx) (b : BParams) (self : String) (amount : Option Int) : Eff HostRes := do
  consumeCallGas b
  let amount ← orErr "refundValue: amount must be int64" amount
  failIf (amount < 0) "refundValue: amount < 0"
  let cur ← ioGetContractBalance Γ self >>= orErr "refundValue: insufficient contract balance"
  failIf (cur < amount) "refundValue: insufficient contract balance"
  ioAddContractBalance Γ self (-amount)
  addValue amount
  pure .undefined

/-- The getters of `msg`. -/
def jsiMsg (t : TParams) (caller : String) : Eff HostRes := do
  let value ← value
  let gasUsed ← gasUsed
  pure (.msg { sender := base16Encode t.senderAddress, value := value, gasLimit := t.gasLimitGas, gasUsed := gasUsed,
               blockTimestamp := t.blockTimestamp, nonce := t.nonce, chainId := t.chainId, txHash := t.tx.getHash,
               caller := caller })

/-- `get_contract`: from the cache, or loaded and compiled. -/
def getContract (Γ : Ctx) (name : String) : Eff (Option ContractContext) := do
  match ← cached name with
  | some cc => pure (some cc)
  | none =>
    match ← getContractNoCreate Γ name with
    | none => pure none
    | some con =>
      match Γ.load con.val.src with
      | none => pure none
      | some heap =>
        cache name { src := con.val.src, heap := heap }
        pure (some { src := con.val.src, heap := heap })

/-! ## Running code -/

/-- Keep the state of a contract's global objects. -/
def saveHeap (name src : String) (heap : Nat) : Eff Unit := cache name { src := src, heap := heap }

/-- The state of a contract's global objects, after what nested calls made of it. -/
def loadHeap (name : String) (heap : Nat) : Eff Nat := do
  let cc ← cached name
  pure ((cc.map (·.heap)).getD heap)

/-- Run the code of a contract. `host` answers its calls, with the events of nested calls; `interrupt` is the interrupt
handler and says whether the code is stopped. -/
def runScript (name src : String) (host : HostCall → Eff (HostRes × Events)) (interrupt : Eff Bool) :
    Script → Events → Eff (HostRes × Events)
  | .done r heap, ev => do
    saveHeap name src heap
    pure (.text r, ev)
  | .throw text heap, ev => do
    saveHeap name src heap
    pure (.exception text, ev)
  | .step heap k, ev => do
    if ← interrupt then
      saveHeap name src heap
      pure (.exception "interrupted", ev)
    else runScript name src host interrupt k ev
  | .call heap h k, ev => do
    saveHeap name src heap
    let (r, e) ← host h
    let heap ← loadHeap name heap
    runScript name src host interrupt (k r heap) (ev ++ e)

/-- `interrupt_handler`: with no handler installed in the contract's runtime nothing is charged. -/
def interruptHandler (b : BParams) (t : TParams) (name : String) : Eff Bool := do
  if ← handler name then
    addGas b.fees.gasPerJsiStep
    let gasUsed ← gasUsed
    pure (gasUsed > t.gasLimitGas)
  else pure false

/-- The interface inside a view. A function that may write asks the frame for `in_view` before it does anything, and throws;
a view has no message to read. -/
def viewHost (Γ : Ctx) (self : String) : HostCall → Eff (HostRes × Events)
  | .getGranule key => do
    let r ← hostTry (jsiGetGranule Γ self key)
    pure (r, [])
  | .remainingValue => pure (.int 0, [])
  | .msg => pure (.undefined, [])
  | h => pure (.exception (h.fn ++ " is not allowed in view"), [])

/-- `call_contract_view` with `n` frames left on the call stack; the caller gets the emits of the frame. Its interrupt handler
stops it by real time only. -/
def callContractView (Γ : Ctx) (n : Nat) (name : String) (cc : ContractContext) (view : String) (params : Json) :
    Eff (HostRes × Events) :=
  match n with
  | 0 => pure (.exception "call stack too deep", [])
  | _ + 1 =>
    match Γ.view cc.src cc.heap view params with
    | none => pure (.exception ("view not found: " ++ view), [])
    | some script => do
      setHandler name false
      runScript name cc.src (viewHost Γ name) (pure false) script []

/-- `jsi_callView`. -/
def jsiCallView (Γ : Ctx) (n : Nat) (self contract view : String) (params : Json) : Eff (HostRes × Events) := do
  failIf (contract = "" ∨ view = "") ""
  failIf (self = contract) "callView to self not allowed"
  let cc ← getContract Γ contract >>= orErr ("contract not found: " ++ contract)
  callContractView Γ n contract cc view params

/-- The checks of `jsi_callMethod` before the call. -/
def beforeCallMethod (Γ : Ctx) (b : BParams) (self contract method : String) : Eff ContractContext := do
  consumeCallGas b
  failIf (contract = "" ∨ method = "") ""
  failIf (self = contract) "callMethod to self not allowed"
  getContract Γ contract >>= orErr ("contract not found: " ++ contract)

/-- A call of the interface that emits nothing by itself. -/
def quiet (m : Eff HostRes) : Eff (HostRes × Events) := do
  let r ← hostTry m
  pure (r, [])

/-- The catch clauses of a function of the interface that calls into another contract. -/
def emitsTry (m : Eff (HostRes × Events)) : Eff (HostRes × Events) :=
  Prog.handle m fun
    | .err text => pure (.exception text, [])
    | .exn .nullDeref => exn .nullDeref
    | .exn .divByZero => exn .divByZero
    | .exn e => pure (.exception e.text, [])

/-- `jsi_emit`. -/
def jsiEmit (b : BParams) (name : String) (value : Option String) : Eff (HostRes × Events) := do
  let r ← hostTry do
    consumeCallGas b
    failIf (name = "") ""
    let s ← orErr ("emit(" ++ name ++ "): cannot serialize value") value
    pure (.text s)
  match r with
  | .text s => pure (.undefined, [(name, s)])
  | r => pure (r, [])

/-- The interface inside a method. `call` runs a method of another contract, `n` is the number of frames left for it. -/
def methodHost (Γ : Ctx) (b : BParams) (t : TParams) (n : Nat)
    (call : (name : String) → ContractContext → (method : String) → Json → (caller : String) → Eff (HostRes × Events))
    (self caller : String) : HostCall → Eff (HostRes × Events)
  | .createGranule key value ttl => quiet (jsiCreateGranule Γ b t self key value ttl)
  | .setGranule key value => quiet (jsiSetGranule Γ b t self key value)
  | .getGranule key => quiet (jsiGetGranule Γ self key)
  | .deleteGranule key => quiet (jsiDeleteGranule Γ b self key)
  | .emit name value => jsiEmit b name value
  | .consumeValue amount => quiet (jsiConsumeValue Γ b self amount)
  | .refundValue amount => quiet (jsiRefundValue Γ b self amount)
  | .remainingValue => quiet (do pure (.int (← value)))
  | .msg => quiet (jsiMsg t caller)
  | .callMethod contract method params => do
    let r ← Prog.handle (do pure (.ok (← beforeCallMethod Γ b self contract method))) fun
      | .err text => pure (.error text)
      | .exn .nullDeref => exn .nullDeref
      | .exn .divByZero => exn .divByZero
      | .exn e => pure (.error e.text)
    match (r : Except String ContractContext) with
    | .ok cc => call contract cc method params self
    | .error text => pure (.exception text, [])
  | .callView contract view params => emitsTry (jsiCallView Γ n self contract view params)

/-- `call_contract_method` with `n` frames left on the call stack. The interrupt handler is installed for the call and taken
out after it, whatever was there before. -/
def callContractMethod (Γ : Ctx) (b : BParams) (t : TParams) :
    Nat → (name : String) → ContractContext → (method : String) → Json → (caller : String) → Eff (HostRes × Events)
  | 0, _, _, _, _, _ => pure (.exception "call stack too deep", [])
  | n + 1, name, cc, method, params, caller =>
    match Γ.method cc.src cc.heap method params with
    | none => pure (.exception ("method not found: " ++ method), [])
    | some script => do
      setHandler name true
      let r ← runScript name cc.src (methodHost Γ b t n (callContractMethod Γ b t n) name caller)
        (interruptHandler b t name) script []
      setHandler name false
      pure r

/-- The emits of a command that called a contract. -/
def emitEvents (t : TParams) (seqId : Nat) : Events → Eff Unit
  | [] => pure ()
  | (name, value) :: ev => do
    emitCommand t seqId name value
    emitEvents t seqId ev

/-- The contract branch of `execute_tx_commands`. -/
def executeContractCall (Γ : Ctx) (b : BParams) (t : TParams) (seqId : Nat) (contract method : String) (params : Json) :
    Eff Unit := do
  let cc ← getContract Γ contract >>= orErr ("contract not found: " ++ contract)
  let (r, ev) ← callContractMethod Γ b t maxCallDepth contract cc method params ""
  match r with
  | .exception text =>
    err ("contract call failed: " ++ contract ++ "." ++ method ++ (if text = "" then "" else ": " ++ text))
  | _ => emitEvents t seqId ev

end Grain
