import Grain.Execute

/-!
# The events of a block

What the commands of a block's transactions emit, apart from how it reaches the attachment data: a root command emits with
`emit_command`, the code of a contract with `emit`, in nested calls too. With it, the commands of a transaction that run to
their end, each with the state it starts in.
-/

namespace Grain

open Eff

/-! ## The entries of the attachment data -/

/-- The entry is a command's, of the transaction. -/
def Emit.ofCommands (hash : String) (e : Emit) : Bool := e.txId = some hash && e.seqId.isSome

/-- The entry is of one command of the transaction. -/
def Emit.ofCommand (hash : String) (index : Nat) (e : Emit) : Bool := e.txId = some hash && e.seqId = some index

/-- The entry that an operation adds. -/
def Op.emits : Op → List Emit
  | .emit e => [e]
  | _ => []

/-- The command-level entry that an operation adds. -/
def Op.commandEmit (o : Op) : List Emit := o.emits.filter fun e => e.seqId.isSome

/-- The command-level entries that a piece of code adds, in order. -/
def emitted (Γ : Ctx) {α : Type} (m : Eff α) (s : St) : List Emit := Prog.notes (exec Γ) Op.commandEmit m s

/-! ## The events of a contract -/

section Contract

variable (Γ : Ctx) (b : BParams) (t : TParams)

/-- The events of a script's run, in the order of its calls: `nested` are those of one call of the interface. -/
def scriptEvents (name src : String) (host : HostCall → Eff (HostRes × Events)) (interrupt : Eff Bool)
    (nested : HostCall → St → Events) : Script → St → Events
  | .done _ _, _ => []
  | .throw _ _, _ => []
  | .step _ k, s =>
    match runEff Γ interrupt s with
    | (.ok false, u) => scriptEvents name src host interrupt nested k u
    | _ => []
  | .call heap h k, s =>
    let s := (runEff Γ (saveHeap name src heap) s).2
    nested h s ++
      match runEff Γ (host h >>= fun x => loadHeap name heap >>= fun heap => pure (x.1, heap)) s with
      | (.ok (r, heap), u) => scriptEvents name src host interrupt nested (k r heap) u
      | _ => []

/-- The events of one call of the interface: that of an `emit` that is accepted, and those of a method that is called. -/
def hostEvents
    (call : (name : String) → ContractContext → (method : String) → Json → (caller : String) → St → Events)
    (self : String) : HostCall → St → Events
  | .emit name value, _ => if name = "" then [] else (value.map fun v => (name, v)).toList
  | .callMethod contract method params, s =>
    match runEff Γ (beforeCallMethod Γ b self contract method) s with
    | (.ok cc, u) => call contract cc method params self u
    | _ => []
  | _, _ => []

/-- The events of a method's run. -/
def methodEvents : Nat → (name : String) → ContractContext → (method : String) → Json → (caller : String) → St → Events
  | 0, _, _, _, _, _, _ => []
  | n + 1, name, cc, method, params, caller, s =>
    match Γ.method cc.src cc.heap method params with
    | none => []
    | some script =>
      scriptEvents Γ name cc.src (methodHost Γ b t n (callContractMethod Γ b t n) name caller) (interruptHandler b t name)
        (hostEvents Γ b (methodEvents n) name) script (runEff Γ (setHandler name true) s).2

/-- The events of a command that calls a contract. -/
def contractEvents (c : Command) (s : St) : Events :=
  match runEff Γ (getContract Γ c.contract) s with
  | (.ok (some cc), u) => methodEvents Γ b t maxCallDepth c.contract cc c.method c.params "" u
  | _ => []

end Contract

/-! ## The commands of a transaction -/

section Transaction

variable (Γ : Ctx) (b : BParams)

/-- A command, with the parameters of its transaction, its index and the state it starts in. -/
structure CommandRun where
  params : TParams
  index : Nat
  command : Command
  start : St

/-- What a command emits: name and text. -/
def CommandRun.events (x : CommandRun) : Events :=
  if x.command.contract = "root" then
    (emitted Γ (executeRoot Γ b x.params x.index x.command.method x.command.params) x.start).map fun e => (e.command, e.body)
  else (contractEvents Γ b x.params x.command x.start).map fun e => (e.1, emitText e.2)

/-- The commands that run to their end. -/
def completed (t : TParams) : List Json → Nat → St → List CommandRun
  | [], _, _ => []
  | item :: items, index, s =>
    match parseCommand item with
    | .error _ => []
    | .ok c =>
      match runEff Γ (executeCommand Γ b t index c) s with
      | (.error _, _) => []
      | (.ok _, u) => ⟨t, index, c, s⟩ :: completed t items (index + 1) u

/-- What `execute_transaction` has set up when it comes to the commands. -/
structure Begun where
  uu : DataPtr
  amounts : Amounts
  gasLimitGas : Int
  params : TParams
  jtx : Json

/-- `execute_transaction` up to the commands. -/
def beginTransaction (senderAddress : String) (tx : TX) : Eff Begun := do
  let st ← getStateNoCreate Γ
  raiseIf st.isNone "if (!st.valid()) "
  let st ← need st
  assign st.ptr .incTxCount
  setDirty st.ptr false
  let root := (Γ.yyjsonRead tx.txBody).getD .null
  let jtx := root.objGet "tx"
  raiseIf jtx.isNone "if(!j_tx)"
  let jtx ← need jtx
  let a ← readAmountsEmit tx root
  let _ ← getValuesNoCreate Γ
  let gasLimitGas ← lift (token2Gas a.gasLimit a.priority b.fees.gasPerToken)
  beginTx a.value
  let nonce := match getNonce (Γ.yyjsonRead tx.txBody) with
    | .ok n => n
    | .error _ => 0
  let t : TParams := { senderAddress := senderAddress, tx := tx, gasLimitGas := gasLimitGas,
                       blockTimestamp := b.prevTimestamp, nonce := nonce, chainId := getChainId root }
  let uu ← getAddressStateNoCreate Γ senderAddress
  raiseIf uu.isNone "if(!uu.valid())"
  let uu ← need uu
  let reserve ← add64 a.gasLimit a.value
  failIf (uu.val.balance < reserve) "not enough funds to reserve gasLimit+value"
  calcTreeHash .saveZ
  pure ⟨uu.ptr, a, gasLimitGas, t, jtx⟩

/-- The checks that `execute_block` makes of a transaction: the sender and its leaf. -/
def checkTx (tx : TX) : Eff (String × DataPtr) := do
  let sender ← checkSender Γ tx
  let u ← getAddressStateNoCreate Γ sender >>= orErr "sender invalid"
  let nonce ← lift (raiseErr (getNonce (Γ.yyjsonRead tx.txBody)))
  failIf (u.val.nonce ≠ nonce) "invalid nonce"
  pure (sender, u.ptr)

/-- The checks that `execute_tx_commands` makes before the commands: their list. -/
def beginCommands (t : TParams) (jtx : Json) : Eff (TParams × List Json) := do
  let items ← orErr "command list must be json array" jtx.elems?
  failIf ((← gasUsed) > t.gasLimitGas) "gas exceeds limit"
  pure (t, items)

/-- A transaction of a block up to its commands. -/
def reachCommands (tx : TX) : Eff (TParams × List Json) := do
  let (sender, _) ← checkTx Γ tx
  let x ← beginTransaction Γ b sender tx
  beginCommands x.params x.jtx

/-- The commands of a transaction that run to their end when it is executed from the state. -/
def completedBy (tx : TX) (s : St) : List CommandRun :=
  match runEff Γ (reachCommands Γ b tx) s with
  | (.ok (t, items), u) => completed Γ b t items 0 u
  | (.error _, _) => []

/-- What `execute_block` finds of a transaction: no error text, or one; or an exception, which ends the block. -/
def outcome (tx : TX) (s : St) : Except Stop (Option String) := (runEff Γ (catchErr (checkAndExecute Γ b tx)) s).1

end Transaction

end Grain
