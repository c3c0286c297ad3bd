import Grain.Contract

/-!
# The frames of contract calls

`contract_call.cpp` with its bookkeeping: each contract has a runtime of its own with one interrupt handler and one context
pointer, each call has a frame (`CallContext`) and the calls of a command share a call stack. What the functions of the interface
answer and charge is given (`Calls`); that they let no C++ exception out is their catch clauses. The interrupt handler of a view
watches the clock only.

Beside the state the run keeps a record of what a reader of the code asks about: the points at which the engine looks for a
handler, the charges, and the returns of the two call functions with what they found and left.
-/

namespace Grain

/-- The interrupt handlers, with the frame whose context is their opaque. -/
inductive Handler
  | interruptHandler (frame : Nat)
  | viewInterruptHandler (frame : Nat)
  deriving DecidableEq

/-- The part of a contract's runtime and context that calls change. -/
structure Runtime where
  handler : Option Handler := none
  ctxOpaque : Option Nat := none
  deriving DecidableEq

/-- `CallFrame`, with the number of its `CallContext`. -/
structure Frame where
  ctx : Nat
  contract : String
  inView : Bool
  deriving DecidableEq

/-- The handler that a frame installs. -/
def Frame.handler (f : Frame) : Handler := if f.inView then .viewInterruptHandler f.ctx else .interruptHandler f.ctx

/-- What the record keeps. -/
inductive Event
  /-- The engine looks for a handler while a frame runs. -/
  | poll (frame : Frame) (handler : Option Handler) (gasUsed : Int)
  /-- A function of the interface charges gas. -/
  | charge (amount gasUsed : Int)
  /-- A call to a contract returns: its runtime and the stack, before the call and after it. -/
  | ret (contract : String) (rt : Runtime) (stack : List Frame) (rt' : Runtime) (stack' : List Frame)
  deriving DecidableEq

/-- The state of the calls of a command. -/
structure Engine where
  rt : String → Runtime := fun _ => {}
  stack : List Frame := []
  contexts : Nat := 0
  heap : String → Nat := fun _ => 0
  gasUsed : Int := 0
  events : List Event := []

/-- What the calls take from outside: the contracts that load, what the other functions of the interface answer and charge,
which parameters convert, the gas of an interrupt step and the limit. -/
structure Calls where
  src : String → Option String
  answer : HostCall → HostRes
  cost : HostCall → Int
  paramsOk : Json → Bool
  step : Int
  limit : Int

namespace Engine

/-- Add to the record. -/
def record (e : Engine) (ev : Event) : Engine := { e with events := e.events ++ [ev] }

/-- `JSI_SetInterruptHandler`. -/
def setInterruptHandler (e : Engine) (c : String) (h : Option Handler) : Engine :=
  { e with rt := fun d => if d = c then { e.rt c with handler := h } else e.rt d }

/-- `JSI_SetContextOpaque`. -/
def setContextOpaque (e : Engine) (c : String) (o : Option Nat) : Engine :=
  { e with rt := fun d => if d = c then { e.rt c with ctxOpaque := o } else e.rt d }

/-- The state of a contract's global objects. -/
def setHeap (e : Engine) (c : String) (h : Nat) : Engine := { e with heap := fun d => if d = c then h else e.heap d }

/-- `consume_gas`. -/
def consumeGas (e : Engine) (a : Int) : Engine := { e with gasUsed := wrap64 (e.gasUsed + a) }

/-- `call_stack.push_back` of a new frame, and its context. -/
def pushFrame (e : Engine) (c : String) (inView : Bool) : Engine :=
  { e with stack := e.stack ++ [⟨e.contexts, c, inView⟩], contexts := e.contexts + 1 }

/-- `call_stack.pop_back`. -/
def popFrame (e : Engine) : Engine := { e with stack := e.stack.dropLast }

end Engine

variable (Γ : Ctx) (C : Calls)

/-- A point at which the engine looks for the interrupt handler of the runtime; the answer says whether the code is stopped. -/
def pollInterrupt (f : Frame) (e : Engine) : Bool × Engine :=
  let h := (e.rt f.contract).handler
  let e := e.record (.poll f h e.gasUsed)
  match h with
  | some (.interruptHandler _) =>
    let e := e.consumeGas C.step
    (e.gasUsed > C.limit, e)
  | _ => (false, e)

/-- A function of the interface charges gas. -/
def chargeHost (h : HostCall) (e : Engine) : Engine := (e.record (.charge (C.cost h) e.gasUsed)).consumeGas (C.cost h)

/-- The code of a frame. -/
def runFrame (f : Frame) (host : HostCall → Engine → HostRes × Engine) : Script → Engine → HostRes × Engine
  | .done r heap, e => (.text r, e.setHeap f.contract heap)
  | .throw text heap, e => (.exception text, e.setHeap f.contract heap)
  | .step heap k, e =>
    let r := pollInterrupt C f e
    if r.1 then (.exception "interrupted", r.2.setHeap f.contract heap) else runFrame f host k r.2
  | .call heap h k, e =>
    let r := host h (e.setHeap f.contract heap)
    runFrame f host (k r.1 (r.2.heap f.contract)) r.2

/-- The interface inside a view. -/
def viewAnswer (h : HostCall) (e : Engine) : HostRes × Engine :=
  match h with
  | .callMethod .. => (.exception "callMethod is not allowed in view", e)
  | .callView .. => (.exception "callView is not allowed in view", e)
  | h => (C.answer h, e)

/-- The common part of `call_contract_method` and `call_contract_view`: the frame, the context and the handler are set, the
parameters are converted and the code is run; then the handler is taken out and the context and the stack are put back. -/
def enterFrame (contract : String) (inView : Bool) (params : Json) (script : Script)
    (host : Frame → HostCall → Engine → HostRes × Engine) (e : Engine) : HostRes × Engine :=
  let f : Frame := ⟨e.contexts, contract, inView⟩
  let saved := (e.rt contract).ctxOpaque
  let e := ((e.pushFrame contract inView).setContextOpaque contract (some f.ctx)).setInterruptHandler contract (some f.handler)
  let leave (e : Engine) : Engine := ((e.setInterruptHandler contract none).setContextOpaque contract saved).popFrame
  if C.paramsOk params then
    let r := runFrame C f (host f) script e
    (r.1, leave r.2)
  else (.exception "params", leave e)

/-- A return, in the record. -/
def recordReturn (contract : String) (e : Engine) (r : HostRes × Engine) : HostRes × Engine :=
  (r.1, r.2.record (.ret contract (e.rt contract) e.stack (r.2.rt contract) r.2.stack))

/-- `call_contract_view`, with `n` places left on the stack. -/
def callContractViewFrame (n : Nat) (contract src view : String) (params : Json) (e : Engine) : HostRes × Engine :=
  recordReturn contract e <|
    match n, Γ.view src (e.heap contract) view params with
    | 0, _ => (.exception "call stack too deep", e)
    | _, none => (.exception ("view not found: " ++ view), e)
    | _ + 1, some script => enterFrame C contract true params script (fun _ => viewAnswer C) e

/-- The part of `jsi_callMethod` and `jsi_callView` around the call: the context of the callee is set to the caller's and put
back. -/
def aroundCall (self : Frame) (contract name : String) (call : String → Engine → HostRes × Engine) (e : Engine) :
    HostRes × Engine :=
  if contract = "" ∨ name = "" then (.exception "", e)
  else if self.contract = contract then (.exception "call to self not allowed", e)
  else
    match C.src contract with
    | none => (.exception ("contract not found: " ++ contract), e)
    | some src =>
      let prev := (e.rt contract).ctxOpaque
      let r := call src (e.setContextOpaque contract (some self.ctx))
      (r.1, r.2.setContextOpaque contract prev)

/-- `call_contract_method`, with `n` places left on the stack. -/
def callContractMethodFrame : Nat → (contract src method : String) → Json → Engine → HostRes × Engine
  | 0, contract, _, _, _, e => recordReturn contract e (.exception "call stack too deep", e)
  | n + 1, contract, src, method, params, e =>
    recordReturn contract e <|
      match Γ.method src (e.heap contract) method params with
      | none => (.exception ("method not found: " ++ method), e)
      | some script => enterFrame C contract false params script (fun self h e =>
          match h with
          | .callMethod contract method params =>
            aroundCall C self contract method (fun src => callContractMethodFrame n contract src method params)
              (chargeHost C h e)
          | .callView contract view params =>
            aroundCall C self contract view (fun src => callContractViewFrame Γ C n contract src view params) e
          | h => (C.answer h, chargeHost C h e)) e

end Grain
