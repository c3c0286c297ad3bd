import Grain.Contract

/-!
# The context opaque

Every contract has a JavaScript context with one untyped pointer, the opaque: `ContractContext::create__` sets it to the
`ContractContext`, the calls of the contract set it to a `CallContext`, and each function of the interface casts it to the type
it expects. Here this pointer is followed through everything that can happen between the C++ code and the contracts' code: what
code does is left open, at each point where the engine runs code it may call any function of the interface. Those functions let
no C++ exception out.
-/

namespace Grain

namespace Contexts

/-- The types the pointer is cast to. -/
inductive Kind
  | contractContext
  | callContext
  deriving DecidableEq

/-- An object the pointer can point to. -/
inductive Obj
  | contractContext
  | callContext (inView : Bool)
  deriving DecidableEq

/-- The type of an object. -/
def Obj.kind : Obj → Kind
  | .contractContext => .contractContext
  | .callContext _ => .callContext

/-- The functions of the interface, and the getters of `msg`. -/
inductive HostFn
  | registerMethod
  | registerView
  | createGranule
  | setGranule
  | getGranule
  | deleteGranule
  | emit
  | consumeValue
  | refundValue
  | remainingValue
  | msgGetter
  deriving DecidableEq

/-- The type a function casts the pointer to. `callMethod` and `callView` are apart: they cast it to `CallContext`. -/
def HostFn.kind : HostFn → Kind
  | .registerMethod | .registerView => .contractContext
  | _ => .callContext

/-- What the C++ code is in the middle of, with the values it will put back. -/
inductive Act
  /-- `load_contract` evaluates the top-level code with the object `n`. -/
  | load (c : String) (n : Nat)
  /-- The contract branch of `execute_tx_commands`, with `ext_ctx` and `prev_ctx`. -/
  | external (c : String) (k : Nat) (prev : Option Nat)
  /-- The reader's `CallViewREQ`. -/
  | viewRequest (c : String)
  /-- `jsi_callMethod` or `jsi_callView` of the contract `c`, before the callee's pointer is set to `self`. -/
  | calling (c d : String) (self : Nat)
  /-- The same, with the callee's pointer set and `prev` to be put back. -/
  | callFrom (d : String) (self : Nat) (prev : Option Nat)
  /-- `call_contract_method` or `call_contract_view`, with its context and `saved`. -/
  | frame (c : String) (k : Nat) (saved : Option Nat)
  /-- A result or an exception of the contract is read after the call: getters and `toString` may run. -/
  | read (c : String)

/-- The objects, the pointers, the cache of the host and the C++ stack, innermost first. -/
structure Machine where
  heap : Nat → Option Obj := fun _ => none
  made : Nat := 0
  slot : String → Option Nat := fun _ => none
  cached : String → Option Nat := fun _ => none
  stack : List Act := []

namespace Machine

/-- A new object. -/
def alloc (s : Machine) (o : Obj) : Machine :=
  { s with heap := fun m => if m = s.made then some o else s.heap m, made := s.made + 1 }

/-- An object is destroyed. -/
def free (s : Machine) (n : Nat) : Machine := { s with heap := fun m => if m = n then none else s.heap m }

/-- `JSI_SetContextOpaque`. -/
def setSlot (s : Machine) (c : String) (p : Option Nat) : Machine :=
  { s with slot := fun d => if d = c then p else s.slot d }

/-- Enter a contract in the cache, or take it out. -/
def setCached (s : Machine) (c : String) (p : Option Nat) : Machine :=
  { s with cached := fun d => if d = c then p else s.cached d }

/-- Replace the C++ stack. -/
def withStack (s : Machine) (l : List Act) : Machine := { s with stack := l }

/-- The contract whose code the engine may be running. -/
def running (s : Machine) : Option String :=
  match s.stack with
  | .load c _ :: _ => some c
  | .frame c _ _ :: _ => some c
  | .read c :: _ => some c
  | .calling c _ _ :: _ => some c
  | _ => none

/-- The frames of the call stack. -/
def frames (s : Machine) : Nat := (s.stack.filter fun a => match a with | .frame .. => true | _ => false).length

end Machine

/-- What can happen next. -/
inductive Action
  /-- `get_contract` of a contract that is not cached, and the end of its evaluation. -/
  | load (c : String)
  | loaded
  | loadFailed
  /-- The contract is taken out of the cache. -/
  | unload (c : String)
  /-- A command calls the contract; the reader is asked for a view. -/
  | execute (c : String)
  | callViewREQ (c : String)
  /-- `call_contract_method` or `call_contract_view` passes its checks, ends, or finds that the parameters do not convert. -/
  | enter (inView : Bool)
  | leave
  | abort
  /-- The code around the call puts the pointer back and reads the result; it is done with it. -/
  | back
  | endRead
  /-- The code calls a function of the interface; `callMethod` or `callView`, which goes on or gives up. -/
  | host (f : HostFn)
  | call (d : String)
  | enterCall
  | cancelCall

/-- One step; `none` where it cannot happen. -/
def step (a : Action) (s : Machine) : Option Machine :=
  match a, s.stack with
  | .load c, [] =>
    if s.cached c = none then some (((s.alloc .contractContext).setSlot c (some s.made)).withStack [.load c s.made]) else none
  | .load c, .calling b d self :: rest =>
    if s.cached c = none ∧ c = d then
      some (((s.alloc .contractContext).setSlot c (some s.made)).withStack (.load c s.made :: .calling b d self :: rest))
    else none
  | .loaded, .load c n :: rest => some ((s.setCached c (some n)).withStack rest)
  | .loadFailed, .load c n :: rest => some (((s.free n).setSlot c none).withStack rest)
  | .unload c, [] =>
    match s.cached c with
    | some n => some (((s.free n).setSlot c none).setCached c none)
    | none => none
  | .execute c, [] =>
    if (s.cached c).isSome then
      some (((s.alloc (.callContext false)).setSlot c (some s.made)).withStack [.external c s.made (s.slot c)])
    else none
  | .callViewREQ c, [] => if (s.cached c).isSome then some (s.withStack [.viewRequest c]) else none
  | .enter inView, top :: rest =>
    match top with
    | .external c _ _ | .callFrom c _ _ | .viewRequest c =>
      if s.frames < maxCallDepth then
        some (((s.alloc (.callContext inView)).setSlot c (some s.made)).withStack (.frame c s.made (s.slot c) :: top :: rest))
      else none
    | _ => none
  | .leave, .frame c k saved :: rest => some (((s.setSlot c saved).free k).withStack rest)
  | .abort, .frame c k saved :: rest => some (((s.setSlot c saved).free k).withStack rest)
  | .back, .external c k prev :: rest => some (((s.setSlot c prev).free k).withStack (.read c :: rest))
  | .back, .callFrom d _ prev :: rest => some ((s.setSlot d prev).withStack (.read d :: rest))
  | .back, .viewRequest c :: rest => some (s.withStack (.read c :: rest))
  | .endRead, .read _ :: rest => some (s.withStack rest)
  | .host _, _ => if s.running.isSome then some s else none
  | .call d, stack =>
    match s.running with
    | some c =>
      match s.slot c with
      | some p => if s.heap p = some (.callContext false) ∧ d ≠ c then some (s.withStack (.calling c d p :: stack)) else some s
      | none => some s
    | none => none
  | .enterCall, .calling _ d self :: rest =>
    if (s.cached d).isSome then some ((s.setSlot d (some self)).withStack (.callFrom d self (s.slot d) :: rest)) else none
  | .cancelCall, .calling _ _ _ :: rest => some (s.withStack rest)
  | _, _ => none

/-- A cast of a contract's pointer, if it is not null. -/
structure Cast where
  ptr : Nat
  kind : Kind

/-- The casts of a step: those of the functions of the interface, and the hand-over of the events to `saved` at the end of a
call. -/
def casts (a : Action) (s : Machine) : List Cast :=
  match a, s.stack with
  | .host f, _ => ((s.running.bind s.slot).map fun p => (⟨p, f.kind⟩ : Cast)).toList
  | .call _, _ => ((s.running.bind s.slot).map fun p => (⟨p, .callContext⟩ : Cast)).toList
  | .leave, .frame _ _ saved :: _ => (saved.map fun p => (⟨p, .callContext⟩ : Cast)).toList
  | _, _ => []

/-- The pointer points to an object of the type. -/
def Cast.Ok (s : Machine) (x : Cast) : Prop := (s.heap x.ptr).map Obj.kind = some x.kind

/-- A run of steps that meet a condition. -/
inductive Run (P : Action → Machine → Prop) : Machine → Prop
  | init : Run P {}
  | step {s s' : Machine} {a : Action} (h : Run P s) (hp : P a s) (hs : step a s = some s') : Run P s'

end Contexts

end Grain
