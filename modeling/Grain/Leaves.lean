import Grain.State

/-!
# Typed lookups of leaves

The part of `cells.cpp` above the paths: a leaf is looked up under its name and its payload is cast to the type asked for. A
`Leaf` is the pointer that the cast returns, with what it points to at that moment. `getNoCreate` is the common form of the
lookups that do not create, `createNew` and `getOrCreate` those of the ones that do.
-/

namespace Grain

open Eff

/-- A pointer to a payload of type `τ`, with the object and the payload as they are when the pointer is returned. -/
structure Leaf (τ : Type) where
  ptr : DataPtr
  obj : DataObj
  val : τ

namespace Payload

/-! The casts: `dynamic_cast` to each of the payload types. -/

def address? : Payload → Option BcAddressState
  | .addressState v => some v
  | _ => none

def contract? : Payload → Option BcContract
  | .contract v => some v
  | _ => none

def node? : Payload → Option BcNode
  | .node v => some v
  | _ => none

def nodelist? : Payload → Option (StdSet String)
  | .nodelist l => some l
  | _ => none

def values? : Payload → Option BcValues
  | .values v => some v
  | _ => none

def contractData? : Payload → Option String
  | .contractData c => some c
  | _ => none

def votes? : Payload → Option (StdMap String Vote)
  | .votes v => some v
  | _ => none

def contractBalance? : Payload → Option Int
  | .contractBalance a => some a
  | _ => none

def state? : Payload → Option BcState
  | .state v => some v
  | _ => none

def contractActivity? : Payload → Option String
  | .contractActivity n => some n
  | _ => none

end Payload

/-- `dynamic_cast` of the payload of a cell. -/
def castTo {τ : Type} (cast : Payload → Option τ) : Option (DataPtr × DataObj) → Option (Leaf τ)
  | none => none
  | some (d, o) => (cast o.payload).map fun v => ⟨d, o, v⟩

/-- The payload of the leaf under a name; null if the leaf is missing, has no payload or has one of another type. -/
def getNoCreate {τ : Type} (Γ : Ctx) (n : Name) (cast : Payload → Option τ) : Eff (Option (Leaf τ)) := do
  let r ← look (Γ.path n.text)
  pure (r.bind fun z => castTo cast z.2)

/-- `getAddressStatePath`: an empty address raises. -/
def checkAddr (addr : String) : Eff Unit := raiseIf (addr = "") "getAddressStatePath: empty addr"

def getAddressStateNoCreate (Γ : Ctx) (addr : String) : Eff (Option (Leaf BcAddressState)) := do
  checkAddr addr
  getNoCreate Γ (.addressState addr) Payload.address?

def getContractNoCreate (Γ : Ctx) (name : String) : Eff (Option (Leaf BcContract)) :=
  getNoCreate Γ (.contract name) Payload.contract?

def getContractDataNoCreate (Γ : Ctx) (con key : String) : Eff (Option (Leaf String)) :=
  getNoCreate Γ (.contractData con key) Payload.contractData?

def getContractBalanceNoCreate (Γ : Ctx) (contract : String) : Eff (Option (Leaf Int)) :=
  getNoCreate Γ (.contractBalance contract) Payload.contractBalance?

def getContractActivityNoCreate (Γ : Ctx) (name : String) : Eff (Option (Leaf String)) :=
  getNoCreate Γ (.contractActivity name) Payload.contractActivity?

def getNodeNoCreate (Γ : Ctx) (name : String) : Eff (Option (Leaf BcNode)) := getNoCreate Γ (.node name) Payload.node?

def getNodeListNoCreate (Γ : Ctx) : Eff (Option (Leaf (StdSet String))) := getNoCreate Γ .nodeList Payload.nodelist?

def getValuesNoCreate (Γ : Ctx) : Eff (Option (Leaf BcValues)) := getNoCreate Γ .values Payload.values?

def getVotesNoCreate (Γ : Ctx) : Eff (Option (Leaf (StdMap String Vote))) := getNoCreate Γ .votes Payload.votes?

def getStateNoCreate (Γ : Ctx) : Eff (Option (Leaf BcState)) := getNoCreate Γ .state Payload.state?

/-! ## Lookups that create -/

/-- `getAddressStateOrCreate`: a new leaf counts as an account in `bc_state`. -/
def getAddressStateOrCreate (Γ : Ctx) (addr : String) : Eff (Option DataPtr) := do
  checkAddr addr
  let (old, d, o) ← create (Γ.path (Name.addressState addr).text) { payload := .addressState {} }
  if old then pure ((castTo Payload.address? (some (d, o))).map (·.ptr))
  else do
    let st ← getStateNoCreate Γ >>= need
    assign st.ptr .incAccountCount
    setDirty st.ptr true
    pure (some d)

/-- A creating lookup for which a leaf that has a payload is an error. -/
def createNew (Γ : Ctx) (n : Name) (o : DataObj) : Eff DataPtr := do
  let (old, d, _) ← create (Γ.path n.text) o
  raiseIf (old = true) "if(cc->data.valid())"
  setDirty d true
  pure d

/-- `getContractOrCreate`. -/
def getContractOrCreate (Γ : Ctx) (name : String) : Eff DataPtr := createNew Γ (.contract name) { payload := .contract {} }

/-- `getContractDataOrCreate`. -/
def getContractDataOrCreate (Γ : Ctx) (con key : String) (ttl createTime : Int) : Eff DataPtr :=
  createNew Γ (.contractData con key) { updateTime := max createTime 0, ttl := ttl, payload := .contractData "" }

/-- A creating lookup that returns the payload of a leaf that has one, if it is of the type. -/
def getOrCreate {τ : Type} (Γ : Ctx) (n : Name) (o : DataObj) (cast : Payload → Option τ) : Eff (Option DataPtr) := do
  let (old, d, x) ← create (Γ.path n.text) o
  if old then pure ((castTo cast (some (d, x))).map (·.ptr))
  else do
    setDirty d true
    pure (some d)

/-- `getContractBalanceOrCreate`. -/
def getContractBalanceOrCreate (Γ : Ctx) (contract : String) : Eff (Option DataPtr) :=
  getOrCreate Γ (.contractBalance contract) { payload := .contractBalance 0 } Payload.contractBalance?

/-- `getContractActivityOrCreate`. -/
def getContractActivityOrCreate (Γ : Ctx) (name : String) : Eff (Option DataPtr) :=
  getOrCreate Γ (.contractActivity name) { payload := .contractActivity name } Payload.contractActivity?

/-- `addNode`. -/
def addNode (Γ : Ctx) (name : String) : Eff DataPtr := do
  let nl ← getNodeListNoCreate Γ >>= need
  raiseIf (name ∈ nl.val) "if(!nl->list.count(name))"
  assign nl.ptr (.insertNode name)
  setDirty nl.ptr true
  let (old, n, _) ← create (Γ.path (Name.node name).text) { payload := .node {} }
  raiseIf (old = true) "if(cc->data.valid())"
  let st ← getStateNoCreate Γ >>= need
  assign st.ptr (.addNodeCount 1)
  setDirty st.ptr true
  pure n

/-! ## Reading a payload again -/

/-- The address state a pointer points to. -/
def derefAddress (d : DataPtr) : Eff BcAddressState := do
  let o ← deref d
  pure (o.payload.address?.getD {})

/-- The node a pointer points to. -/
def derefNode (d : DataPtr) : Eff BcNode := do
  let o ← deref d
  pure (o.payload.node?.getD {})

end Grain
