import Grain.Lib.Prog
import Grain.Cells

/-!
# The state of block execution and its operations

`Ctx` gathers what the program takes from outside: the path hash, the signature schemes, the JSON parser, the size of a packed
cell and the JavaScript engine. `St` is everything that executing a block changes. The code is written over the operations
`Op`, one for each access it makes to the tree, to the transaction's variables (`t_params`), to the block's (`b_params`) and to
the contract cache; `exec` says what each does. The roll flag of an operation says whether the transaction's rollback log is
passed (`t.roll`) or not (`NULL`).
-/

namespace Grain

/-- A transaction as it arrives; its hash is that of the body followed by the public key, and collision-free: the
concatenation stands for it. -/
structure TX where
  txBody : String
  pkEdBin : String
  sigEdBin : String
  deriving DecidableEq

/-- `getHash`. -/
def TX.getHash (tx : TX) : String := tx.txBody ++ tx.pkEdBin

/-- `FeesSnapshot`. -/
structure FeesSnapshot where
  gasPerToken : Int := 1000
  gasPerByte : Int := 1
  gasPerJsiStep : Int := 10
  gasPerHostcall : Int := 500
  gasPerCall : Int := 1000
  minTxFee : Int := 1
  gasNodeCreate : Int := 10000
  gasNodeEnable : Int := 5000
  gasNodeStake : Int := 2000
  gasNodeUpdate : Int := 1000
  gasNodeDisable : Int := 5000
  gasContractDeploy : Int := 10000
  gasCreateBase : Int := 100
  ttlSecondsPerGas : Int := 86400
  gasCreateAddress : Int := 1000
  deriving DecidableEq

/-! ## Contract code -/

/-- The functions of the contract interface that a script can call, with their arguments: `none` stands for a value that
cannot be serialised, or that does not convert to `int64_t`. -/
inductive HostCall
  | createGranule (key : String) (value : Option String) (ttl : Option Int)
  | setGranule (key : String) (value : Option String)
  | getGranule (key : String)
  | deleteGranule (key : String)
  | emit (name : String) (value : Option String)
  | consumeValue (amount : Option Int)
  | refundValue (amount : Option Int)
  | remainingValue
  | msg
  | callMethod (contract method : String) (params : Json)
  | callView (contract view : String) (params : Json)

/-- The name under which `register_api` registers a function of the interface, or the object it is a getter of. -/
def HostCall.fn : HostCall → String
  | .createGranule .. => "createGranule"
  | .setGranule .. => "setGranule"
  | .getGranule .. => "getGranule"
  | .deleteGranule .. => "deleteGranule"
  | .emit .. => "emit"
  | .consumeValue .. => "consumeValue"
  | .refundValue .. => "refundValue"
  | .remainingValue => "remainingValue"
  | .msg => "msg"
  | .callMethod .. => "callMethod"
  | .callView .. => "callView"

/-- What `msg` shows of the transaction. -/
structure Msg where
  sender : String
  value : Int
  gasLimit : Int
  gasUsed : Int
  blockTimestamp : Int
  nonce : Int
  chainId : Int
  txHash : String
  caller : String

/-- What a script gets back from a call: a value, or an exception it may catch. -/
inductive HostRes
  | undefined
  | text (s : String)
  | int (n : Int)
  | msg (m : Msg)
  | exception (text : String)

/-- The behaviour of a method's code, as the engine runs it: it ends, it throws, it reaches the point where the engine calls
the interrupt handler, or it calls a function of the interface and goes on with the answer. `heap` is the state of the
contract's global objects at that point; after a call the code sees what a nested call made of them. -/
inductive Script
  | done (result : String) (heap : Nat)
  | throw (text : String) (heap : Nat)
  | step (heap : Nat) (k : Script)
  | call (heap : Nat) (h : HostCall) (k : HostRes → Nat → Script)

/-- `ContractContext`: a contract in the cache, with the source it was compiled from. -/
structure ContractContext where
  src : String
  heap : Nat
  deriving DecidableEq

/-- What the program takes from outside. `path` is the blake2b digest of a name cut into five identifiers; it is
collision-free. -/
structure Ctx where
  path : String → Path
  path_length : ∀ n, (path n).length = 5
  path_inj : Function.Injective path
  /-- The identifiers on the path to a 32-byte key. -/
  pathFromHash : String → Path
  pathFromHash_length : ∀ h, (pathFromHash h).length = 5
  packedSize : Packed → Nat
  /-- `yyjson_read`. -/
  yyjsonRead : String → Option Json
  /-- `crypto_sign_verify_detached`. -/
  edVerify : (pk sig msg : String) → Bool
  /-- `ECDSA_do_verify` on one of the two curves. -/
  ecdsaVerify : (type : Nat) → (pk sig msg : String) → Bool
  /-- `blst_p1_uncompress` of 48 bytes. -/
  blsPkOk : String → Bool
  /-- What `u->balance += portion` adds to a balance, `portion` being the floating point share of a node in the rewards. -/
  rewardDelta : (balance stake rewards : Int) → (stakes : List Int) → Int
  /-- The text of that share. -/
  rewardText : (stake rewards : Int) → (stakes : List Int) → String
  /-- Compile and evaluate a contract's source: the state of its global objects. -/
  load : (src : String) → Option Nat
  /-- The code of a registered method, run on its parameters. -/
  method : (src : String) → (heap : Nat) → (name : String) → (params : Json) → Option Script
  /-- The code of a registered view. -/
  view : (src : String) → (heap : Nat) → (name : String) → (params : Json) → Option Script

/-! ## State -/

/-- An entry of the block's attachment data: of the block, of a transaction, or of a command of it. -/
structure Emit where
  txId : Option String
  seqId : Option Nat
  command : String
  body : String
  deriving DecidableEq

/-- What the lookups ask of the rest of the node: to drop the tree, and to fetch granules from other nodes. -/
structure Sync where
  clearRoot : Bool := false
  out : StdSet Path := ∅
  empty : Bool := true

/-- A granule that does not have its recorded hash is asked for. -/
def Sync.request (y : Sync) (p : Path) : Sync := { clearRoot := true, out := y.out.insert p, empty := false }

/-- The state of block execution. -/
structure St where
  store : Store := {}
  sync : Sync := {}
  /-- `t.value`, `t.gasUsed`, `deleted_granules` and `db_dump` of the transaction being executed. -/
  value : Int := 0
  gasUsed : Int := 0
  deletedGranules : List DataPtr := []
  dbDump : DbToSave := {}
  dbToSaveZ : DbToSave := {}
  nodeRewards : Int := 0
  emits : List Emit := []
  contractCache : StdMap String ContractContext := ∅
  /-- The contracts whose runtime has the gas interrupt handler installed. -/
  handlers : StdSet String := ∅
  /-- Set once an `int64_t` sum of token amounts has left its range. -/
  overflow : Bool := false

/-- Which collection of writes an operation adds to: `db_to_save_Z` or the transaction's `db_dump`. -/
inductive Dump
  | saveZ
  | dbDump
  deriving DecidableEq

/-- The accesses of the code to the state. -/
inductive Op
  | look (p : Path)
  | create (p : Path) (o : DataObj)
  | replaceLeaf (p : Path) (b : Packed)
  | deref (d : DataPtr)
  | assign (d : DataPtr) (w : Write)
  | setDirty (d : DataPtr) (roll : Bool)
  | deleteGranule (d : DataPtr) (dump : Dump)
  | calcTreeHash (dump : Dump)
  | rollback
  | beginTx (value : Int)
  | endTx
  | value
  | addValue (a : Int)
  | gasUsed
  | addGas (a : Int)
  | pend (d : DataPtr)
  | pending
  | dumpSize
  | rollSize
  | mergeDump
  | saveRoot
  | emit (e : Emit)
  | reward (a : Int)
  | rewards
  | overflow
  | cached (name : String)
  | cache (name : String) (c : ContractContext)
  | uncache (name : String)
  | setHandler (name : String) (on : Bool)
  | handler (name : String)

/-- The answer to an operation. -/
abbrev Resp : Op → Type
  | .look _ => Except Stop (Option Store.Look)
  | .create _ _ => Except Stop (Bool × DataPtr × DataObj)
  | .replaceLeaf _ _ => Except Stop Unit
  | .deref _ => DataObj
  | .assign _ _ => Except Stop Unit
  | .rollback => Except Stop Unit
  | .value => Int
  | .gasUsed => Int
  | .pending => List DataPtr
  | .dumpSize => Nat
  | .rollSize => Nat
  | .saveRoot => Hash
  | .rewards => Int
  | .cached _ => Option ContractContext
  | .handler _ => Bool
  | _ => Unit

/-- The exception of a lookup, with the granule it asks for entered. -/
def St.lookup {α : Type} (s : St) (r : Except Fault α) : Except Stop α × St :=
  match r with
  | .ok a => (.ok a, s)
  | .error e => (.error e.stop, { s with sync := (e.resync.map s.sync.request).getD s.sync })

/-- Run one of the two collections through a change of the store. -/
def St.withDump (s : St) (dump : Dump) (f : Store × DbToSave → Store × DbToSave) : St :=
  match dump with
  | .saveZ => let r := f (s.store, s.dbToSaveZ); { s with store := r.1, dbToSaveZ := r.2 }
  | .dbDump => let r := f (s.store, s.dbDump); { s with store := r.1, dbDump := r.2 }

/-- Without the variables of a transaction (`t_params` and the dump). -/
def St.endTx (s : St) : St :=
  { s with store := { s.store with roll := [] }, value := 0, gasUsed := 0, deletedGranules := [], dbDump := {} }

/-- The levels of the tree: the root and five below it. -/
def treeLevels : Nat := 6

/-- What each operation answers and does. -/
def exec (Γ : Ctx) : (o : Op) → St → Resp o × St
  | .look p, s => s.lookup (s.store.look p)
  | .create p o, s => let r := s.store.create p o; { s with store := r.2 }.lookup r.1
  | .replaceLeaf p b, s => let r := s.store.replaceLeaf p b; { s with store := r.2 }.lookup r.1
  | .deref d, s => (s.store.deref d, s)
  | .assign d w, s =>
    if w.raises (s.store.deref d) then (.error (.exn (.commonError "i128: overflow")), s)
    else (.ok (), { s with
      store := s.store.setObj d (w.apply (s.store.deref d))
      overflow := s.overflow || w.overflows (s.store.deref d) })
  | .setDirty d roll, s => ((), { s with store := s.store.setDirty roll d.parent })
  | .deleteGranule d dump, s => ((), s.withDump dump fun x => x.1.deleteGranule d true x.2)
  | .calcTreeHash dump, s => ((), s.withDump dump (Store.calcTreeHash treeLevels []))
  | .rollback, s => let r := s.store.rollback; (r.1, { s with store := r.2 })
  | .beginTx value, s => ((), { s.endTx with value := value })
  | .endTx, s => ((), s.endTx)
  | .value, s => (s.value, s)
  | .addValue a, s => ((), { s with value := wrap64 (s.value + a), overflow := s.overflow || ¬ InI64 (s.value + a) })
  | .gasUsed, s => (s.gasUsed, s)
  | .addGas a, s => ((), { s with gasUsed := wrap64 (s.gasUsed + a) })
  | .pend d, s => ((), { s with deletedGranules := if d ∈ s.deletedGranules then s.deletedGranules
                                                   else s.deletedGranules ++ [d] })
  | .pending, s => (s.deletedGranules, s)
  | .dumpSize, s => (s.dbDump.sizeLeaves Γ.packedSize, s)
  | .rollSize, s => (s.store.roll.foldl (fun n z => n + Γ.packedSize z.2) 0, s)
  | .mergeDump, s => ((), { s with dbToSaveZ := s.dbToSaveZ.merge s.dbDump })
  | .saveRoot, s => ((s.store.pack []).hash, { s with dbToSaveZ := s.dbToSaveZ.add [] (s.store.pack []) })
  | .emit e, s => ((), { s with emits := s.emits ++ [e] })
  | .reward a, s =>
    ((), { s with nodeRewards := wrap64 (s.nodeRewards + a), overflow := s.overflow || ¬ InI64 (s.nodeRewards + a) })
  | .rewards, s => (s.nodeRewards, s)
  | .overflow, s => ((), { s with overflow := true })
  | .cached name, s => (s.contractCache[name]?, s)
  | .cache name c, s => ((), { s with contractCache := s.contractCache.insert name c })
  | .uncache name, s => ((), { s with contractCache := s.contractCache.erase name })
  | .setHandler name on, s =>
    ((), { s with handlers := if on then s.handlers.insert name else s.handlers.erase name })
  | .handler name, s => (s.handlers.contains name, s)

/-- The code of the program: it may stop with an error text or an exception. -/
abbrev Eff := Prog Op Resp Stop

/-- The run of a piece of code. -/
def runEff (Γ : Ctx) {α : Type} (m : Eff α) (s : St) : Except Stop α × St := m.run (exec Γ) s

/-! ## The accesses as code -/

namespace Eff

/-- Return an error text to the caller. -/
def err {α : Type} (msg : String) : Eff α := .stop (.err msg)

/-- Raise an exception. -/
def exn {α : Type} (e : Exn) : Eff α := .stop (.exn e)

/-- Raise `CommonError`. -/
def commonError {α : Type} (msg : String) : Eff α := .stop (.exn (.commonError msg))

/-- Return an error text if the condition holds. -/
def failIf (c : Prop) [Decidable c] (msg : String) : Eff Unit := if c then err msg else .ret ()

/-- Raise `CommonError` if the condition holds. -/
def raiseIf (c : Prop) [Decidable c] (msg : String) : Eff Unit := if c then commonError msg else .ret ()

/-- Code that runs only if the condition holds. -/
def doIf (c : Prop) [Decidable c] (m : Eff Unit) : Eff Unit := if c then m else .ret ()

/-- A pure step that may stop. -/
def lift {α : Type} (x : Except Stop α) : Eff α := Prog.ofExcept x

/-- The integer quotient of C++: it truncates, and a zero divisor traps. -/
def quot (a b : Int) : Eff Int := if b = 0 then exn .divByZero else .ret (a.tdiv b)

/-- Use a pointer that may be null. -/
def need {α : Type} : Option α → Eff α
  | some a => .ret a
  | none => exn .nullDeref

/-- Use a pointer that may be null, returning an error text if it is. -/
def orErr {α : Type} (msg : String) : Option α → Eff α
  | some a => .ret a
  | none => err msg

/-- Ask for an operation. -/
def op (o : Op) : Eff (Resp o) := Prog.ask o

def look (p : Path) : Eff (Option Store.Look) := op (Op.look p) >>= Prog.ofExcept
def create (p : Path) (o : DataObj) : Eff (Bool × DataPtr × DataObj) := op (Op.create p o) >>= Prog.ofExcept
def deref (d : DataPtr) : Eff DataObj := op (Op.deref d)
def assign (d : DataPtr) (w : Write) : Eff Unit := op (Op.assign d w) >>= Prog.ofExcept
def setDirty (d : DataPtr) (roll : Bool) : Eff Unit := op (Op.setDirty d roll)
def deleteGranule (d : DataPtr) (dump : Dump) : Eff Unit := op (Op.deleteGranule d dump)
def value : Eff Int := op Op.value
def addValue (a : Int) : Eff Unit := op (Op.addValue a)
def addGas (a : Int) : Eff Unit := op (Op.addGas a)

def emit (e : Emit) : Eff Unit := op (Op.emit e)
def calcTreeHash (dump : Dump) : Eff Unit := op (Op.calcTreeHash dump)
def rollback : Eff Unit := op Op.rollback >>= Prog.ofExcept
def beginTx (value : Int) : Eff Unit := op (Op.beginTx value)
def endTx : Eff Unit := op Op.endTx
def gasUsed : Eff Int := op Op.gasUsed
def pend (d : DataPtr) : Eff Unit := op (Op.pend d)
def pending : Eff (List DataPtr) := op Op.pending
def dumpSize : Eff Nat := op Op.dumpSize
def rollSize : Eff Nat := op Op.rollSize
def mergeDump : Eff Unit := op Op.mergeDump
def saveRoot : Eff Hash := op Op.saveRoot
def reward (a : Int) : Eff Unit := op (Op.reward a)
def rewards : Eff Int := op Op.rewards
def overflow : Eff Unit := op Op.overflow
def cached (name : String) : Eff (Option ContractContext) := op (Op.cached name)
def cache (name : String) (cc : ContractContext) : Eff Unit := op (Op.cache name cc)
def uncache (name : String) : Eff Unit := op (Op.uncache name)
def setHandler (name : String) (on : Bool) : Eff Unit := op (Op.setHandler name on)
def handler (name : String) : Eff Bool := op (Op.handler name)

/-- `t.markDirty`. -/
def markDirty (d : DataPtr) : Eff Unit := setDirty d true

end Eff

end Grain
