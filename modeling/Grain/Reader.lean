import Grain.Contract

/-!
# The reader service

`GrainReader` answers clients from a tree of its own over the node's database. The tree is only read: a root object holds the
cells that it has loaded, by their paths, and loads the others when a lookup comes to them. `InvalidateRoot` makes a new root
object and releases the old one; the contracts of `contractHost` stay in the cache with the source and the root they were loaded
with, the latter as a plain pointer.
-/

namespace Grain

/-- The cells below a `Cellable` root that are in memory, by their paths; the root itself is under the empty path. -/
structure ReadTree where
  cells : Path → Option Packed

namespace ReadTree

/-- Enter a cell. -/
def insert (r : ReadTree) (p : Path) (b : Packed) : ReadTree where
  cells q := if q = p then some b else r.cells q

/-- A new cell without content, as the root. -/
def empty : ReadTree where
  cells p := if p = [] then some {} else none

/-- The cell at a path. -/
def cell (r : ReadTree) (p : Path) : Packed := (r.cells p).getD {}

/-- `replaceLeafNoCreate`: the child in memory; else, if the cell has a hash for it, the child in the database, which is kept. One
that is missing there is kept as a cell without content. -/
def replaceLeafNoCreate (db : StdMap Path Packed) (r : ReadTree) (p : Path) (id : Nat) :
    Except Stop (Option Path) × ReadTree :=
  if (r.cells (p ++ [id])).isSome then (.ok (some (p ++ [id])), r)
  else
    match (r.cell p).hashes[id]? with
    | none => (.ok none, r)
    | some h =>
      match db[p ++ [id]]? with
      | none => (.ok (some (p ++ [id])), r.insert (p ++ [id]) {})
      | some b =>
        if b.hash = h then
          if Loadable b then (.ok (some (p ++ [id])), r.insert (p ++ [id]) b)
          else (.error (.exn (.commonError "!if(payload_ctor_idx<hsh::HSH_END)")), r)
        else (.error (.exn (.commonError "getGranule: cell hash not matched")), r)

/-- `getByPathNoCreate`, from the cell at `p`. -/
def getByPathNoCreate (db : StdMap Path Packed) : (ids p : Path) → ReadTree → Except Stop (Option Path) × ReadTree
  | [], p, r => (.ok (some p), r)
  | id :: ids, p, r =>
    match r.replaceLeafNoCreate db p id with
    | (.ok (some q), r) => getByPathNoCreate db ids q r
    | (.ok none, r) => (.ok none, r)
    | (.error e, r) => (.error e, r)

/-- The payload of the leaf under a name, if it has one and it is of the type of the cast. -/
def getNoCreate {τ : Type} (Γ : Ctx) (db : StdMap Path Packed) (n : Name) (cast : Payload → Option τ) (r : ReadTree) :
    Except Stop (Option (DataObj × τ)) × ReadTree :=
  match getByPathNoCreate db (Γ.path n.text) [] r with
  | (.ok (some p), r) => (.ok ((r.cell p).data.bind fun o => (cast o.payload).map (o, ·)), r)
  | (.ok none, r) => (.ok none, r)
  | (.error e, r) => (.error e, r)

end ReadTree

/-- `getRoot`: the root granule, if the last block has its hash or there is no last block; else a root without content. -/
def getRoot (db : StdMap Path Packed) (lastBlock : Option Hash) : Except Stop ReadTree :=
  match db[([] : Path)]? with
  | none => .ok .empty
  | some b =>
    if lastBlock.all (· = b.hash) then
      if Loadable b then .ok (ReadTree.empty.insert [] b)
      else .error (.exn (.commonError "!if(payload_ctor_idx<hsh::HSH_END)"))
    else .ok .empty

/-- A context of the reader's cache: `root` is the number of the root object that it points to. -/
structure ReaderContext extends ContractContext where
  root : Nat

/-- `GrainReader::Service` with the database it shares with the node: `lastBlock` is the root hash of the block stored as the
last one. Root objects are numbered in the order they are made; one that was released is no longer in `roots`. -/
structure GrainReader where
  db : StdMap Path Packed := ∅
  lastBlock : Option Hash := none
  roots : Nat → Option ReadTree := fun _ => none
  made : Nat := 0
  root : Option Nat := none
  contractCache : StdMap String ReaderContext := ∅

/-- What a client asks for, of the requests that read contracts. `points` is the number of interrupt points that a view passes
before its time is over. -/
inductive ClientMsg
  | getContractDataREQ (contract key : String)
  | getContractREQ (contract : String)
  | callViewREQ (contract view paramsJson : String) (points : Nat)

/-- The answers. -/
inductive ClientReply
  | getContractDataRSP (value : Option String)
  | getContractRSP (found : Option (BcContract × Int × Int))
  | callViewRSP (found error : Bool) (resultJson : String)
  deriving DecidableEq

namespace GrainReader

/-- Use a root object; one that was released is not memory that may be used any more. -/
def within {α : Type} (s : GrainReader) (n : Nat) (f : ReadTree → Except Stop α × ReadTree) : Except Stop α × GrainReader :=
  match s.roots n with
  | none => (.error (.exn .nullDeref), s)
  | some r => ((f r).1, { s with roots := fun m => if m = n then some (f r).2 else s.roots m })

/-- `NodeGranuleIO::getGranule`. -/
def getGranule (Γ : Ctx) (s : GrainReader) (n : Nat) (contract key : String) : Except Stop (Option String) × GrainReader :=
  let x := s.within n (ReadTree.getNoCreate Γ s.db (.contractData contract key) Payload.contractData?)
  (x.1.map (·.map (·.2)), x.2)

/-- `NodeContractSourceIO::load`. -/
def loadSource (Γ : Ctx) (s : GrainReader) (n : Nat) (name : String) : Except Stop (Option String) × GrainReader :=
  let x := s.within n (ReadTree.getNoCreate Γ s.db (.contract name) Payload.contract?)
  (x.1.map (·.map (·.2.src)), x.2)

/-- `get_contract`: from the cache, whatever root is asked for; else loaded from that root and compiled. -/
def getContract (Γ : Ctx) (s : GrainReader) (n : Nat) (name : String) : Except Stop (Option ReaderContext) × GrainReader :=
  match s.contractCache[name]? with
  | some cc => (.ok (some cc), s)
  | none =>
    match s.loadSource Γ n name with
    | (.error e, s) => (.error e, s)
    | (.ok none, s) => (.ok none, s)
    | (.ok (some src), s) =>
      match Γ.load src with
      | none => (.ok none, s)
      | some heap =>
        let cc : ReaderContext := { src := src, heap := heap, root := n }
        (.ok (some cc), { s with contractCache := s.contractCache.insert name cc })

/-- What a call of the interface gets for a lookup: an exception of C++ becomes one of JavaScript, a trap does not. -/
def granuleRes : Except Stop (Option String) → Except Stop HostRes
  | .ok v => .ok ((v.map .text).getD .undefined)
  | .error (.exn .nullDeref) => .error (.exn .nullDeref)
  | .error (.exn .divByZero) => .error (.exn .divByZero)
  | .error (.exn e) => .ok (.exception e.text)
  | .error (.err text) => .ok (.exception text)

/-- The interface inside a view of the context `cc`: it can only read granules, and reads them in the context's root. -/
def viewHost (Γ : Ctx) (name : String) (root : Nat) (s : GrainReader) : HostCall → Except Stop HostRes × GrainReader
  | .getGranule key =>
    if key = "" then (.ok (.exception ""), s)
    else
      let x := s.getGranule Γ root name key
      (granuleRes x.1, x.2)
  | .remainingValue => (.ok (.int 0), s)
  | .msg => (.ok .undefined, s)
  | h => (.ok (.exception (h.fn ++ " is not allowed in view")), s)

/-- The state of the global objects that a view leaves in its context. -/
def saveHeap (s : GrainReader) (name : String) (cc : ReaderContext) (heap : Nat) : GrainReader :=
  { s with contractCache := s.contractCache.insert name { cc with heap := heap } }

/-- Run the code of a view, which is stopped at an interrupt point after `points` of them. -/
def runView (Γ : Ctx) (name : String) (cc : ReaderContext) : Script → Nat → GrainReader → Except Stop HostRes × GrainReader
  | .done r heap, _, s => (.ok (.text r), s.saveHeap name cc heap)
  | .throw text heap, _, s => (.ok (.exception text), s.saveHeap name cc heap)
  | .step heap _, 0, s => (.ok (.exception "interrupted"), s.saveHeap name cc heap)
  | .step _ k, n + 1, s => runView Γ name cc k n s
  | .call heap h k, n, s =>
    match s.viewHost Γ name cc.root h with
    | (.ok r, s) => runView Γ name cc (k r heap) n s
    | (.error e, s) => (.error e, s)

/-- The answer for the result of a view. -/
def viewReply : HostRes → ClientReply
  | .text r => .callViewRSP true false r
  | .exception text => .callViewRSP true true (if text = "" then "view exception" else text)
  | _ => .callViewRSP true false "undefined"

/-- The contract branch of `ClientMsg`; `parse` is `nlohmann::json::parse`, with the text of
its exception. -/
def clientMsg (Γ : Ctx) (parse : String → Except String Json) (s : GrainReader) : ClientMsg → Except Stop ClientReply × GrainReader
  | .getContractDataREQ contract key =>
    match s.root with
    | none => (.error (.exn .nullDeref), s)
    | some n =>
      let x := s.getGranule Γ n contract key
      (x.1.map .getContractDataRSP, x.2)
  | .getContractREQ contract =>
    match s.root with
    | none => (.error (.exn .nullDeref), s)
    | some n =>
      match s.within n (ReadTree.getNoCreate Γ s.db (.contract contract) Payload.contract?) with
      | (.error e, s) => (.error e, s)
      | (.ok none, s) => (.ok (.getContractRSP none), s)
      | (.ok (some c), s) =>
        match s.within n (ReadTree.getNoCreate Γ s.db (.contractActivity contract) Payload.contractActivity?) with
        | (.error e, s) => (.error e, s)
        | (.ok none, s) => (.error (.exn (.commonError "if(!act.valid())")), s)
        | (.ok (some act), s) => (.ok (.getContractRSP (some (c.2, act.1.ttl, act.1.updateTime))), s)
  | .callViewREQ contract view paramsJson points =>
    match s.root with
    | none => (.error (.exn .nullDeref), s)
    | some n =>
      match s.getContract Γ n contract with
      | (.error e, s) => (.error e, s)
      | (.ok none, s) => (.ok (.callViewRSP false true ("contract not found: " ++ contract)), s)
      | (.ok (some cc), s) =>
        if (Γ.view cc.src cc.heap view (.obj [])).isNone then (.ok (.callViewRSP false true ("view not found: " ++ view)), s)
        else
          match if paramsJson = "" then .ok (.obj []) else parse paramsJson with
          | .error what => (.ok (.callViewRSP true true ("params: invalid json: " ++ what)), s)
          | .ok params =>
            match Γ.view cc.src cc.heap view params with
            | none => (.ok (viewReply (.exception ("view not found: " ++ view))), s)
            | some script =>
              let x := runView Γ contract cc script points s
              (x.1.map viewReply, x.2)

/-- `root = getRoot(..)`: the new object is made and the old one released; nothing changes if `getRoot` raises. -/
def installRoot (s : GrainReader) : Except Stop GrainReader := do
  let r ← getRoot s.db s.lastBlock
  pure { s with
    roots := fun m => if m = s.made then some r else if s.root = some m then none else s.roots m
    made := s.made + 1
    root := some s.made }

/-- `ServiceInit`: a new root and a new `contractHost`. -/
def serviceInit (s : GrainReader) : GrainReader :=
  match s.installRoot with
  | .ok s => { s with contractCache := ∅ }
  | .error _ => s

/-- `InvalidateRoot`: a new root. -/
def invalidateRoot (s : GrainReader) : GrainReader :=
  match s.installRoot with
  | .ok s => s
  | .error _ => s

/-- The events of the service, and the node's writing of a block to the database. -/
inductive Event
  | written (batch : DbToSave) (lastBlock : Option Hash)
  | serviceInit
  | invalidateRoot
  | clientMsg (m : ClientMsg)

/-- One event. -/
def step (Γ : Ctx) (parse : String → Except String Json) (s : GrainReader) : Event → GrainReader
  | .written batch lastBlock =>
    { s with
      db := batch.cells.toList.foldl (fun m z => m.insert z.1 z.2) (batch.deleted.toList.foldl (fun m z => m.erase z) s.db)
      lastBlock := lastBlock }
  | .serviceInit => s.serviceInit
  | .invalidateRoot => s.invalidateRoot
  | .clientMsg m => (s.clientMsg Γ parse m).2

/-- A sequence of events. -/
def run (Γ : Ctx) (parse : String → Except String Json) : List Event → GrainReader → GrainReader
  | [], s => s
  | e :: es, s => run Γ parse es (s.step Γ parse e)

end GrainReader

end Grain
