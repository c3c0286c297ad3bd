import Grain.Cellable

/-!
# Lookups in the state tree

The path part of `cells.cpp`: a name is hashed, the digest is cut into five identifiers, and the cells are followed from the
root, loading from the database what is not in memory and, in the creating lookups, making what is missing.
-/

namespace Grain

/-- The names that are hashed into paths. -/
inductive Name
  | addressState (addr : String)
  | contract (name : String)
  | contractData (contract dataId : String)
  | node (name : String)
  | contractBalance (contract : String)
  | contractActivity (name : String)
  | state
  | nodeList
  | values
  | votes

/-- The preimage of a path. -/
def Name.text : Name → String
  | .addressState addr => "USER_STATE_" ++ addr
  | .contract n => "CONTRACT_" ++ n
  | .contractData c k => "CONTRACT_DATA_" ++ c ++ "_" ++ k
  | .node n => "NODE_" ++ n
  | .contractBalance c => "CONTRACT_BALANCE_" ++ c
  | .contractActivity c => "CONTRACT_ACTIVITY_" ++ c
  | .state => "STATE"
  | .nodeList => "NODE LIST"
  | .values => "VALUES"
  | .votes => "VOTES"

/-- A lookup that raises: the exception, and the granule that the other nodes are asked for if the one in the database does not
have the recorded hash. -/
structure Fault where
  stop : Stop
  resync : Option Path := none

namespace Store

/-- `replaceLeafNoCreate`: the child in memory; else, if the cell has a hash for it, the child in the database. A granule that
does not hash to the recorded value raises, after asking for a resynchronisation. -/
def replaceLeafNoCreate (s : Store) (c : CellPtr) (id : Nat) : Except Fault (Option CellPtr) :=
  if id ∈ (s.cell c).ptrs then .ok (some (s.child c id))
  else
    match (s.cell c).hashes[id]? with
    | none => .ok none
    | some h =>
      match s.db[getDbId c ++ [id]]? with
      | none => .ok (some (s.child c id))
      | some b =>
        if b.hash = h then
          if Loadable b then .ok (some (s.child c id))
          else .error { stop := .exn (.commonError "!if(payload_ctor_idx<hsh::HSH_END)") }
        else .error { stop := .exn (.commonError "getGranule: cell hash not matched"), resync := some (getDbId c ++ [id]) }

/-- Follow a path from a cell without creating anything; a child that is not there ends it. -/
def resolve (s : Store) : Path → CellPtr → Except Fault (Option CellPtr)
  | [], c => .ok (some c)
  | id :: ids, c =>
    match s.replaceLeafNoCreate c id with
    | .ok (some p) => s.resolve ids p
    | .ok none => .ok none
    | .error e => .error e

/-- `getByPathNoCreate`, from the root. -/
def getByPathNoCreate (s : Store) (p : Path) : Except Fault (Option CellPtr) := s.resolve p []

/-- `replaceLeafOrCreate`: a child that the cell has no hash for is made new, with an empty hash; the cell is logged for the
rollback before. A child in memory without a hash raises. -/
def replaceLeafOrCreate (roll : Bool) (s : Store) (c : CellPtr) (id : Nat) : Except Fault (Option CellPtr) × Store :=
  if id ∈ (s.cell c).hashes then (s.replaceLeafNoCreate c id, s)
  else
    let s := if roll then s.snapshot c else s
    let s := s.setCell c ((s.cell c).withHash id .empty)
    if id ∈ (s.cell c).ptrs then (.error { stop := .exn (.commonError "if(it!=children_ptrs.end())") }, s)
    else (.ok (some (s.child c id)), (s.newChild c id).setDirty roll (s.child c id))

/-- Follow a path from a cell, creating what is not there. -/
def resolveOrCreate (roll : Bool) : Path → CellPtr → Store → Except Fault (Option CellPtr) × Store
  | [], c, s => (.ok (some c), s)
  | id :: ids, c, s =>
    match s.replaceLeafOrCreate roll c id with
    | (.ok (some p), s) => resolveOrCreate roll ids p s
    | (.ok none, s) => (.ok none, s)
    | (.error e, s) => (.error e, s)

/-- `getByPathOrCreate`, from the root. -/
def getByPathOrCreate (s : Store) (p : Path) (roll : Bool) : Except Fault (Option CellPtr) × Store :=
  resolveOrCreate roll p [] s

/-- The payload of a cell, with its pointer. -/
def leaf (s : Store) (c : CellPtr) : Option (DataPtr × DataObj) :=
  (s.cell c).data.map fun g => (⟨g, c⟩, s.deref ⟨g, c⟩)

/-- What a lookup shows of a cell: the constructor index, and the payload if there is one. -/
abbrev Look := Hsh × Option (DataPtr × DataObj)

/-- What a lookup shows of the cell at a pointer. -/
def view (s : Store) (c : CellPtr) : Look := ((s.cell c).idx, s.leaf c)

/-- Look a leaf up without creating it. -/
def look (s : Store) (p : Path) : Except Fault (Option Look) :=
  match s.getByPathNoCreate p with
  | .ok r => .ok (r.map s.view)
  | .error e => .error e

/-- Look a leaf up and create it if it is missing: the payload it has already, or a new one. The flag says which. -/
def create (s : Store) (p : Path) (o : DataObj) : Except Fault (Bool × DataPtr × DataObj) × Store :=
  match s.getByPathOrCreate p true with
  | (.ok (some c), s) =>
    match s.leaf c with
    | some d => (.ok (true, d), s)
    | none => (.ok (false, ⟨(s.cell c).objs, c⟩, o), s.construct c o)
  | (.ok none, s) => (.error { stop := .exn .nullDeref }, s)
  | (.error e, s) => (.error e, s)

/-- `cells::replaceLeaf`: the leaf is unpacked from a buffer and marked. -/
def replaceLeaf (s : Store) (p : Path) (b : Packed) : Except Fault Unit × Store :=
  match s.getByPathOrCreate p true with
  | (.ok (some c), s) =>
    match s.unpackMx c b with
    | (.ok _, s) =>
      if (s.cell c).data.isSome then (.ok (), s.setDirty true c)
      else (.error { stop := .exn (.commonError "if(!cc->data.valid())") }, s)
    | (.error e, s) => (.error { stop := e }, s)
  | (.ok none, s) => (.error { stop := .exn .nullDeref }, s)
  | (.error e, s) => (.error e, s)

/-- `getRoot`: the tree as the database holds it. -/
def getRoot (s : Store) : Store := { db := s.db }

/-- The cell has been marked, made or written to: it is in memory with what it has there. -/
def inMemory (s : Store) (c : CellPtr) : Bool := (s.heap c).isSome || (s.obj ⟨0, c⟩).isSome

/-- `write_granules_batch`: the deletions, then the writes. What is in memory stays as it is. -/
def writeGranulesBatch (s : Store) (d : DbToSave) : Store where
  heap c := if s.inMemory c then some (s.cell c) else none
  obj p := if s.inMemory p.parent then some (s.deref p) else s.obj p
  roll := s.roll
  db := d.cells.toList.foldl (fun m z => m.insert z.1 z.2) (d.deleted.toList.foldl (fun m z => m.erase z) s.db)

end Store

end Grain
