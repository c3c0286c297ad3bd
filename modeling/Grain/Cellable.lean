import Grain.Payload

/-!
# The cells of the state tree

The tree of `cellable.h` as a heap. A cell never changes its parent or its identifier, so a pointer to a cell is the list of
(number, identifier) pairs from the cell up to the root; the root is the empty list. At any time a cell has at most one child
under an identifier, and the child's number says how many were taken out of that place before it: a pointer to a cell that is no
longer attached is one whose number is behind (`Cell.gen`), and it still points to the cell it pointed to. A pointer to a
payload object is a number with the pointer of the cell that owns it.

A cell keeps the hashes of all of its children and the set of those that are in memory. The others are in the database under the
identifiers on the path to them (`getDbId`). A child that was only read is the same in memory and in the database, so it is
entered in the set when it is marked or made, not when it is loaded: `cell` and `deref` read a cell that is not on the heap from
the database.
-/

namespace Grain

/-- The identifiers from below the root down to a cell; as a database key, their concatenation. An identifier is a piece of a
digest; the pieces at one level have the same length, so each is given as the number that its bytes write. -/
abbrev Path := List Nat

/-- A pointer to a cell: its number and identifier, then those of its parent, and so on. -/
abbrev CellPtr := List (Nat × Nat)

/-- A pointer to a payload object and, through `parent`, to the cell it was made for. -/
structure DataPtr where
  gen : Nat
  parent : CellPtr

instance : DecidableEq DataPtr := fun a b =>
  decidable_of_iff (a.gen = b.gen ∧ a.parent = b.parent) (by cases a; cases b; simp)

/-- `Cellable`: `ptrs` are the identifiers in `children_ptrs_mx`, `data` is the number of the payload object. `gens` counts the
cells that were taken out from under an identifier, `objs` the payload objects made so far. -/
structure Cell where
  hashes : StdMap Nat Hash := ∅
  ptrs : StdSet Nat := ∅
  gens : StdMap Nat Nat := ∅
  idx : Hsh := .hshEnd
  data : Option Nat := none
  objs : Nat := 0
  dirty : Bool := false

namespace Cell

/-- The number of the child under an identifier. -/
def gen (k : Cell) (id : Nat) : Nat := k.gens[id]?.getD 0

/-! The assignments to the fields of a cell. -/

/-- `is_dirty = x`. -/
@[simps]
def withDirty (k : Cell) (x : Bool) : Cell := { k with dirty := x }

/-- `children_hashes_mx[id] = h`. -/
@[simps]
def withHash (k : Cell) (id : Nat) (h : Hash) : Cell := { k with hashes := k.hashes.insert id h }

/-- Enter a child in `children_ptrs_mx`. -/
@[simps]
def withPtr (k : Cell) (id : Nat) : Cell := { k with ptrs := k.ptrs.insert id }

/-- Take a child out of both maps. -/
@[simps]
def without (k : Cell) (id : Nat) : Cell :=
  { k with hashes := k.hashes.erase id, ptrs := k.ptrs.erase id, gens := k.gens.insert id (k.gen id + 1) }

/-- `data` points to a new object. -/
@[simps]
def withData (k : Cell) : Cell := { k with data := some k.objs, objs := k.objs + 1 }

/-- `payload_ctor_idx = i`. -/
@[simps]
def withIdx (k : Cell) (i : Hsh) : Cell := { k with idx := i }

/-- The constructor index and the hashes of a packed cell. -/
@[simps]
def withPacked (k : Cell) (b : Packed) : Cell := { k with idx := b.idx, hashes := b.hashes }

end Cell

/-- `getDbId`. -/
def getDbId (c : CellPtr) : Path := (c.map (·.2)).reverse

/-- `_db_to_save`: granules to write and granules to delete. -/
structure DbToSave where
  cells : StdMap Path Packed := ∅
  deleted : StdSet Path := ∅
  deriving DecidableEq

namespace DbToSave

/-- `add(dbid, body)`. -/
def add (d : DbToSave) (p : Path) (b : Packed) : DbToSave := { d with cells := d.cells.insert p b }

/-- `del(dbid)`. -/
def del (d : DbToSave) (p : Path) : DbToSave := { d with deleted := d.deleted.insert p }

/-- `add(_db_to_save&)`. -/
def merge (d e : DbToSave) : DbToSave where
  cells := e.cells.toList.foldl (fun m z => m.insert z.1 z.2) d.cells
  deleted := e.deleted.toList.foldl (fun m z => m.insert z) d.deleted

/-- `size_leaves`: the bytes of the keys and bodies whose key is a leaf's, that is 32 bytes long. -/
def sizeLeaves (size : Packed → Nat) (d : DbToSave) : Nat :=
  (d.cells.toList.filter fun z => z.1.length = 5).foldl (fun n z => n + 32 + size z.2) 0 +
    (d.deleted.toList.filter fun z => z.length = 5).foldl (fun n _ => n + 32) 0

end DbToSave

/-- The heap with the tree, the database under it and the rollback log of the transaction being executed. -/
structure Store where
  heap : CellPtr → Option Cell := fun _ => none
  obj : DataPtr → Option DataObj := fun _ => none
  roll : List (CellPtr × Packed) := []
  db : StdMap Path Packed := ∅

/-- `unpack_mx` accepts the granule: a payload has a constructor index. -/
def Loadable (b : Packed) : Prop := b.data.isSome → b.idx ≠ .hshEnd

instance (b : Packed) : Decidable (Loadable b) := inferInstanceAs (Decidable (_ → _))

/-- A cell as it comes from the database. -/
def Packed.toCell (b : Packed) : Cell where
  hashes := b.hashes
  idx := b.idx
  data := b.data.map fun _ => 0
  objs := if b.data.isSome then 1 else 0

namespace Store

/-- The granule of a cell in the database; one that is missing makes a cell without content. -/
def granule (s : Store) (c : CellPtr) : Packed := s.db[getDbId c]?.getD {}

/-- The cell a pointer points to. -/
def cell (s : Store) (c : CellPtr) : Cell := (s.heap c).getD (s.granule c).toCell

/-- The object a pointer points to. -/
def deref (s : Store) (d : DataPtr) : DataObj :=
  (s.obj d).getD ((s.granule d.parent).data.getD { payload := .nodelist ∅ })

/-- Replace the cell a pointer points to. -/
def setCell (s : Store) (c : CellPtr) (k : Cell) : Store := { s with heap := fun p => if p = c then some k else s.heap p }

/-- Replace a payload object. -/
def setObj (s : Store) (d : DataPtr) (o : DataObj) : Store := { s with obj := fun p => if p = d then some o else s.obj p }

/-- The pointer to the child of a cell under an identifier, if it has one. -/
def child (s : Store) (c : CellPtr) (id : Nat) : CellPtr := ((s.cell c).gen id, id) :: c

/-- `pack_mx`, also `getBuffer_mx`. -/
def pack (s : Store) (c : CellPtr) : Packed where
  idx := (s.cell c).idx
  hashes := (s.cell c).hashes
  data := (s.cell c).data.map fun g => s.deref ⟨g, c⟩

/-- Log the content of a cell for the rollback, unless it is logged already. -/
def snapshot (s : Store) (c : CellPtr) : Store :=
  if s.roll.any (·.1 = c) then s else { s with roll := s.roll ++ [(c, s.pack c)] }

/-- One cell's part of `setDirty__`; `roll` says whether a rollback log was passed. -/
def mark (s : Store) (roll : Bool) (c : CellPtr) : Store :=
  let s := if roll then s.snapshot c else s
  s.setCell c ((s.cell c).withDirty true)

/-- Enter a child in its parent's set, unless it was taken out of it. -/
def enter (s : Store) (n : Nat) (id : Nat) (c : CellPtr) : Store :=
  if n = (s.cell c).gen id then s.setCell c ((s.cell c).withPtr id) else s

/-- `setDirty__`: the cell, then its ancestors. -/
def setDirty (roll : Bool) : CellPtr → Store → Store
  | [], s => s.mark roll []
  | (n, id) :: c, s => setDirty roll c ((s.mark roll ((n, id) :: c)).enter n id c)

/-- A new payload object for a cell. -/
def newObj (s : Store) (c : CellPtr) (o : DataObj) : Store :=
  (s.setObj ⟨(s.cell c).objs, c⟩ o).setCell c (s.cell c).withData

/-- `cc->data = new T(cc); cc->payload_ctor_idx = hsh::T`. -/
def construct (s : Store) (c : CellPtr) (o : DataObj) : Store :=
  let s := s.newObj c o
  s.setCell c ((s.cell c).withIdx o.payload.hsh)

/-- `unpack_mx`. The payload object is replaced by a new one only if the buffer holds a payload; a payload without a
constructor index raises, with the index and the child hashes already replaced. -/
def unpackMx (s : Store) (c : CellPtr) (b : Packed) : Except Stop Unit × Store :=
  let s := s.setCell c ((s.cell c).withPacked b)
  match b.data with
  | none => (.ok (), s)
  | some o =>
    if b.idx = .hshEnd then (.error (.exn (.commonError "!if(payload_ctor_idx<hsh::HSH_END)")), s)
    else (.ok (), s.newObj c o)

/-- A new child cell, entered in its parent's set. -/
def newChild (s : Store) (c : CellPtr) (id : Nat) : Store :=
  (s.setCell (s.child c id) {}).setCell c ((s.cell c).withPtr id)

/-- The loop of `t_params::rollback`: every logged cell is unpacked again; an exception ends it. -/
def unpackAll : List (CellPtr × Packed) → Store → Except Stop Unit × Store
  | [], s => (.ok (), s)
  | (c, b) :: l, s =>
    match s.unpackMx c b with
    | (.ok _, s) => unpackAll l s
    | (.error e, s) => (.error e, s)

/-- `t_params::rollback`. -/
def rollback (s : Store) : Except Stop Unit × Store := unpackAll s.roll s

/-- The body of the loop of `calc_tree_hash` for one child, `rec` being the call for the child. -/
def hashChild (rec : CellPtr → Store × DbToSave → Store × DbToSave) (c : CellPtr) (x : Store × DbToSave)
    (id : Nat) : Store × DbToSave :=
  let p := x.1.child c id
  if (x.1.cell p).dirty then
    let (s, d) := rec p x
    let b := s.pack p
    if b.hash ≠ (s.cell c).hashes[id]?.getD .empty then
      (s.setCell c ((s.cell c).withHash id b.hash), d.add (getDbId p) b)
    else (s, d)
  else x

/-- `calc_tree_hash`, for a tree of at most `n` levels below and with the cell. -/
def calcTreeHash : Nat → CellPtr → Store × DbToSave → Store × DbToSave
  | 0, _, x => x
  | n + 1, c, x =>
    if (x.1.cell c).dirty then
      let (s, d) := (x.1.cell c).ptrs.toList.foldl (hashChild (calcTreeHash n) c) x
      (s.setCell c ((s.cell c).withDirty false), d)
    else x

/-- Take a child out of both maps of a cell. -/
def unlink (s : Store) (c : CellPtr) (id : Nat) : Store := s.setCell c ((s.cell c).without id)

/-- The loop of `deleteGranule`: cells without children are taken out of their parents, up to the first that has some. -/
def prune : CellPtr → Store × DbToSave → Store × DbToSave
  | [], x => x
  | (n, id) :: c, (s, d) =>
    if (s.cell ((n, id) :: c)).hashes.isEmpty then prune c (s.unlink c id, d.del (getDbId ((n, id) :: c))) else (s, d)

/-- `deleteGranule`. -/
def deleteGranule (s : Store) (g : DataPtr) (roll : Bool) (d : DbToSave) : Store × DbToSave :=
  prune g.parent (s.setDirty roll g.parent, d)

end Store

end Grain
