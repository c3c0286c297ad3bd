import Grain.State
import Grain.Lib.Merkle

/-!
# The tree as a map of its leaves

What callers do with the tree: look a leaf up, look it up and create it, change its payload and mark it, replace it by one that was
sent, delete it, hash the tree.
`TreeOp.run` is each of them on the cells. `TreeOp.after` and `TreeOp.Answers` say what it is for: the leaves are a map from paths
to payloads, and the root hash is the digest of that map.
-/

namespace Grain

/-- The path of a leaf. -/
abbrev LeafPath := { p : Path // p.length = 5 }

/-- The granule of a leaf. -/
def leafGranule (o : DataObj) : Packed := { idx := o.payload.hsh, data := some o }

/-- An operation on the tree; `roll` says whether the rollback log is passed. -/
inductive TreeOp
  | look (p : LeafPath)
  | create (p : LeafPath) (o : DataObj)
  | write (p : LeafPath) (w : Write) (roll : Bool)
  | replace (p : LeafPath) (o : DataObj)
  | delete (p : LeafPath) (roll : Bool)
  | hash

/-- What the caller learns. -/
inductive TreeAns
  | fault (e : Stop)
  | leaf (o : Option (Hsh × DataObj))
  | made (old : Bool) (o : DataObj)
  | done
  | root (h : Hash)
  deriving DecidableEq

/-- The tree, with the granules collected for writing. -/
abbrev Tree := Store × DbToSave

/-- The operation on the cells. -/
def TreeOp.run : TreeOp → Tree → TreeAns × Tree
  | .look p, (s, d) =>
    match s.look p with
    | .ok r => (.leaf (r.bind fun z => z.2.map fun y => (z.1, y.2)), (s, d))
    | .error e => (.fault e.stop, (s, d))
  | .create p o, (s, d) =>
    match s.create p o with
    | (.ok (old, _, x), t) => (.made old x, (t, d))
    | (.error e, t) => (.fault e.stop, (t, d))
  | .write p w roll, (s, d) =>
    match s.look p with
    | .ok (some (_, some (g, x))) => (.done, ((s.setObj g (w.apply x)).setDirty roll g.parent, d))
    | .ok _ => (.done, (s, d))
    | .error e => (.fault e.stop, (s, d))
  | .replace p o, (s, d) =>
    match s.replaceLeaf p (leafGranule o) with
    | (.ok _, t) => (.done, (t, d))
    | (.error e, t) => (.fault e.stop, (t, d))
  | .delete p roll, (s, d) =>
    match s.look p with
    | .ok (some (_, some (g, _))) => (.done, s.deleteGranule g roll d)
    | .ok _ => (.done, (s, d))
    | .error e => (.fault e.stop, (s, d))
  | .hash, x =>
    let x := Store.calcTreeHash treeLevels [] x
    (.root (x.1.pack []).hash, x)

/-- A sequence of operations. -/
def runTree : List TreeOp → Tree → List TreeAns × Tree
  | [], x => ([], x)
  | o :: os, x =>
    let r := o.run x
    let q := runTree os r.2
    (r.1 :: q.1, q.2)

/-! ## The map -/

/-- The payloads of the leaves, by their paths. -/
abbrev LeafMap := Path → Option DataObj

/-- The map after the operation. -/
def TreeOp.after : TreeOp → LeafMap → LeafMap
  | .create p o, L => fun q => if q = p then some ((L q).getD o) else L q
  | .write p w _, L => fun q => if q = p then (L q).map w.apply else L q
  | .replace p o, L => fun q => if q = p then some o else L q
  | .delete p _, L => fun q => if q = p then none else L q
  | .look _, L => L
  | .hash, L => L

/-- The digests of a leaf and of a cell with children. -/
def cellScheme : Merkle.Scheme Nat DataObj Hash where
  leaf o := (leafGranule o).hash
  node m := ({ hashes := m } : Packed).hash

/-- What the operation answers. -/
def TreeOp.Answers : TreeOp → LeafMap → TreeAns → Prop
  | .look p, L, a => a = .leaf ((L p).map fun o => (o.payload.hsh, o))
  | .create p o, L, a => a = .made (L p).isSome ((L p).getD o)
  | .write _ _ _, _, a => a = .done
  | .replace _ _, _, a => a = .done
  | .delete _ _, _, a => a = .done
  | .hash, L, a => ∃ h, Merkle.Digest cellScheme L 5 [] h ∧ a = .root h

/-- The answer is determined by the map. -/
theorem TreeOp.Answers.unique {o : TreeOp} {L : LeafMap} {a b : TreeAns} (ha : o.Answers L a) (hb : o.Answers L b) : a = b := by
  cases o with
  | hash =>
    obtain ⟨h, hd, rfl⟩ := ha
    obtain ⟨h', hd', rfl⟩ := hb
    rw [hd.unique hd']
  | look | create | write | replace | delete => exact Eq.trans ha (Eq.symm hb)

/-! ## Stored trees -/

/-- The granule at a path; one that is missing is without content. -/
def granuleAt (db : StdMap Path Packed) (p : Path) : Packed := db[p]?.getD {}

/-- The paths that the granules from the root on record hashes for. -/
inductive OnRecord (db : StdMap Path Packed) : Path → Prop
  | root : OnRecord db []
  | child {p : Path} {id : Nat} {h : Hash} (hp : OnRecord db p) (hh : (granuleAt db p).hashes[id]? = some h) :
    OnRecord db (p ++ [id])

end Grain
