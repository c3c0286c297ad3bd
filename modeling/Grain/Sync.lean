import Grain.Payload

/-!
# Fetching the tree from other nodes

`sync.cpp` with the set of outstanding keys of `IDatabase.h`. Answers of other nodes are arbitrary bytes, so here a granule is
what the database holds of it: bytes, under a key of bytes. `unpack_mx` is given by what the handlers use of it, the identifiers
and hashes of a cell's children. A handler that raises ends in the state it has got to.
-/

namespace Grain

/-- A string of bytes. -/
abbrev Bytes := List Nat

/-- The hash, which is collision-free, and the children that `unpack_mx` reads from a granule; it raises on an empty one. -/
structure SyncCtx where
  blake2bHash : Bytes → Bytes
  blake2bHash_inj : Function.Injective blake2bHash
  childrenHashes : Bytes → Option (StdMap Bytes Bytes)
  childrenHashes_nil : childrenHashes [] = none

/-- The state of a synchronisation: the database, the outstanding keys, whether there are none, how often `on_sync_finished` was
called, the keys that other nodes were asked for, and `new_root_hash1` of the previous block. -/
structure SyncSt where
  db : StdMap Bytes Bytes := ∅
  syncOut : StdSet Bytes := ∅
  syncEmpty : Bool := true
  finished : Nat := 0
  asked : StdSet Bytes := ∅
  newRootHash1 : Bytes := []

/-- `GetGranulesRSP`: the granules, and whether the responder is a node of the tree. -/
structure GetGranulesRSP where
  v : List (Bytes × Bytes) := []
  responderKnown : Bool := true

/-- `splice`: the key of the parent and the identifier of the child. -/
def splice (id : Bytes) : Option (Bytes × Bytes) :=
  match id.length with
  | 0 => some ([], [])
  | 1 => some ([], id)
  | 2 => some (id.take 1, id.drop 1)
  | 3 => some (id.take 2, id.drop 2)
  | 4 => some (id.take 3, id.drop 3)
  | 32 => some (id.take 4, id.drop 4)
  | _ => none

namespace SyncSt

variable (Γ : SyncCtx) (s : SyncSt)

/-- `getGranule`: nothing is read where nothing is stored. -/
def getGranule (k : Bytes) : Bytes := s.db[k]?.getD []

/-- `add_sync_out`. -/
def addSyncOut (k : Bytes) : SyncSt := { s with syncEmpty := false, syncOut := s.syncOut.insert k }

/-- `getPathes`: the outstanding keys of the shortest length, at most 1001 of them. -/
def getPathes : List Bytes :=
  match (s.syncOut.toList.map List.length).min? with
  | none => []
  | some n => (s.syncOut.toList.filter fun k => k.length = n).take 1001

/-- Send `GetGranulesREQ` for the next keys. -/
def request : SyncSt := { s with asked := s.getPathes.foldl (fun a k => a.insert k) s.asked }

/-- `getRoot` for the previous block raises: the root granule has the block's hash and does not unpack. -/
def rootRaises : Bool :=
  s.getGranule [] ≠ [] && Γ.blake2bHash (s.getGranule []) = s.newRootHash1 && (Γ.childrenHashes (s.getGranule [])).isNone

/-- `remove_sync_out`: when the last key goes, `on_sync_finished` opens the tree. -/
def removeSyncOut (k : Bytes) : Except SyncSt SyncSt :=
  let s := { s with syncOut := s.syncOut.erase k }
  if s.syncOut.isEmpty ∧ s.syncEmpty = false then
    let s := { s with syncEmpty := true, finished := s.finished + 1 }
    if s.rootRaises Γ then .error s else .ok s
  else .ok s

/-- The loop of `collect_sync_req2` over the children of a granule. -/
def collectChildren (id : Bytes) : List (Bytes × Bytes) → SyncSt → SyncSt
  | [], s => s
  | (c, h) :: cs, s =>
    collectChildren id cs (if Γ.blake2bHash (s.getGranule (id ++ c)) ≠ h then s.addSyncOut (id ++ c) else s)

/-- `collect_sync_req2`. -/
def collectSyncReq2 (z : Bytes × Bytes) : Except SyncSt SyncSt :=
  match Γ.childrenHashes z.2 with
  | none => .error s
  | some cs => .ok (collectChildren Γ z.1 cs.toList s)

/-- The check of one granule: it must have the hash that its parent records, if the parent is stored. -/
def checkGranule (z : Bytes × Bytes) : Bool :=
  if z.1 = [] then true
  else
    match splice z.1 with
    | none => false
    | some (p, id) =>
      if s.getGranule p = [] then true
      else
        match Γ.childrenHashes (s.getGranule p) with
        | none => false
        | some cs => cs[id]? = some (Γ.blake2bHash z.2)

end SyncSt

/-- The granules of an answer as a batch of writes; of two under one key the second is written. -/
def batch (v : List (Bytes × Bytes)) : StdMap Bytes Bytes := v.foldl (fun d z => d.insert z.1 z.2) ∅

/-- `write_granules_batch` unpacks the leaves of the batch before it writes. -/
def batchUnpacks (Γ : SyncCtx) (v : List (Bytes × Bytes)) : Bool :=
  (batch v).toList.all fun z => z.1.length ≠ 32 || (Γ.childrenHashes z.2).isSome

namespace SyncSt

variable (Γ : SyncCtx)

/-- The answer gets to the write. -/
def accepts (s : SyncSt) (m : GetGranulesRSP) : Bool := m.v.all (s.checkGranule Γ) && batchUnpacks Γ m.v

/-- `write_granules_batch`. -/
def write (s : SyncSt) (v : List (Bytes × Bytes)) : SyncSt :=
  { s with db := (batch v).toList.foldl (fun d z => d.insert z.1 z.2) s.db }

/-- The loop of `remove_sync_out`. -/
def removeAll : List (Bytes × Bytes) → SyncSt → Except SyncSt SyncSt
  | [], s => .ok s
  | z :: zs, s => do
    let s ← s.removeSyncOut Γ z.1
    removeAll zs s

/-- The loop of `collect_sync_req2`. -/
def collectAll : List (Bytes × Bytes) → SyncSt → Except SyncSt SyncSt
  | [], s => .ok s
  | z :: zs, s => do
    let s ← s.collectSyncReq2 Γ z
    collectAll zs s

/-- `GetGranulesRSP`. -/
def getGranulesRSP (s : SyncSt) (m : GetGranulesRSP) : Except SyncSt SyncSt :=
  if s.accepts Γ m then do
    let s ← removeAll Γ m.v (s.write m.v)
    let s ← collectAll Γ m.v s
    .ok (if s.getPathes ≠ [] ∧ m.responderKnown then s.request else s)
  else .error s

/-- The state after an answer: an exception is logged and nothing else. -/
def step (s : SyncSt) (m : GetGranulesRSP) : SyncSt :=
  match s.getGranulesRSP Γ m with
  | .ok s => s
  | .error s => s

/-- The state after a sequence of answers. -/
def run (s : SyncSt) (ms : List GetGranulesRSP) : SyncSt := ms.foldl (step Γ) s

/-- `do_sync` towards a known node. -/
def doSync (s : SyncSt) (newRootHash1 : Bytes) : SyncSt := ({ s with newRootHash1 := newRootHash1 }.addSyncOut []).request

end SyncSt

end Grain
