import Grain.Sync

/-!
# A node that catches up

`sync.cpp` with both sides: the node that fetches the tree sends the keys that are outstanding, any of the other nodes answers with
the granules it stores, and the node that gets an answer asks for what is outstanding then. Requests and answers stay on the network
when they are read, so that one may be late, come twice or not at all.
-/

namespace Grain

/-- `GetGranulesREQ`: the granules for the keys; nothing is answered where one of them, or the root, is not stored. -/
def getGranulesREQ (dbState : StdMap Bytes Bytes) (keys : List Bytes) : Option (List (Bytes × Bytes)) :=
  match dbState[([] : Bytes)]? with
  | none => none
  | some _ => keys.mapM fun z => dbState[z]?.map fun rg => (z, rg)

/-- The node that fetches, and what was sent. -/
structure Fetch where
  node : SyncSt
  requests : List (List Bytes) := []
  answers : List (List (Bytes × Bytes)) := []

namespace Fetch

variable {ι : Type} (Γ : SyncCtx) (peers : ι → StdMap Bytes Bytes) (newRootHash1 : Bytes)

/-- `continue_sync`. -/
def continueSync (n : Fetch) : Fetch :=
  { n with node := n.node.request, requests := n.requests ++ [n.node.getPathes] }

/-- `do_sync`; it raises if the source is not a node of the tree. -/
def doSync (n : Fetch) (known : Bool) : Fetch :=
  let n := { n with node := { n.node with newRootHash1 := newRootHash1 }.addSyncOut [] }
  if known then n.continueSync else n

/-- A request is answered. -/
def serve (n : Fetch) (p : ι) (keys : List Bytes) : Fetch :=
  match getGranulesREQ (peers p) keys with
  | none => n
  | some v => { n with answers := n.answers ++ [v] }

/-- `GetGranulesRSP`, with the request that follows. -/
def deliver (n : Fetch) (v : List (Bytes × Bytes)) (known : Bool) : Fetch :=
  match n.node.getGranulesRSP Γ { v := v, responderKnown := known } with
  | .error s => { n with node := s }
  | .ok s => { n with node := s, requests := if s.getPathes ≠ [] ∧ known then n.requests ++ [s.getPathes] else n.requests }

/-- What happens: a heartbeat shows once more that the node is behind, a peer reads a request, the node reads an answer. -/
inductive Step (ι : Type)
  | doSync (known : Bool)
  | serve (p : ι) (i : Nat)
  | deliver (i : Nat) (known : Bool)

/-- One step. -/
def Step.run : Step ι → Fetch → Fetch
  | .doSync known, n => n.doSync newRootHash1 known
  | .serve p i, n =>
    match n.requests[i]? with
    | none => n
    | some keys => n.serve peers p keys
  | .deliver i known, n =>
    match n.answers[i]? with
    | none => n
    | some v => n.deliver Γ v known

/-- The steps in the order in which they happen. -/
def run (steps : List (Step ι)) (n : Fetch) : Fetch := steps.foldl (fun n s => s.run Γ peers newRootHash1 n) n

/-- The last request is answered and the answer is read. -/
def exchange (n : Fetch) (p : ι) : Fetch :=
  run Γ peers newRootHash1 [.serve p (n.requests.length - 1), .deliver n.answers.length true] n

end Fetch

end Grain
