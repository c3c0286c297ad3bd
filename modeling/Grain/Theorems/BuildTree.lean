import Grain.Lib.Heap
import Grain.Theorems.Delivery

/-!
# The shape of the broadcaster tree

`buildTree` fills its tree level by level: its queue holds the slots whose children come next, and what is built after some of the
nodes is the heap-shaped tree with so many slots.
-/

namespace Grain

/-! ## The loop -/

/-- The slots of a list of nodes: the root, then the nodes in order. -/
def slot (nodes : List NodeElement) (s : Nat) : NodeElement :=
  if s = 0 then { name := "fake" } else nodes[s - 1]?.getD {name := "fake"}

/-- A node goes to the next slot, and the slot to the end of the queue. -/
theorem emplaceBack_heap (l : Nat → NodeElement) (m : Nat) (q : List (List Nat)) :
    emplaceBack (Heap.place (m / 2)) (l (m + 1)) q (Heap.heap l m 0) = (q ++ [Heap.place (m + 1)], Heap.heap l (m + 1) 0) := by
  have hd := Heap.degree_heap (l := l) (Nat.zero_le m) (Heap.binary_place (m / 2)) (Heap.descend_place (m / 2))
  have ha := Heap.addChild_heap (l := l) (Nat.zero_le m) (Heap.binary_place (m / 2)) (Heap.descend_place (m / 2))
  rw [emplaceBack, hd, ha, ← Heap.place_succ]

/-- With the children of the first `k` slots placed, the queue holds the other slots that are filled, and the loop goes on to fill
the slots of the rest. -/
theorem buildLoop_heap {l : Nat → NodeElement} {rest : List NodeElement} {k : Nat}
    (h : ∀ i (hi : i < rest.length), l (2 * k + 1 + i) = rest[i]) :
    buildLoop rest ((List.range' k (k + 1)).map Heap.place) (Heap.heap l (2 * k) 0) = Heap.heap l (2 * k + rest.length) 0 := by
  induction rest using List.twoStepInduction generalizing k with
  | nil =>
    rw [List.range'_succ, List.map_cons]
    rfl
  | singleton r =>
    have hr : l (2 * k + 1) = r := h 0 (by simp)
    have hk : 2 * k / 2 = k := by omega
    have hput := emplaceBack_heap l (2 * k) ((List.range' (k + 1) k).map Heap.place)
    rw [hk, hr] at hput
    rw [List.range'_succ, List.map_cons, buildLoop, hput]
    rfl
  | cons_cons r₁ r₂ rest ih =>
    have hr₁ : l (2 * k + 1) = r₁ := h 0 (by simp)
    have hr₂ : l (2 * k + 1 + 1) = r₂ := h 1 (by simp)
    have hk₁ : 2 * k / 2 = k := by omega
    have hk₂ : (2 * k + 1) / 2 = k := by omega
    have hput₁ := emplaceBack_heap l (2 * k) ((List.range' (k + 1) k).map Heap.place)
    have hput₂ := emplaceBack_heap l (2 * k + 1) ((List.range' (k + 1) k).map Heap.place ++ [Heap.place (2 * k + 1)])
    rw [hk₁, hr₁] at hput₁
    rw [hk₂, hr₂] at hput₂
    have hqueue : (List.range' (k + 1) k).map Heap.place ++ [Heap.place (2 * k + 1)] ++ [Heap.place (2 * k + 1 + 1)] =
        (List.range' (k + 1) (k + 1 + 1)).map Heap.place := by
      have h₁ : k + 1 + 1 * k = 2 * k + 1 := by omega
      have h₂ : k + 1 + 1 * (k + 1) = 2 * k + 1 + 1 := by omega
      rw [List.range'_concat, List.range'_concat, List.map_append, List.map_append, h₁, h₂]
      rfl
    have hrest : ∀ i (hi : i < rest.length), l (2 * (k + 1) + 1 + i) = rest[i] := by
      intro i hi
      have := h (i + 2) (by simpa using hi)
      rw [show 2 * (k + 1) + 1 + i = 2 * k + 1 + (i + 2) by omega, this]
      rfl
    rw [List.range'_succ, List.map_cons, buildLoop, hput₁]
    dsimp only
    rw [hput₂]
    dsimp only
    rw [hqueue, show 2 * k + 1 + 1 = 2 * (k + 1) by omega, ih hrest]
    congr 1
    simp only [List.length_cons]
    omega

/-- What `buildTree` builds. -/
theorem buildTree_heap {nodes : List NodeElement} (h : nodes ≠ []) :
    buildTree nodes = .ok (Heap.heap (slot nodes) nodes.length 0) := by
  have hslots : ∀ i (hi : i < nodes.length), slot nodes (2 * 0 + 1 + i) = nodes[i] := by
    intro i hi
    unfold slot
    rw [if_neg (by omega), show 2 * 0 + 1 + i - 1 = i by omega, List.getElem?_eq_getElem hi]
    rfl
  have hloop := buildLoop_heap (k := 0) hslots
  have hqueue : (List.range' 0 (0 + 1)).map Heap.place = [[]] := by
    rw [List.range'_one, List.map_singleton, Heap.place_zero]
  rw [hqueue, Nat.mul_zero, Nat.zero_add, Heap.heap_last] at hloop
  unfold buildTree
  rw [if_neg h]
  exact congrArg Except.ok hloop

/-! ## The shape -/

/-- The path in the tree to the node at an index of the list. -/
def pathOf (i : Nat) : List Nat := Heap.place (i + 1)

/-- What a process that is at a tree sends to the children of its root. -/
def addressed (me : String) (b : BroadcastMessage) (u : TreeNode) : List Packet :=
  ({} : Net).makeBroadcastMessageToTree me b.dstService b.nodeSigner b.nodeStartTimestamp b.seqId b.signaturePl b.msg u b.route
    |>.packets

/-- The tree of a list of nodes. -/
structure Shape (nodes : List NodeElement) (t : TreeNode) : Prop where
  /-- The root is none of the nodes; its children are those at the indices 0 and 1. -/
  root : t.node = { name := "fake" } ∧ t.children.map Rose.node = nodes.take 2
  /-- The node at index `i` has as children those at the indices `2 * i + 2` and `2 * i + 3` that there are, in order. -/
  node : ∀ i (h : i < nodes.length), ∃ u, t.sub? (pathOf i) = some u ∧ u.node = nodes[i] ∧
    u.children.map Rose.node = (nodes.drop (2 * i + 2)).take 2
  /-- A path to a node is the path of an index, and of no other. -/
  only : ∀ p u, t.sub? p = some u → p = [] ∨ ∃ i < nodes.length, p = pathOf i
  apart : ∀ i j, pathOf i = pathOf j → i = j
  /-- Every node of the list is below the root once. -/
  once : (t.beneath.map Rose.node).Perm nodes
  binary : ∀ u, u = t ∨ u ∈ t.beneath → u.children.length ≤ 2
  depth : ∀ p u, t.sub? p = some u → p.length ≤ Nat.log 2 (nodes.length + 1)
  /-- A node is below nodes that come before it only. -/
  order : ∀ i j q, pathOf j = pathOf i ++ q → q ≠ [] → i < j
  /-- All processes that a broadcast reaches together address every node of the list once. -/
  addressed : ∀ me b, ((t :: t.beneath).flatMap fun u => (Grain.addressed me b u).map fun p => (p.dst, p.ev.bt.node)).Perm
    (nodes.map fun x => (x.ip, x))

theorem slot_succ {nodes : List NodeElement} {i : Nat} (h : i < nodes.length) : slot nodes (i + 1) = nodes[i] := by
  unfold slot
  rw [if_neg (Nat.succ_ne_zero i), Nat.add_sub_cancel, List.getElem?_eq_getElem h]
  rfl

/-- The nodes in the slots below one. -/
theorem slot_kids (nodes : List NodeElement) (s : Nat) :
    (Heap.kids nodes.length s).map (slot nodes) = (nodes.drop (2 * s)).take 2 := by
  refine List.ext_getElem? fun i => ?_
  rw [List.getElem?_map, Heap.getElem?_kids, List.getElem?_take, List.getElem?_drop]
  by_cases hi : i < 2
  · by_cases hlt : 2 * s + i < nodes.length
    · have hle : 2 * s + 1 + i ≤ nodes.length := by omega
      rw [if_pos ⟨hi, hle⟩, if_pos hi, List.getElem?_eq_getElem hlt, Option.map_some, show 2 * s + 1 + i = 2 * s + i + 1 by omega,
        slot_succ hlt]
    · have hle : ¬ 2 * s + 1 + i ≤ nodes.length := by omega
      rw [if_neg fun h => hle h.2, if_pos hi, List.getElem?_eq_none (by omega)]
      rfl
  · rw [if_neg fun h => hi h.1, if_neg hi]
    rfl

theorem map_node_children (nodes : List NodeElement) (s : Nat) :
    (Heap.heap (slot nodes) nodes.length s).children.map Rose.node = (nodes.drop (2 * s)).take 2 := by
  have hnode : Rose.node ∘ Heap.heap (slot nodes) nodes.length = slot nodes := funext fun s => Heap.node_heap _ _ s
  rw [Heap.children_heap, List.map_map, hnode, slot_kids]

/-- What is below a heap-shaped tree is one. -/
theorem heap_of_beneath {l : Nat → NodeElement} {n s : Nat} {u : TreeNode} (h : u ∈ (Heap.heap l n s).beneath) :
    ∃ k, u = Heap.heap l n k := by
  refine Rose.beneath_induct (P := fun u => ∃ k, u = Heap.heap l n k) ?_ ?_ u h
  · intro d hd
    rw [Heap.children_heap] at hd
    obtain ⟨k, -, rfl⟩ := List.mem_map.1 hd
    exact ⟨k, rfl⟩
  · rintro c - ⟨k, rfl⟩ d hd
    rw [Heap.children_heap] at hd
    obtain ⟨j, -, rfl⟩ := List.mem_map.1 hd
    exact ⟨j, rfl⟩

theorem perm_addressed (me : String) (b : BroadcastMessage) (t : TreeNode) :
    ((t :: t.beneath).flatMap fun u => (addressed me b u).map fun p => (p.dst, p.ev.bt.node)).Perm
      (t.beneath.map fun u => (u.node.ip, u.node)) := by
  have hsent : (fun u => (addressed me b u).map fun p => (p.dst, p.ev.bt.node)) =
      fun u : TreeNode => u.children.map fun v => (v.node.ip, v.node) := by
    funext u
    unfold addressed Net.makeBroadcastMessageToTree
    dsimp only
    rw [List.nil_append, List.map_map]
    rfl
  rw [hsent, ← List.map_flatMap]
  exact (Rose.perm_flatMap_children t).map _

/-- `buildTree` builds the tree of a list of nodes, whatever its length. -/
theorem buildTree_shape (nodes : List NodeElement) (h : nodes ≠ []) : ∃ t, buildTree nodes = .ok t ∧ Shape nodes t := by
  have hperm := perm_buildTree (buildTree_heap h)
  refine ⟨_, buildTree_heap h, ?_⟩
  constructor
  case root =>
    refine ⟨Heap.node_heap _ _ _, ?_⟩
    rw [map_node_children]
    rfl
  case node =>
    intro i hi
    refine ⟨Heap.heap (slot nodes) nodes.length (i + 1), ?_, ?_, ?_⟩
    · rw [pathOf, Heap.sub?_heap (Nat.zero_le _) (Heap.binary_place _), Heap.descend_place, if_pos (by omega)]
    · rw [Heap.node_heap, slot_succ hi]
    · rw [map_node_children]
      rfl
  case only =>
    intro p u hu
    have hp := Heap.binary_of_sub? hu
    rw [Heap.sub?_heap (Nat.zero_le _) hp] at hu
    split at hu
    · rename_i hle
      cases hd : Heap.descend 0 p with
      | zero =>
        left
        rw [← Heap.place_descend hp, hd, Heap.place_zero]
      | succ i =>
        right
        rw [hd] at hle
        refine ⟨i, by omega, ?_⟩
        rw [pathOf, ← hd, Heap.place_descend hp]
    · cases hu
  case apart =>
    intro i j hij
    have hslot := congrArg (Heap.descend 0) hij
    rw [pathOf, pathOf, Heap.descend_place, Heap.descend_place] at hslot
    omega
  case once => exact hperm
  case binary =>
    intro u hu
    have hheap : ∃ k, u = Heap.heap (slot nodes) nodes.length k := by
      rcases hu with rfl | hu
      · exact ⟨0, rfl⟩
      · exact heap_of_beneath hu
    obtain ⟨k, rfl⟩ := hheap
    rw [Heap.children_heap, List.length_map]
    exact Heap.length_kids _ _
  case depth =>
    intro p u hu
    exact Heap.length_le_log hu
  case order =>
    intro i j q hq hne
    have hlt := Heap.lt_of_place hq hne
    omega
  case addressed =>
    intro me b
    refine (perm_addressed me b _).trans ?_
    have hmap := hperm.map fun x : NodeElement => (x.ip, x)
    rw [List.map_map] at hmap
    exact hmap

theorem buildTree_shape_sample : ∃ t, buildTree threeNodes = .ok t ∧ Shape threeNodes t :=
  buildTree_shape threeNodes (by decide)

end Grain
