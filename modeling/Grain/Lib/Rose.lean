import Mathlib

/-!
# Rose trees

Trees whose nodes have any number of children, with the nodes below a node, and the operation that appends a child at a path.
A path is a list of positions, so it keeps pointing to the same node when children are appended.
-/

/-- A tree: a value, and the children from first to last. -/
inductive Rose (α : Type)
  | mk (node : α) (children : List (Rose α))

namespace Rose

variable {α : Type}

/-- The value at the root. -/
def node : Rose α → α
  | mk a _ => a

/-- The children of the root. -/
def children : Rose α → List (Rose α)
  | mk _ ch => ch

@[simp] theorem node_mk (a : α) (ch : List (Rose α)) : (mk a ch).node = a := rfl

@[simp] theorem children_mk (a : α) (ch : List (Rose α)) : (mk a ch).children = ch := rfl

/-- A property that passes from the children to their parent holds of all trees. -/
theorem ind {P : Rose α → Prop} (h : ∀ a ch, (∀ t ∈ ch, P t) → P (mk a ch)) : ∀ t, P t
  | mk a ch => h a ch fun t ht => by
    have := List.sizeOf_lt_of_mem ht
    exact ind h t
termination_by t => sizeOf t
decreasing_by
  rw [Rose.mk.sizeOf_spec]
  omega

mutual
/-- The subtrees below the root, each with what is below it. -/
def beneath : Rose α → List (Rose α)
  | mk _ ch => beneathAll ch

/-- The trees of a list, each with what is below it. -/
def beneathAll : List (Rose α) → List (Rose α)
  | [] => []
  | t :: ts => t :: (beneath t ++ beneathAll ts)
end

@[simp] theorem beneath_mk (a : α) (ch : List (Rose α)) : (mk a ch).beneath = beneathAll ch := by rw [beneath]

@[simp] theorem beneathAll_nil : beneathAll ([] : List (Rose α)) = [] := by rw [beneathAll]

@[simp] theorem beneathAll_cons (t : Rose α) (ts : List (Rose α)) : beneathAll (t :: ts) = t :: (t.beneath ++ beneathAll ts) := by
  rw [beneathAll]

theorem beneathAll_append (ts us : List (Rose α)) : beneathAll (ts ++ us) = beneathAll ts ++ beneathAll us := by
  induction ts with
  | nil => simp
  | cons t ts ih => simp [ih]

/-- What is in the list of a forest: its trees, and what is below them. -/
theorem mem_beneathAll {x : Rose α} {ts : List (Rose α)} : x ∈ beneathAll ts ↔ ∃ t ∈ ts, x = t ∨ x ∈ t.beneath := by
  induction ts with
  | nil => simp
  | cons t ts ih =>
    rw [beneathAll_cons, List.mem_cons, List.mem_append, ih]
    constructor
    · rintro (rfl | h | ⟨u, hu, h⟩)
      · exact ⟨x, List.mem_cons_self, .inl rfl⟩
      · exact ⟨t, List.mem_cons_self, .inr h⟩
      · exact ⟨u, List.mem_cons_of_mem _ hu, h⟩
    · rintro ⟨u, hu, h⟩
      rcases List.mem_cons.1 hu with rfl | hu
      · rcases h with rfl | h
        · exact .inl rfl
        · exact .inr (.inl h)
      · exact .inr (.inr ⟨u, hu, h⟩)

theorem mem_beneath {x t : Rose α} : x ∈ t.beneath ↔ ∃ u ∈ t.children, x = u ∨ x ∈ u.beneath := by
  cases t with
  | mk a ch => rw [beneath_mk, mem_beneathAll, children_mk]

/-- The property holds of the tree and of every subtree below it. -/
def All (P : Rose α → Prop) (t : Rose α) : Prop := ∀ u, u = t ∨ u ∈ t.beneath → P u

theorem all_mk {P : Rose α → Prop} {a : α} {ch : List (Rose α)} : (mk a ch).All P ↔ P (mk a ch) ∧ ∀ t ∈ ch, t.All P := by
  constructor
  · intro h
    refine ⟨h _ (.inl rfl), ?_⟩
    intro t ht u hu
    exact h u (.inr (mem_beneath.2 ⟨t, ht, hu⟩))
  · rintro ⟨h, hch⟩ u (rfl | hu)
    · exact h
    · obtain ⟨t, ht, hu⟩ := mem_beneath.1 hu
      exact hch t ht u hu

theorem mem_beneath_of_mem_children {x t : Rose α} (h : x ∈ t.children) : x ∈ t.beneath := mem_beneath.2 ⟨x, h, .inl rfl⟩

/-- What is below something below a tree is below the tree. -/
theorem beneath_trans {x u t : Rose α} (hu : u ∈ t.beneath) (hx : x ∈ u.beneath) : x ∈ t.beneath := by
  revert hu
  refine ind (P := fun t => u ∈ t.beneath → x ∈ t.beneath) ?_ t
  intro a ch ih hu
  obtain ⟨v, hv, h⟩ := mem_beneath.1 hu
  rcases h with rfl | h
  · exact mem_beneath.2 ⟨u, hv, .inr hx⟩
  · exact mem_beneath.2 ⟨v, hv, .inr (ih v hv h)⟩

/-- A property that a tree's children have, and that passes from anything below the tree to its children, holds of everything
below the tree. -/
theorem beneath_induct {t : Rose α} {P : Rose α → Prop} (h0 : ∀ d ∈ t.children, P d)
    (hs : ∀ c ∈ t.beneath, P c → ∀ d ∈ c.children, P d) : ∀ x ∈ t.beneath, P x := by
  have key : ∀ u : Rose α, (∀ d ∈ u.children, P d) → (∀ c ∈ u.beneath, P c → ∀ d ∈ c.children, P d) → ∀ x ∈ u.beneath, P x := by
    refine ind ?_
    intro a ch ih h0 hs x hx
    obtain ⟨v, hv, h⟩ := mem_beneath.1 hx
    have hPv : P v := h0 v hv
    rcases h with rfl | h
    · exact hPv
    · have hvb : v ∈ (mk a ch).beneath := mem_beneath_of_mem_children hv
      exact ih v hv (hs v hvb hPv) (fun c hc => hs c (beneath_trans hvb hc)) x h
  exact key t h0 hs

theorem perm_flatMap_beneathAll {ts : List (Rose α)} (h : ∀ t ∈ ts, ((t :: t.beneath).flatMap children).Perm t.beneath) :
    ((beneathAll ts).flatMap children ++ ts).Perm (beneathAll ts) := by
  induction ts with
  | nil => simp
  | cons t ts ih =>
    have ht := h t List.mem_cons_self
    have hts := ih fun u hu => h u (List.mem_cons_of_mem _ hu)
    rw [List.flatMap_cons] at ht
    rw [beneathAll_cons, List.flatMap_cons, List.flatMap_append, ← List.append_assoc, List.append_assoc _ _ (t :: ts)]
    refine (ht.append_right _).trans ?_
    rw [List.append_cons, ← List.append_assoc]
    have hmove : (t.beneath ++ ((beneathAll ts).flatMap children ++ [t]) ++ ts).Perm
        (t.beneath ++ (t :: ((beneathAll ts).flatMap children ++ ts))) := by
      rw [List.append_assoc, List.append_assoc]
      exact List.perm_middle.append_left _
    refine hmove.trans (List.perm_middle.trans ?_)
    exact (hts.append_left _).cons t

/-- Everything below the root is a child of one node. -/
theorem perm_flatMap_children (t : Rose α) : ((t :: t.beneath).flatMap children).Perm t.beneath := by
  refine ind (P := fun t => ((t :: t.beneath).flatMap children).Perm t.beneath) ?_ t
  intro a ch ih
  rw [List.flatMap_cons, beneath_mk, children_mk]
  exact List.perm_append_comm.trans (perm_flatMap_beneathAll ih)

/-! ## Appending a child -/

/-- Append a child without children to the node at a path. -/
def addChild (a : α) : List Nat → Rose α → Rose α
  | [], mk b ch => mk b (ch ++ [mk a []])
  | i :: p, mk b ch => mk b (ch.modify i (addChild a p))

/-- The number of children of the node at a path. -/
def degree : List Nat → Rose α → Nat
  | [], mk _ ch => ch.length
  | i :: p, mk _ ch => (ch[i]?.map (degree p)).getD 0

/-- The path leads to a node. -/
def Reaches : List Nat → Rose α → Prop
  | [], _ => True
  | i :: p, mk _ ch => ∃ t, ch[i]? = some t ∧ Reaches p t

/-- The tree at the end of a path. -/
def sub? : List Nat → Rose α → Option (Rose α)
  | [], t => some t
  | i :: p, mk _ ch => ch[i]?.bind (sub? p)

@[simp] theorem node_addChild (a : α) (p : List Nat) (t : Rose α) : (t.addChild a p).node = t.node := by
  cases t
  cases p <;> rfl

theorem beneathAll_modify {ts : List (Rose α)} {i : Nat} {t : Rose α} {f : Rose α → Rose α} {a : α} (h : ts[i]? = some t)
    (hn : (f t).node = t.node) (hb : ((f t).beneath.map node).Perm (a :: t.beneath.map node)) :
    ((beneathAll (ts.modify i f)).map node).Perm (a :: (beneathAll ts).map node) := by
  induction ts generalizing i with
  | nil => simp at h
  | cons u ts ih =>
    cases i with
    | zero =>
      obtain rfl : u = t := by simpa using h
      rw [List.modify_zero_cons, beneathAll_cons, beneathAll_cons, List.map_cons, List.map_append, List.map_cons, List.map_append, hn]
      have h1 := (hb.append_right ((beneathAll ts).map node)).cons u.node
      exact h1.trans (List.Perm.swap _ _ _)
    | succ i =>
      have hi : ts[i]? = some t := by simpa using h
      rw [List.modify_succ_cons, beneathAll_cons, beneathAll_cons, List.map_cons, List.map_append, List.map_cons, List.map_append]
      have h1 := ((ih hi).append_left (u.beneath.map node)).cons u.node
      exact h1.trans ((List.perm_middle.cons _).trans (List.Perm.swap _ _ _))

/-- Appending a child adds its value to the values below the root. -/
theorem beneath_addChild (a : α) {p : List Nat} {t : Rose α} (h : Reaches p t) :
    ((t.addChild a p).beneath.map node).Perm (a :: t.beneath.map node) := by
  induction p generalizing t with
  | nil =>
    cases t with
    | mk b ch =>
      rw [addChild, beneath_mk, beneath_mk, beneathAll_append, List.map_append]
      simp
  | cons i p ih =>
    cases t with
    | mk b ch =>
      obtain ⟨t, ht, hp⟩ := h
      rw [addChild, beneath_mk, beneath_mk]
      exact beneathAll_modify ht (node_addChild a p t) (ih hp)

/-- Paths stay good. -/
theorem Reaches.addChild {a : α} {p q : List Nat} {t : Rose α} (h : Reaches q t) : Reaches q (t.addChild a p) := by
  induction q generalizing p t with
  | nil => trivial
  | cons j q ih =>
    cases t with
    | mk b ch =>
      obtain ⟨u, hu, hq⟩ := h
      cases p with
      | nil =>
        have hj : j < ch.length := (List.getElem?_eq_some_iff.1 hu).1
        exact ⟨u, by rw [List.getElem?_append_left hj, hu], hq⟩
      | cons i p =>
        by_cases hij : i = j
        · subst hij
          exact ⟨u.addChild a p, by rw [List.getElem?_modify_eq, hu]; rfl, ih hq⟩
        · exact ⟨u, by rw [List.getElem?_modify_ne _ _ hij, hu], hq⟩

/-- The path of the child that is appended. -/
theorem reaches_addChild {a : α} {p : List Nat} {t : Rose α} (h : Reaches p t) :
    Reaches (p ++ [t.degree p]) (t.addChild a p) := by
  induction p generalizing t with
  | nil =>
    cases t with
    | mk b ch =>
      refine ⟨mk a [], ?_, trivial⟩
      rw [degree, List.getElem?_append_right (Nat.le_refl _), Nat.sub_self]
      rfl
  | cons i p ih =>
    cases t with
    | mk b ch =>
      obtain ⟨t, ht, hp⟩ := h
      refine ⟨t.addChild a p, by rw [List.getElem?_modify_eq, ht]; rfl, ?_⟩
      have hd : degree (i :: p) (mk b ch) = t.degree p := by rw [degree, ht]; rfl
      rw [hd]
      exact ih hp

end Rose
