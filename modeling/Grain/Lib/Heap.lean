import Grain.Lib.Rose

/-!
# Heap-shaped trees

The trees that are filled level by level, from left to right: the children of slot `s` are the slots `2 * s + 1` and `2 * s + 2`,
as far as there are so many. A slot is reached from the root by the path that its number writes, and a slot that is added next is
a child of slot `m / 2` of a tree whose last slot is `m`.
-/

namespace Heap

variable {α : Type} {l : Nat → α} {n m s : Nat} {p q : List Nat}

/-! ## Slots and paths -/

/-- A path that goes left and right only. -/
def Binary (p : List Nat) : Prop := ∀ i ∈ p, i < 2

/-- The slot at the end of a path from a slot. -/
def descend (s : Nat) (p : List Nat) : Nat := p.foldl (fun s i => 2 * s + 1 + i) s

@[simp] theorem descend_nil (s : Nat) : descend s [] = s := rfl

@[simp] theorem descend_cons (s i : Nat) (p : List Nat) : descend s (i :: p) = descend (2 * s + 1 + i) p := rfl

theorem descend_concat (s i : Nat) (p : List Nat) : descend s (p ++ [i]) = 2 * descend s p + 1 + i := by
  unfold descend
  rw [List.foldl_append]
  rfl

theorem Binary.of_concat {i : Nat} (h : Binary (p ++ [i])) : Binary p ∧ i < 2 := by
  refine ⟨fun j hj => h j (List.mem_append_left _ hj), h i ?_⟩
  exact List.mem_append_right _ List.mem_cons_self

theorem Binary.concat {i : Nat} (h : Binary p) (hi : i < 2) : Binary (p ++ [i]) := by
  intro j hj
  rcases List.mem_append.1 hj with hj | hj
  · exact h j hj
  · obtain rfl := List.mem_singleton.1 hj
    exact hi

/-- A path of this length leads at least so far. -/
theorem pow_le_descend (s : Nat) (p : List Nat) : (s + 1) * 2 ^ p.length ≤ descend s p + 1 := by
  induction p generalizing s with
  | nil => simp
  | cons i p ih =>
    have h := ih (2 * s + 1 + i)
    have hmul : (s + 1) * 2 ^ (p.length + 1) ≤ (2 * s + 1 + i + 1) * 2 ^ p.length := by
      rw [Nat.pow_succ, Nat.mul_comm (2 ^ p.length) 2, ← Nat.mul_assoc]
      exact Nat.mul_le_mul_right _ (by omega)
    exact hmul.trans h

theorem le_descend (s : Nat) (p : List Nat) : s ≤ descend s p := by
  have h := pow_le_descend s p
  have h1 : s + 1 ≤ (s + 1) * 2 ^ p.length := Nat.le_mul_of_pos_right _ (Nat.two_pow_pos _)
  omega

theorem lt_descend (s : Nat) (h : p ≠ []) : s < descend s p := by
  cases p with
  | nil => exact absurd rfl h
  | cons i p =>
    have := le_descend (2 * s + 1 + i) p
    rw [descend_cons]
    omega

/-- Different paths lead to different slots. -/
theorem descend_inj (hp : Binary p) (hq : Binary q) (h : descend s p = descend s q) : p = q := by
  induction p using List.reverseRecOn generalizing q with
  | nil =>
    by_contra hne
    have hlt : s < descend s q := lt_descend s (Ne.symm hne)
    rw [descend_nil] at h
    omega
  | append_singleton p i ih =>
    obtain ⟨hp, hi⟩ := hp.of_concat
    rcases List.eq_nil_or_concat q with rfl | ⟨q, j, rfl⟩
    · have hlt : s < descend s (p ++ [i]) := lt_descend s (by simp)
      rw [h, descend_nil] at hlt
      omega
    · rw [List.concat_eq_append] at h hq ⊢
      obtain ⟨hq, hj⟩ := hq.of_concat
      rw [descend_concat, descend_concat] at h
      have hij : i = j := by omega
      have hpq : descend s p = descend s q := by omega
      rw [hij, ih hp hq hpq]

/-- The path from the root to a slot. -/
def place : Nat → List Nat
  | 0 => []
  | m + 1 => place (m / 2) ++ [m % 2]

@[simp] theorem place_zero : place 0 = [] := by rw [place]

theorem place_succ (m : Nat) : place (m + 1) = place (m / 2) ++ [m % 2] := by rw [place]

theorem binary_place (s : Nat) : Binary (place s) := by
  induction s using Nat.strongRecOn with
  | ind s ih =>
    cases s with
    | zero =>
      rw [place_zero]
      exact fun i hi => absurd hi List.not_mem_nil
    | succ m =>
      rw [place_succ]
      exact (ih (m / 2) (by omega)).concat (by omega)

theorem descend_place (s : Nat) : descend 0 (place s) = s := by
  induction s using Nat.strongRecOn with
  | ind s ih =>
    cases s with
    | zero => rw [place_zero, descend_nil]
    | succ m =>
      rw [place_succ, descend_concat, ih (m / 2) (by omega)]
      omega

theorem place_descend (hp : Binary p) : place (descend 0 p) = p :=
  descend_inj (binary_place _) hp (descend_place _)

/-- What is at the end of a path from a slot is at the end of the path on. -/
theorem descend_append (s : Nat) (p q : List Nat) : descend s (p ++ q) = descend (descend s p) q := by
  unfold descend
  rw [List.foldl_append]

/-- A slot below another comes after it. -/
theorem lt_of_place (h : place m = place s ++ q) (hq : q ≠ []) : s < m := by
  have hm := descend_place m
  rw [h, descend_append, descend_place] at hm
  have := lt_descend s hq
  omega

/-! ## The tree -/

/-- The tree below slot `s` of the tree with the slots `0` to `n`, with the values that they have. -/
def heap (l : Nat → α) (n s : Nat) : Rose α :=
  .mk (l s) ((if 2 * s + 1 ≤ n then [heap l n (2 * s + 1)] else []) ++ if 2 * s + 2 ≤ n then [heap l n (2 * s + 2)] else [])
termination_by n - s

/-- The child slots that there are. -/
def kids (n s : Nat) : List Nat := [2 * s + 1, 2 * s + 2].filter (· ≤ n)

theorem heap_eq (l : Nat → α) (n s : Nat) : heap l n s = .mk (l s) ((kids n s).map (heap l n)) := by
  rw [heap, kids]
  congr 1
  by_cases h1 : 2 * s + 1 ≤ n <;> by_cases h2 : 2 * s + 2 ≤ n <;> simp [h1, h2]

@[simp] theorem node_heap (l : Nat → α) (n s : Nat) : (heap l n s).node = l s := by
  rw [heap_eq, Rose.node_mk]

@[simp] theorem children_heap (l : Nat → α) (n s : Nat) : (heap l n s).children = (kids n s).map (heap l n) := by
  rw [heap_eq, Rose.children_mk]

theorem mem_kids {c : Nat} : c ∈ kids n s ↔ (c = 2 * s + 1 ∨ c = 2 * s + 2) ∧ c ≤ n := by
  simp [kids]

theorem length_kids (n s : Nat) : (kids n s).length ≤ 2 := List.length_filter_le _ _

theorem getElem?_kids (n s i : Nat) : (kids n s)[i]? = if i < 2 ∧ 2 * s + 1 + i ≤ n then some (2 * s + 1 + i) else none := by
  unfold kids
  by_cases h1 : 2 * s + 1 ≤ n <;> by_cases h2 : 2 * s + 2 ≤ n
  · rcases i with _ | _ | i <;> simp [h1, h2]
  · rcases i with _ | _ | i <;> simp [h1, h2]
  · omega
  · rcases i with _ | _ | i <;> simp [h1, h2]

/-- The last slot makes no difference for a slot that it is not below. -/
theorem heap_succ (h : ∀ p, Binary p → descend s p ≠ m + 1) : heap l (m + 1) s = heap l m s := by
  induction hd : m + 1 - s using Nat.strongRecOn generalizing s with
  | ind d ih =>
    have hkids : kids (m + 1) s = kids m s := by
      refine List.ext_getElem? fun i => ?_
      rw [getElem?_kids, getElem?_kids]
      by_cases hi : i < 2
      · have hne : descend s [i] ≠ m + 1 := h [i] (by simpa [Binary] using hi)
        rw [descend_cons, descend_nil] at hne
        have hiff : (i < 2 ∧ 2 * s + 1 + i ≤ m + 1) ↔ (i < 2 ∧ 2 * s + 1 + i ≤ m) := by omega
        rw [if_congr hiff rfl rfl]
      · rw [if_neg fun hc => hi hc.1, if_neg fun hc => hi hc.1]
    rw [heap_eq, heap_eq, hkids]
    congr 1
    refine List.map_congr_left fun c hc => ?_
    obtain ⟨hc, hcm⟩ := mem_kids.1 hc
    refine ih (m + 1 - c) (by omega) ?_ rfl
    intro p hp
    rcases hc with rfl | rfl
    · exact h (0 :: p) (List.forall_mem_cons.2 ⟨by decide, hp⟩)
    · exact h (1 :: p) (List.forall_mem_cons.2 ⟨by decide, hp⟩)

/-- The tree at the end of a path. -/
theorem sub?_heap (hs : s ≤ n) (hp : Binary p) :
    (heap l n s).sub? p = if descend s p ≤ n then some (heap l n (descend s p)) else none := by
  induction p generalizing s with
  | nil => rw [Rose.sub?, descend_nil, if_pos hs]
  | cons i p ih =>
    obtain ⟨hi, hp⟩ := List.forall_mem_cons.1 hp
    rw [heap_eq, Rose.sub?, List.getElem?_map, getElem?_kids, descend_cons]
    by_cases hc : 2 * s + 1 + i ≤ n
    · rw [if_pos ⟨hi, hc⟩]
      exact ih hc hp
    · have hlt := le_descend (2 * s + 1 + i) p
      rw [if_neg fun h => hc h.2, if_neg (by omega)]
      rfl

/-- Nothing is at the end of another path. -/
theorem binary_of_sub? {u : Rose α} (h : (heap l n s).sub? p = some u) : Binary p := by
  induction p generalizing s with
  | nil => exact fun i hi => absurd hi List.not_mem_nil
  | cons i p ih =>
    rw [heap_eq, Rose.sub?, List.getElem?_map, getElem?_kids] at h
    split at h
    · rename_i hc
      exact List.forall_mem_cons.2 ⟨hc.1, ih h⟩
    · cases h

/-- A tree in which something is at the end of a path has as many slots as a tree of this height at least. -/
theorem length_le_log {u : Rose α} (h : (heap l n 0).sub? p = some u) : p.length ≤ Nat.log 2 (n + 1) := by
  have hp := binary_of_sub? h
  rw [sub?_heap (Nat.zero_le n) hp] at h
  split at h
  · rename_i hle
    have hpow := pow_le_descend 0 p
    exact Nat.le_log_of_pow_le (by decide) (by omega)
  · cases h

/-! ## Filling it -/

/-- The number of children of the slot whose child is the next one to fill. -/
theorem degree_heap (hs : s ≤ m) (hp : Binary p) (h : descend s p = m / 2) : (heap l m s).degree p = m % 2 := by
  induction p generalizing s with
  | nil =>
    rw [descend_nil] at h
    rw [heap_eq, Rose.degree, List.length_map, kids]
    by_cases h1 : 2 * s + 1 ≤ m <;> by_cases h2 : 2 * s + 2 ≤ m <;> simp [h1, h2] <;> omega
  | cons i p ih =>
    obtain ⟨hi, hp⟩ := List.forall_mem_cons.1 hp
    have hle := le_descend (2 * s + 1 + i) p
    rw [descend_cons] at h
    have hc : 2 * s + 1 + i ≤ m := by omega
    rw [heap_eq, Rose.degree, List.getElem?_map, getElem?_kids, if_pos ⟨hi, hc⟩]
    exact ih hc hp h

theorem kids_last (h : s = m / 2) : kids (m + 1) s = kids m s ++ [m + 1] := by
  subst h
  unfold kids
  rcases Nat.even_or_odd' m with ⟨k, rfl | rfl⟩
  · have hk : 2 * k / 2 = k := by omega
    simp [hk]
  · have hk : (2 * k + 1) / 2 = k := by omega
    simp [hk]

theorem heap_last (l : Nat → α) (n : Nat) : heap l n n = .mk (l n) [] := by
  have hkids : kids n n = [] := by
    refine List.eq_nil_iff_forall_not_mem.2 fun c hc => ?_
    have := mem_kids.1 hc
    omega
  rw [heap_eq, hkids, List.map_nil]

/-- The last slot is below one child of a slot only. -/
theorem heap_sibling {i j : Nat} (hi : i < 2) (hj : j < 2) (hij : i ≠ j) (hp : Binary p)
    (h : descend (2 * s + 1 + i) p = m + 1) : heap l (m + 1) (2 * s + 1 + j) = heap l m (2 * s + 1 + j) := by
  refine heap_succ fun q hq he => hij ?_
  have hpath : i :: p = j :: q :=
    descend_inj (s := s) (List.forall_mem_cons.2 ⟨hi, hp⟩) (List.forall_mem_cons.2 ⟨hj, hq⟩) (h.trans he.symm)
  exact (List.cons.inj hpath).1

/-- The next slot is filled by a child of its parent. -/
theorem addChild_heap (hs : s ≤ m) (hp : Binary p) (h : descend s p = m / 2) :
    (heap l m s).addChild (l (m + 1)) p = heap l (m + 1) s := by
  induction p generalizing s with
  | nil =>
    rw [descend_nil] at h
    rw [heap_eq, heap_eq l (m + 1), Rose.addChild, kids_last h, List.map_append, List.map_singleton, heap_last]
    congr 2
    refine List.map_congr_left fun c hc => (heap_succ fun q hq he => ?_).symm
    have hc := mem_kids.1 hc
    have hpow := pow_le_descend c q
    -- a child of `m / 2` is at least `m`, so the last slot is its sibling
    rcases q with _ | ⟨i, q⟩
    · rw [descend_nil] at he
      omega
    · have hle := le_descend (2 * c + 1 + i) q
      rw [descend_cons] at he
      omega
  | cons i p ih =>
    obtain ⟨hi, hp⟩ := List.forall_mem_cons.1 hp
    have hle := le_descend (2 * s + 1 + i) p
    rw [descend_cons] at h
    have hc : 2 * s + 1 + i ≤ m := by omega
    have hlast : descend (2 * s + 1 + i) (p ++ [m % 2]) = m + 1 := by
      rw [descend_concat, h]
      omega
    rw [heap_eq, heap_eq l (m + 1), Rose.addChild]
    congr 1
    refine List.ext_getElem? fun j => ?_
    rw [List.getElem?_modify, List.getElem?_map, List.getElem?_map, getElem?_kids, getElem?_kids]
    by_cases hij : i = j
    · subst hij
      have hc' : 2 * s + 1 + i ≤ m + 1 := by omega
      simp [hi, hc, hc', ih hc hp h]
    · by_cases hj : j < 2
      · have hne : 2 * s + 1 + j ≠ m + 1 := by
          intro he
          have hlt : s < m / 2 := by omega
          omega
        have hsib := heap_sibling (l := l) hi hj hij (Binary.concat hp (by omega)) hlast
        by_cases hjm : 2 * s + 1 + j ≤ m
        · have hjm' : 2 * s + 1 + j ≤ m + 1 := by omega
          simp [hij, hj, hjm, hjm', hsib]
        · have hjm' : ¬ 2 * s + 1 + j ≤ m + 1 := by omega
          simp [hjm, hjm']
      · simp [hj]

end Heap
