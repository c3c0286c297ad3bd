import Mathlib.Algebra.BigOperators.Group.List.Basic
import Mathlib.Data.List.Nodup

/-!
# Sums over a finite map

The sum of a function over the entries of a tree map, and what an insertion and an erasure do to it: the entry that was under
the key leaves the sum, and the new one enters it.
-/

namespace MapSum

variable {κ ν M : Type} {cmp : κ → κ → Ordering} [Std.TransCmp cmp] [Std.LawfulEqCmp cmp]

/-- The entries of a map under different keys are different. -/
theorem nodup_toList (m : Std.ExtTreeMap κ ν cmp) : m.toList.Nodup := by
  refine List.Pairwise.imp ?_ m.distinct_keys_toList
  intro a b hab he
  exact hab (Std.LawfulEqCmp.compare_eq_iff_eq.2 (congrArg Prod.fst he))

theorem mem_toList_erase {m : Std.ExtTreeMap κ ν cmp} {k : κ} {e : κ × ν} :
    e ∈ (m.erase k).toList ↔ e.1 ≠ k ∧ e ∈ m.toList := by
  obtain ⟨a, v⟩ := e
  rw [Std.ExtTreeMap.mem_toList_iff_getElem?_eq_some, Std.ExtTreeMap.mem_toList_iff_getElem?_eq_some,
    Std.ExtTreeMap.getElem?_erase]
  by_cases hk : k = a
  · simp [hk]
  · simp [hk, Ne.symm hk]

/-- The entry under a key, and the others. -/
theorem perm_of_getElem? {m : Std.ExtTreeMap κ ν cmp} {k : κ} {v : ν} (h : m[k]? = some v) :
    m.toList.Perm ((k, v) :: (m.erase k).toList) := by
  refine (List.perm_ext_iff_of_nodup (nodup_toList m) ?_).2 ?_
  · refine List.nodup_cons.2 ⟨?_, nodup_toList _⟩
    intro hk
    exact (mem_toList_erase.1 hk).1 rfl
  · intro e
    obtain ⟨a, w⟩ := e
    rw [List.mem_cons, mem_toList_erase, Std.ExtTreeMap.mem_toList_iff_getElem?_eq_some]
    by_cases ha : a = k
    · subst ha
      simp [h, eq_comm]
    · simp [ha]

theorem erase_insert (m : Std.ExtTreeMap κ ν cmp) (k : κ) (v : ν) : (m.insert k v).erase k = m.erase k := by
  apply Std.ExtTreeMap.ext_getElem?
  intro a
  by_cases ha : k = a
  · simp [ha]
  · simp [Std.ExtTreeMap.getElem?_erase, Std.ExtTreeMap.getElem?_insert, ha]

variable [AddCommMonoid M]

/-- The sum of a function over the entries. -/
def total (f : κ → ν → M) (m : Std.ExtTreeMap κ ν cmp) : M := (m.toList.map fun e => f e.1 e.2).sum

/-- What is under a key; nothing counts as zero. -/
def under (f : κ → ν → M) (m : Std.ExtTreeMap κ ν cmp) (k : κ) : M := (m[k]?.map (f k)).getD 0

omit [Std.LawfulEqCmp cmp] in
@[simp] theorem total_empty (f : κ → ν → M) : total f (∅ : Std.ExtTreeMap κ ν cmp) = 0 := by
  have h : (∅ : Std.ExtTreeMap κ ν cmp).toList = [] := Std.ExtTreeMap.toList_eq_nil_iff.2 rfl
  simp [total, h]

theorem total_eq_add_erase (f : κ → ν → M) (m : Std.ExtTreeMap κ ν cmp) (k : κ) :
    total f m = under f m k + total f (m.erase k) := by
  unfold under
  cases h : m[k]? with
  | none =>
    have he : m.erase k = m := by
      apply Std.ExtTreeMap.ext_getElem?
      intro a
      by_cases ha : k = a
      · simp [← ha, h]
      · simp [Std.ExtTreeMap.getElem?_erase, ha]
    simp [he]
  | some v =>
    have hp := ((perm_of_getElem? h).map fun e => f e.1 e.2).sum_eq
    simpa [total] using hp

/-- An insertion exchanges what is under the key. -/
theorem total_insert (f : κ → ν → M) (m : Std.ExtTreeMap κ ν cmp) (k : κ) (v : ν) :
    total f (m.insert k v) + under f m k = total f m + f k v := by
  have h1 := total_eq_add_erase f (m.insert k v) k
  have h2 := total_eq_add_erase f m k
  rw [erase_insert] at h1
  have h3 : under f (m.insert k v) k = f k v := by simp [under]
  calc total f (m.insert k v) + under f m k
      = f k v + total f (m.erase k) + under f m k := by rw [h1, h3]
    _ = under f m k + total f (m.erase k) + f k v := by rw [add_comm, add_comm (f k v), add_assoc]
    _ = total f m + f k v := by rw [h2]

end MapSum
