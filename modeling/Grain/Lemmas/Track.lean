import Grain.Lemmas.Change

/-!
# Following one leaf

A leaf that is recorded in the hashes on its way up (`Tracked`) is found by every lookup, whatever is marked, made, hashed or
rolled back around it, and its pointer stays the same; only its own payload can be replaced, by the rollback. `V` is what is
known of the payload object and its number.
-/

namespace Grain

namespace Store

/-! ## Lookups -/

/-- Every number on the way up is the one that is in place. -/
def Current (s : Store) (c : CellPtr) : Prop := ∀ n id c', (n, id) :: c' <:+ c → n = (s.cell c').gen id

theorem current_child {s : Store} {c : CellPtr} (h : Current s c) (id : Nat) : Current s (s.child c id) := by
  intro n id' c' hs
  rcases List.suffix_cons_iff.1 hs with he | hs
  · simp only [List.cons.injEq, Prod.mk.injEq] at he
    obtain ⟨⟨rfl, rfl⟩, rfl⟩ := he
    rfl
  · exact h n id' c' hs

/-- Two pointers that are in place on the same path are the same. -/
theorem Current.eq {s : Store} {c q : CellPtr} (hc : Current s c) (hq : Current s q) (h : getDbId c = getDbId q) : c = q := by
  have hlen : c.length = q.length := by rw [← length_getDbId, ← length_getDbId, h]
  induction c generalizing q with
  | nil => exact (List.length_eq_zero_iff.1 hlen.symm).symm
  | cons x c ih =>
    obtain ⟨y, q, rfl⟩ := List.exists_cons_of_length_eq_add_one hlen.symm
    obtain ⟨n, id⟩ := x
    obtain ⟨m, id'⟩ := y
    rw [getDbId_cons, getDbId_cons] at h
    obtain ⟨h1, h2⟩ := List.append_inj' h rfl
    obtain rfl : id = id' := by simpa using h2
    have hcq : c = q := ih (fun n id c' hs => hc n id c' (hs.trans (List.suffix_cons _ _)))
      (fun n id c' hs => hq n id c' (hs.trans (List.suffix_cons _ _))) h1 (by simpa using hlen)
    subst hcq
    have hn := hc n id c (List.suffix_refl _)
    have hm := hq m id c (List.suffix_refl _)
    rw [hn, hm]

theorem replaceLeafNoCreate_some {s : Store} {c p : CellPtr} {id : Nat}
    (h : s.replaceLeafNoCreate c id = .ok (some p)) : p = s.child c id := by
  unfold replaceLeafNoCreate at h
  repeat' split at h
  all_goals simp_all

/-- What a lookup finds is the cell on the path that is in place. -/
theorem resolve_some {s : Store} {ids : Path} {c p : CellPtr} (hc : Current s c) (h : s.resolve ids c = .ok (some p)) :
    getDbId p = getDbId c ++ ids ∧ Current s p := by
  induction ids generalizing c with
  | nil =>
    simp only [resolve, Except.ok.injEq, Option.some.injEq] at h
    subst h
    exact ⟨by simp, hc⟩
  | cons id ids ih =>
    unfold resolve at h
    split at h
    · rename_i p' he
      rw [replaceLeafNoCreate_some he] at h
      obtain ⟨h1, h2⟩ := ih (current_child hc id) h
      exact ⟨by simpa using h1, h2⟩
    · nomatch h
    · nomatch h

theorem current_nil (s : Store) : Current s [] := by
  intro n id c' hs
  simp at hs

theorem getByPathNoCreate_some {s : Store} {p : Path} {c : CellPtr} (h : s.getByPathNoCreate p = .ok (some c)) :
    getDbId c = p ∧ Current s c := by
  obtain ⟨h1, h2⟩ := resolve_some (current_nil s) h
  exact ⟨by simpa using h1, h2⟩

theorem resolve_append (s : Store) (ids : Path) (id : Nat) (c : CellPtr) :
    s.resolve (ids ++ [id]) c = match s.resolve ids c with
      | .ok (some p) => s.replaceLeafNoCreate p id
      | .ok none => .ok none
      | .error e => .error e := by
  induction ids generalizing c with
  | nil =>
    simp only [List.nil_append, resolve]
    split <;> rename_i he <;> rw [he]
  | cons i ids ih =>
    simp only [List.cons_append, resolve]
    split
    · exact ih _
    · rfl
    · rfl

/-- Marking keeps the numbers of all places. -/
theorem setDirty_gens (s : Store) (roll : Bool) (p c : CellPtr) : ((s.setDirty roll p).cell c).gens = (s.cell c).gens := by
  refine (setDirty_changes s roll p).inv (I := fun t => (t.cell c).gens = (s.cell c).gens) ?_ rfl
  rintro k u v rfl huv ih
  rw [← ih]
  cases huv with
  | snapshot => simp
  | _ =>
    rw [cell_setCell]
    split
    · rename_i he
      simp [he]
    · rfl

/-- A new child leaves the numbers of the other cells. -/
theorem newChild_gens (s : Store) {c c' : CellPtr} {id : Nat} (h : c' ≠ s.child c id) :
    ((s.newChild c id).cell c').gens = (s.cell c').gens := by
  simp only [newChild, cell_setCell, h, if_false]
  split
  · rename_i he
    simp [he]
  · rfl

/-- A creating lookup of a child finds the one in place, and keeps the numbers of the cells that are not below its cell. -/
theorem replaceLeafOrCreate_spec (s : Store) (roll : Bool) (c : CellPtr) (id : Nat) :
    (∀ c', c'.length ≤ c.length → ((s.replaceLeafOrCreate roll c id).2.cell c').gens = (s.cell c').gens) ∧
      ∀ p, (s.replaceLeafOrCreate roll c id).1 = .ok (some p) → p = s.child c id := by
  unfold replaceLeafOrCreate
  split
  · exact ⟨fun _ _ => rfl, fun p => replaceLeafNoCreate_some⟩
  set s1 := if roll then s.snapshot c else s with hs1
  have hcell : s1.cell = s.cell := by
    rw [hs1]
    split <;> simp
  set s2 := s1.setCell c ((s1.cell c).withHash id .empty) with hs2
  have hgens : ∀ c', (s2.cell c').gens = (s.cell c').gens := by
    intro c'
    rw [hs2, cell_setCell, hcell]
    split
    · rename_i he
      simp [he]
    · rfl
  dsimp only
  split
  · exact ⟨fun c' _ => hgens c', nofun⟩
  refine ⟨fun c' hc' => ?_, fun p hp => ?_⟩
  · have hne : c' ≠ s2.child c id := by
      rintro rfl
      simp only [child, List.length_cons] at hc'
      omega
    rw [setDirty_gens, newChild_gens _ hne, hgens]
  · simp only [Except.ok.injEq, Option.some.injEq] at hp
    rw [← hp, child, child, Cell.gen, Cell.gen, hgens]

/-- What a creating lookup returns is the cell on the path that is in place after it. -/
theorem resolveOrCreate_some {roll : Bool} {ids : Path} {c p : CellPtr} {s : Store} (hc : Current s c)
    (h : (resolveOrCreate roll ids c s).1 = .ok (some p)) :
    getDbId p = getDbId c ++ ids ∧ Current (resolveOrCreate roll ids c s).2 p := by
  induction ids generalizing c s with
  | nil =>
    simp only [resolveOrCreate, Except.ok.injEq, Option.some.injEq] at h
    subst h
    exact ⟨by simp, hc⟩
  | cons id ids ih =>
    obtain ⟨h1, h2⟩ := replaceLeafOrCreate_spec s roll c id
    unfold resolveOrCreate at h ⊢
    split at h
    · rename_i p' t he
      rw [he] at h1 h2
      rw [h2 p' rfl] at h he
      have hcur : Current t (s.child c id) := by
        intro n id' c' hs
        rw [Cell.gen, h1 c' ?_]
        · exact current_child hc id n id' c' hs
        · have := hs.length_le
          simpa [child] using this
      obtain ⟨h3, h4⟩ := ih hcur h
      rw [h2 p' rfl]
      exact ⟨by simpa using h3, h4⟩
    · cases h
    · cases h

/-! ## Places -/

/-- The place `id` of the cell `c` holds the child number `n`, and a rollback leaves it there. -/
structure Slot (s : Store) (n : Nat) (id : Nat) (c : CellPtr) : Prop where
  gen : (s.cell c).gen id = n
  hashed : id ∈ (s.cell c).hashes
  stored : id ∉ (s.cell c).ptrs → ∃ b, s.db[getDbId c ++ [id]]? = some b ∧ (s.cell c).hashes[id]? = some b.hash ∧ Loadable b
  logged : ∀ b, (c, b) ∈ s.roll → id ∈ b.hashes ∧ (id ∉ (s.cell c).ptrs → b.hashes[id]? = (s.cell c).hashes[id]?)

namespace Slot

variable {s t : Store} {n : Nat} {id : Nat} {c : CellPtr}

theorem replaceLeafNoCreate (h : Slot s n id c) : s.replaceLeafNoCreate c id = .ok (some ((n, id) :: c)) := by
  have hc : s.child c id = (n, id) :: c := by rw [child, h.gen]
  unfold Store.replaceLeafNoCreate
  split
  · rw [hc]
  · rename_i hp
    obtain ⟨b, hb, hh, hl⟩ := h.stored hp
    simp [hh, hb, hl, hc]

/-- A place is only read from its cell, the database and the log. -/
theorem of_eq (h : Slot s n id c) (hg : (t.cell c).gens = (s.cell c).gens) (hh : (t.cell c).hashes = (s.cell c).hashes)
    (hp : ∀ i, i ∈ (s.cell c).ptrs → i ∈ (t.cell c).ptrs) (hd : t.db = s.db)
    (hr : ∀ b, (c, b) ∈ t.roll → (c, b) ∈ s.roll ∨ b.hashes = (s.cell c).hashes) : Slot t n id c where
  gen := by rw [Cell.gen, hg]; exact h.gen
  hashed := by rw [hh]; exact h.hashed
  stored hid := by
    rw [hh, hd]
    exact h.stored fun hi => hid (hp id hi)
  logged b hb := by
    rw [hh]
    rcases hr b hb with hb | hb
    · obtain ⟨h1, h2⟩ := h.logged b hb
      exact ⟨h1, fun hid => h2 fun hi => hid (hp id hi)⟩
    · rw [hb]
      exact ⟨h.hashed, fun _ => rfl⟩

/-- Another place of the same cell gets or loses its child. -/
theorem of_hash {id' : Nat} (h : Slot s n id c) (hne : id' ≠ id) {k : Cell} (hg : k.gen id = (s.cell c).gen id)
    (hh : k.hashes[id]? = (s.cell c).hashes[id]?) (hp : id ∈ (s.cell c).ptrs → id ∈ k.ptrs) : Slot (s.setCell c k) n id c where
  gen := by simpa [hg] using h.gen
  hashed := by
    rw [StdMap.mem_iff] at *
    simpa [hh] using (StdMap.mem_iff _ _).1 h.hashed
  stored hid := by
    simp only [cell_setCell, if_true] at hid
    simpa [hh] using h.stored fun hi => hid (hp hi)
  logged b hb := by
    obtain ⟨h1, h2⟩ := h.logged b (by simpa using hb)
    refine ⟨h1, fun hid => ?_⟩
    simp only [cell_setCell, if_true] at hid
    simpa [hh] using h2 fun hi => hid (hp hi)

end Slot

/-- The two pointers do not disagree about a number on their common way up. -/
def Avoids (q p : CellPtr) : Prop := ∀ n m id c, (n, id) :: c <:+ p → (m, id) :: c <:+ q → n = m

theorem Avoids.suffix {q p p' : CellPtr} (h : Avoids q p) (hs : p' <:+ p) : Avoids q p' :=
  fun n m id c h1 h2 => h n m id c (h1.trans hs) h2

/-- The leaf at `q` is recorded on its way up, and its payload object satisfies `V`. -/
structure Tracked (V : Nat → DataObj → Prop) (s : Store) (q : CellPtr) : Prop where
  path : ∀ n id c, (n, id) :: c <:+ q → Slot s n id c
  data : ∃ g, (s.cell q).data = some g ∧ V g (s.deref ⟨g, q⟩)

/-- The logged payloads of `q` satisfy `L`. -/
def Logged (L : DataObj → Prop) (s : Store) (q : CellPtr) : Prop := ∀ b, (q, b) ∈ s.roll → ∀ o, b.data = some o → L o

section Tracked

variable {V : Nat → DataObj → Prop} {L : DataObj → Prop} {s t : Store} {q : CellPtr}

/-- A tracked leaf is what the lookup of its path finds. -/
theorem Tracked.resolve (h : Tracked V s q) : s.getByPathNoCreate (getDbId q) = .ok (some q) := by
  have hpath := h.path
  clear h
  unfold getByPathNoCreate
  induction q with
  | nil => rfl
  | cons x q ih =>
    obtain ⟨n, id⟩ := x
    rw [getDbId_cons, resolve_append, ih fun n id c hs => hpath n id c (hs.trans (List.suffix_cons _ _))]
    exact (hpath n id q (List.suffix_refl _)).replaceLeafNoCreate

/-- What is in place does not disagree with the tracked leaf. -/
theorem Tracked.avoids (h : Tracked V s q) {p : CellPtr} (hp : Current s p) : Avoids q p := by
  intro n m id c h1 h2
  rw [hp n id c h1]
  exact (h.path m id c h2).gen

/-- A cell on the way up, other than the leaf, has children. -/
theorem Tracked.not_isEmpty (h : Tracked V s q) {c : CellPtr} (hc : c <:+ q) (hne : c ≠ q) : ¬ (s.cell c).hashes.isEmpty := by
  obtain ⟨l, rfl⟩ := hc
  rcases List.eq_nil_or_concat l with rfl | ⟨l, x, rfl⟩
  · exact absurd rfl hne
  · have hs := h.path x.1 x.2 c ⟨l, by simp⟩
    intro he
    rw [Std.ExtTreeMap.isEmpty_iff] at he
    have := hs.hashed
    simp [he] at this

/-- The cell that a new child becomes is not on the way up. -/
theorem Tracked.child_not_suffix (h : Tracked V s q) {c : CellPtr} {id : Nat} (hp : id ∉ (s.cell c).ptrs)
    (hh : (s.cell c).hashes[id]? = some .empty) : ¬ s.child c id <:+ q := by
  intro hs
  obtain ⟨b, -, hb, -⟩ := (h.path _ id c hs).stored hp
  rw [hh, Option.some.injEq] at hb
  exact b.hash_ne_empty hb.symm

/-- A change keeps the places on the way up. -/
theorem Tracked.path_change (h : Tracked V s q) {k : Kind} (hst : Change k s t)
    (hk : ∀ p, k = .unlink p → p ≠ q ∧ Avoids q p) {n : Nat} {id : Nat} {c : CellPtr} (hc : (n, id) :: c <:+ q) :
    Slot t n id c := by
  have hs := h.path n id c hc
  have hcq : c <:+ q := (List.suffix_cons _ _).trans hc
  cases hst with
  | @snapshot _ c' =>
    refine hs.of_eq (by simp) (by simp) (by simp) (by simp) fun b hb => ?_
    rcases mem_roll_snapshot hb with hb | he
    · exact .inl hb
    · obtain ⟨rfl, rfl⟩ := Prod.mk.inj he
      exact .inr rfl
  | @dirty _ c' =>
    refine hs.of_eq ?_ ?_ ?_ rfl fun b hb => .inl hb
    all_goals
      rw [cell_setCell]
      split
      · rename_i he
        simp [he]
      · simp
  | @enter _ c' id' =>
    refine hs.of_eq ?_ ?_ ?_ rfl fun b hb => .inl hb
    all_goals
      rw [cell_setCell]
      split
      · rename_i he
        simp +contextual [he]
      · simp
  | @addHash _ c' id' hid =>
    by_cases he : c = c'
    · subst he
      have hne : id' ≠ id := fun he => hid (he ▸ hs.hashed)
      exact hs.of_hash hne rfl (by simp [StdMap.getElem?_insert, hne]) (fun hp => hp)
    · exact hs.of_eq (by simp [he]) (by simp [he]) (by simp [he]) rfl fun b hb => .inl hb
  | @newChild _ c' id' hp hh =>
    have hne : c ≠ s.child c' id' := fun he => h.child_not_suffix hp hh (he ▸ hcq)
    unfold Store.newChild
    refine hs.of_eq ?_ ?_ ?_ rfl fun b hb => .inl hb
    all_goals
      rw [cell_setCell]
      split
      · rename_i he
        simp +contextual [he]
      · simp [hne]
  | @construct _ c' hd o =>
    unfold Store.construct
    refine hs.of_eq ?_ ?_ ?_ rfl fun b hb => .inl hb
    all_goals
      by_cases he : c = c'
      · simp [he]
      · simp [he]
  | @hash _ c' id' hp h' =>
    by_cases he : c = c'
    · subst he
      by_cases hne : id' = id
      · subst hne
        exact ⟨by rw [cell_setCell, if_pos rfl]; exact hs.gen, by simp, fun hn => absurd hp (by simpa using hn), fun b hb =>
          ⟨(hs.logged b (by simpa using hb)).1, fun hn => absurd hp (by simpa using hn)⟩⟩
      · exact hs.of_hash hne rfl (by simp [StdMap.getElem?_insert, hne]) (fun hp => hp)
    · exact hs.of_eq (by simp [he]) (by simp [he]) (by simp [he]) rfl fun b hb => .inl hb
  | @clean _ c' =>
    refine hs.of_eq ?_ ?_ ?_ rfl fun b hb => .inl hb
    all_goals
      rw [cell_setCell]
      split
      · rename_i he
        simp [he]
      · simp
  | @unlink _ n' id' c' hk' =>
    obtain ⟨hne, hav⟩ := hk _ rfl
    by_cases he : c = c'
    · subst he
      have hid : id' ≠ id := by
        rintro rfl
        have hn := hav n' n id' c (List.suffix_refl _) hc
        subst hn
        exact h.not_isEmpty hc hne hk'
      refine hs.of_hash hid ?_ (by simp [StdMap.getElem?_erase, hid]) (by simp [hid])
      simp [Cell.gen, StdMap.getElem?_insert, hid]
    · exact hs.of_eq (by simp [Store.unlink, he]) (by simp [Store.unlink, he]) (by simp [Store.unlink, he]) rfl fun b hb => .inl hb
  | @restore _ c' b' hm =>
    by_cases he : c = c'
    · subst he
      obtain ⟨h1, h2⟩ := hs.logged b' hm
      refine ⟨by simpa [Cell.gen] using hs.gen, by simpa using h1, fun hn => ?_, fun b hb => ?_⟩
      · rw [ptrs_unpackMx] at hn
        simpa [h2 hn] using hs.stored hn
      · rw [roll_unpackMx] at hb
        refine ⟨(hs.logged b hb).1, fun hn => ?_⟩
        rw [ptrs_unpackMx] at hn
        rw [hashes_unpackMx, (hs.logged b hb).2 hn, h2 hn]
    · have hcell := cell_unpackMx_of_ne s b' he
      exact hs.of_eq (by rw [hcell]) (by rw [hcell]) (by rw [hcell]; exact fun _ hi => hi) (by simp) fun b hb => .inl (by simpa using hb)

/-- A change keeps the payload, unless it puts a logged one back. -/
theorem Tracked.data_change (h : Tracked V s q) {k : Kind} (hst : Change k s t)
    (hr : k = .restore q → Logged (fun o => ∀ g, V g o) s q) :
    ∃ g, (t.cell q).data = some g ∧ V g (t.deref ⟨g, q⟩) := by
  obtain ⟨g, hg, hV⟩ := h.data
  have keep : (t.cell q).data = (s.cell q).data → t.deref ⟨g, q⟩ = s.deref ⟨g, q⟩ →
      ∃ g, (t.cell q).data = some g ∧ V g (t.deref ⟨g, q⟩) := fun h1 h2 => ⟨g, by rw [h1, hg], by rwa [h2]⟩
  cases hst with
  | snapshot => exact keep (by simp) (by simp)
  | @newChild _ c id hp hh =>
    have hne : q ≠ s.child c id := fun he => h.child_not_suffix hp hh (he ▸ List.suffix_refl _)
    refine keep ?_ (by simp [Store.newChild])
    simp only [Store.newChild, cell_setCell, hne, if_false]
    split
    · rename_i he
      simp [he]
    · rfl
  | @construct _ c hd o =>
    have hne : q ≠ c := by
      rintro rfl
      rw [hg] at hd
      nomatch hd
    exact keep (by simp [Store.construct, hne]) (by simp [Store.construct, hne])
  | unlink =>
    refine keep ?_ (by simp [Store.unlink])
    simp only [Store.unlink, cell_setCell]
    split
    · rename_i he
      simp [he]
    · rfl
  | @restore _ c b hm =>
    by_cases he : q = c
    · subst he
      rcases hb : b.data with _ | o
      · obtain ⟨h1, h2⟩ := data_unpackMx_none (s := s) (c := q) hb
        exact keep h1 (by rw [h2])
      · by_cases hi : b.idx = .hshEnd
        · obtain ⟨h1, h2⟩ := data_unpackMx_end (s := s) (c := q) hi
          exact keep h1 (by rw [h2])
        · obtain ⟨h1, h2⟩ := data_unpackMx_some (s := s) (c := q) hb hi
          exact ⟨_, h1, by rw [h2]; exact hr rfl b hm o hb _⟩
    · exact keep (by rw [cell_unpackMx_of_ne s b he]) (deref_unpackMx_of_ne s b he)
  | _ =>
    refine keep ?_ (by simp)
    rw [cell_setCell]
    split
    · rename_i he
      simp [he]
    · rfl

/-- A tracked leaf stays tracked. -/
theorem Tracked.change (h : Tracked V s q) {k : Kind} (hst : Change k s t)
    (hk : ∀ p, k = .unlink p → p ≠ q ∧ Avoids q p) (hr : k = .restore q → Logged (fun o => ∀ g, V g o) s q) :
    Tracked V t q :=
  ⟨fun _ _ _ hc => h.path_change hst hk hc, h.data_change hst hr⟩

/-- What is logged of a tracked leaf is a payload it had. -/
theorem Tracked.logged_change (h : Tracked V s q) (hVL : ∀ g o, V g o → L o) (hl : Logged L s q) {k : Kind}
    (hst : Change k s t) : Logged L t q := by
  intro b hb o ho
  rcases hst.roll hb with hb | he
  · exact hl b hb o ho
  · rw [(Prod.mk.inj he).2] at ho
    obtain ⟨g, hg, hVg⟩ := h.data
    simp only [pack, hg, Option.map_some, Option.some.injEq] at ho
    exact hVL g o (ho ▸ hVg)

/-- A tracked leaf stays tracked through a sequence of changes that does not restore it. -/
theorem Tracked.changes {A : Kind → Prop} (hst : Changes A s t) (hVL : ∀ g o, V g o → L o)
    (hA : ∀ k, A k → ∀ p, k = .unlink p → p ≠ q ∧ Avoids q p) (hr : ¬ A (.restore q)) (h : Tracked V s q ∧ Logged L s q) :
    Tracked V t q ∧ Logged L t q :=
  hst.inv (I := fun s => Tracked V s q ∧ Logged L s q)
    (fun k _ _ hk hst ih => ⟨ih.1.change hst (hA k hk) fun he => absurd (he ▸ hk) hr, ih.1.logged_change hVL ih.2 hst⟩) h

/-- The same for any changes, if what is logged may be put back. -/
theorem Tracked.changes_restore {A : Kind → Prop} (hst : Changes A s t) (hVL : ∀ g o, V g o → L o) (hLV : ∀ g o, L o → V g o)
    (hA : ∀ k, A k → ∀ p, k = .unlink p → p ≠ q ∧ Avoids q p) (h : Tracked V s q ∧ Logged L s q) :
    Tracked V t q ∧ Logged L t q :=
  hst.inv (I := fun s => Tracked V s q ∧ Logged L s q)
    (fun k _ _ hk hst ih => ⟨ih.1.change hst (hA k hk) fun _ b hb o ho g => hLV g o (ih.2 b hb o ho),
      ih.1.logged_change hVL ih.2 hst⟩) h

/-- An assignment to another object, or one that keeps `V`. -/
theorem Tracked.setObj (h : Tracked V s q) {d : DataPtr} {o : DataObj} (hd : d.parent = q → V d.gen (s.deref d) → V d.gen o) :
    Tracked V (s.setObj d o) q := by
  refine ⟨fun n id c hc => (h.path n id c hc).of_eq rfl rfl (fun _ hi => hi) rfl fun b hb => .inl hb, ?_⟩
  obtain ⟨g, hg, hV⟩ := h.data
  refine ⟨g, hg, ?_⟩
  rw [deref_setObj]
  split
  · rename_i he
    subst he
    exact hd rfl hV
  · exact hV

/-- Forgetting the log. -/
theorem Tracked.clearRoll (h : Tracked V s q) : Tracked V { s with roll := [] } q :=
  ⟨fun n id c hc => (h.path n id c hc).of_eq rfl rfl (fun _ hi => hi) rfl (by simp), h.data⟩

/-- What the lookup of a tracked leaf shows. -/
theorem Tracked.look (h : Tracked V s q) :
    ∃ i g, s.look (getDbId q) = .ok (some (i, some (⟨g, q⟩, s.deref ⟨g, q⟩))) ∧ V g (s.deref ⟨g, q⟩) := by
  obtain ⟨g, hg, hV⟩ := h.data
  refine ⟨(s.cell q).idx, g, ?_, hV⟩
  simp [Store.look, h.resolve, view, leaf, hg]

/-- A creating lookup of a tracked leaf finds it. -/
theorem Tracked.getByPathOrCreate (h : Tracked V s q) (roll : Bool) :
    s.getByPathOrCreate (getDbId q) roll = (.ok (some q), s) := by
  have hone : ∀ {n id c}, (n, id) :: c <:+ q → s.replaceLeafOrCreate roll c id = (.ok (some ((n, id) :: c)), s) := by
    intro n id c hc
    have hs := h.path n id c hc
    simp [replaceLeafOrCreate, hs.hashed, hs.replaceLeafNoCreate]
  -- the path is walked down from the root, so the induction is on what is left of it
  have hall : ∀ (l c : CellPtr), l.reverse ++ c <:+ q →
      resolveOrCreate roll (l.map (·.2)) c s = (.ok (some (l.reverse ++ c)), s) := by
    intro l
    induction l with
    | nil => exact fun c _ => rfl
    | cons x l ih =>
      intro c hc
      simp only [List.reverse_cons, List.append_assoc, List.cons_append, List.nil_append] at hc ⊢
      have hx : (x.1, x.2) :: c <:+ q := (List.suffix_append _ _).trans hc
      simp only [List.map_cons, resolveOrCreate, hone hx]
      exact ih _ hc
  have := hall q.reverse [] (by simp)
  simpa [Store.getByPathOrCreate, getDbId] using this

theorem Tracked.create (h : Tracked V s q) (o : DataObj) :
    ∃ g, s.create (getDbId q) o = (.ok (true, ⟨g, q⟩, s.deref ⟨g, q⟩), s) ∧ V g (s.deref ⟨g, q⟩) := by
  obtain ⟨g, hg, hV⟩ := h.data
  exact ⟨g, by simp [Store.create, h.getByPathOrCreate, leaf, hg], hV⟩

end Tracked

/-! ## Linked leaves -/

/-- Every cell on the path is recorded in the hashes of its parent, and is in memory or in the database with the recorded
hash. -/
def linked (s : Store) : Path → CellPtr → Bool
  | [], _ => true
  | id :: ids, c => decide (id ∈ (s.cell c).hashes) &&
      (decide (id ∈ (s.cell c).ptrs) || s.db[getDbId c ++ [id]]?.any fun b => (s.cell c).hashes[id]? = some b.hash ∧ Loadable b) &&
      s.linked ids (s.child c id)

theorem slots_of_linked {s : Store} (hr : s.roll = []) {ids : Path} {c : CellPtr} (h : s.linked ids c) :
    ∃ q, getDbId q = getDbId c ++ ids ∧ c <:+ q ∧ ∀ n id c', (n, id) :: c' <:+ q → (n, id) :: c' <:+ c ∨ Slot s n id c' := by
  induction ids generalizing c with
  | nil => exact ⟨c, by simp, List.suffix_refl _, fun n id c' hs => .inl hs⟩
  | cons id ids ih =>
    simp only [linked, Bool.and_eq_true, Bool.or_eq_true, decide_eq_true_eq] at h
    obtain ⟨⟨hh, hp⟩, hrest⟩ := h
    have hslot : Slot s ((s.cell c).gen id) id c := by
      refine ⟨rfl, hh, fun hn => ?_, by simp [hr]⟩
      rcases hp with hp | hp
      · exact absurd hp hn
      · obtain ⟨b, hb, hb'⟩ := (Option.any_eq_true _ _).1 hp
        obtain ⟨h1, h2⟩ := of_decide_eq_true hb'
        exact ⟨b, hb, h1, h2⟩
    obtain ⟨q, hq, hcq, hall⟩ := ih hrest
    refine ⟨q, by simpa using hq, (List.suffix_cons _ _).trans hcq, fun n id' c' hs => ?_⟩
    rcases hall n id' c' hs with h1 | h1
    · rcases List.suffix_cons_iff.1 h1 with he | h2
      · simp only [List.cons.injEq, Prod.mk.injEq] at he
        obtain ⟨⟨rfl, rfl⟩, rfl⟩ := he
        exact .inr hslot
      · exact .inl h2
    · exact .inr h1

/-- A linked leaf with a payload can be tracked, if nothing is logged. -/
theorem tracked_of_linked {s : Store} (hr : s.roll = []) {p : Path} (h : s.linked p []) {i : Hsh} {d : DataPtr} {o : DataObj}
    (hl : s.look p = .ok (some (i, some (d, o)))) {V : Nat → DataObj → Prop} (hV : V d.gen o) :
    getDbId d.parent = p ∧ o = s.deref d ∧ Tracked V s d.parent := by
  obtain ⟨q, hq, -, hall⟩ := slots_of_linked hr h
  have hpath : ∀ n id c', (n, id) :: c' <:+ q → Slot s n id c' := by
    intro n id c' hs
    rcases hall n id c' hs with h1 | h1
    · simp at h1
    · exact h1
  -- the lookup finds the pointer that the places lead to
  unfold look at hl
  split at hl
  · rename_i x hx
    rcases x with _ | c
    · cases hl
    obtain ⟨hc, hcur⟩ := getByPathNoCreate_some hx
    have hqcur : Current s q := fun n id c' hs => (hpath n id c' hs).gen.symm
    obtain rfl : c = q := hcur.eq hqcur (by rw [hc, hq]; simp)
    simp only [Option.map_some, Except.ok.injEq, Option.some.injEq, view, leaf, Prod.mk.injEq, Option.map_eq_some_iff] at hl
    obtain ⟨-, g, hg, rfl, rfl⟩ := hl
    exact ⟨hc, rfl, hpath, g, hg, hV⟩
  · cases hl

end Store

end Grain
