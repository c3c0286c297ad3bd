import Grain.Cells

/-!
# The elementary changes of the store

`Change` lists what a single step of the store code can do to the cells: log one, mark one, enter one in its parent, make one,
record a hash, take a cell out of its parent, put a logged cell back. Each operation of the store is a sequence of changes of
certain kinds (`setDirty_changes`, `create_changes`, ...), so that an invariant is proved once, change by change, and holds after
every operation.
-/

namespace Grain

namespace Store

/-! ## The parts of the store after an assignment -/

@[simp] theorem cell_setCell (s : Store) (c c' : CellPtr) (k : Cell) :
    (s.setCell c k).cell c' = if c' = c then k else s.cell c' := by
  unfold setCell cell granule
  by_cases h : c' = c
  · subst h
    simp
  · simp [h]

@[simp] theorem deref_setCell (s : Store) (c : CellPtr) (k : Cell) : (s.setCell c k).deref = s.deref := rfl
@[simp] theorem roll_setCell (s : Store) (c : CellPtr) (k : Cell) : (s.setCell c k).roll = s.roll := rfl
@[simp] theorem db_setCell (s : Store) (c : CellPtr) (k : Cell) : (s.setCell c k).db = s.db := rfl

@[simp] theorem cell_setObj (s : Store) (d : DataPtr) (o : DataObj) : (s.setObj d o).cell = s.cell := rfl
@[simp] theorem roll_setObj (s : Store) (d : DataPtr) (o : DataObj) : (s.setObj d o).roll = s.roll := rfl
@[simp] theorem db_setObj (s : Store) (d : DataPtr) (o : DataObj) : (s.setObj d o).db = s.db := rfl
@[simp] theorem deref_setObj (s : Store) (d d' : DataPtr) (o : DataObj) :
    (s.setObj d o).deref d' = if d' = d then o else s.deref d' := by
  unfold setObj deref granule
  by_cases h : d' = d
  · subst h
    simp
  · simp [h]

@[simp] theorem cell_newObj (s : Store) (c c' : CellPtr) (o : DataObj) :
    (s.newObj c o).cell c' = if c' = c then (s.cell c).withData else s.cell c' := cell_setCell _ _ _ _
@[simp] theorem deref_newObj (s : Store) (c : CellPtr) (o : DataObj) (d : DataPtr) :
    (s.newObj c o).deref d = if d = ⟨(s.cell c).objs, c⟩ then o else s.deref d := deref_setObj s _ d o
@[simp] theorem roll_newObj (s : Store) (c : CellPtr) (o : DataObj) : (s.newObj c o).roll = s.roll := rfl
@[simp] theorem db_newObj (s : Store) (c : CellPtr) (o : DataObj) : (s.newObj c o).db = s.db := rfl

@[simp] theorem cell_snapshot (s : Store) (c : CellPtr) : (s.snapshot c).cell = s.cell := by
  unfold snapshot
  split <;> rfl
@[simp] theorem deref_snapshot (s : Store) (c : CellPtr) : (s.snapshot c).deref = s.deref := by
  unfold snapshot
  split <;> rfl
@[simp] theorem db_snapshot (s : Store) (c : CellPtr) : (s.snapshot c).db = s.db := by
  unfold snapshot
  split <;> rfl

/-- A snapshot logs the cell as it is, or finds it logged. -/
theorem mem_roll_snapshot {s : Store} {c : CellPtr} {e : CellPtr × Packed} (h : e ∈ (s.snapshot c).roll) :
    e ∈ s.roll ∨ e = (c, s.pack c) := by
  unfold snapshot at h
  split at h
  · exact .inl h
  · simpa using h

theorem roll_subset_snapshot (s : Store) (c : CellPtr) {e : CellPtr × Packed} (h : e ∈ s.roll) :
    e ∈ (s.snapshot c).roll := by
  unfold snapshot
  split
  · exact h
  · exact List.mem_append_left _ h

@[simp] theorem getDbId_cons (n : Nat) (id : Nat) (c : CellPtr) : getDbId ((n, id) :: c) = getDbId c ++ [id] := by
  simp [getDbId]

@[simp] theorem getDbId_nil : getDbId [] = [] := rfl

@[simp] theorem getDbId_child (s : Store) (c : CellPtr) (id : Nat) : getDbId (s.child c id) = getDbId c ++ [id] :=
  getDbId_cons _ _ _

theorem length_getDbId (c : CellPtr) : (getDbId c).length = c.length := by
  simp [getDbId]

theorem cons_ne_self {α : Type} (x : α) (c : List α) : x :: c ≠ c := fun h => by
  have := congrArg List.length h
  simp at this

theorem child_ne_self (s : Store) (c : CellPtr) (id : Nat) : s.child c id ≠ c := cons_ne_self _ _

/-! ## Unpacking -/

theorem unpackMx_snd (s : Store) (c : CellPtr) (b : Packed) :
    (s.unpackMx c b).2 = match b.data with
      | some o => if b.idx = .hshEnd then s.setCell c ((s.cell c).withPacked b)
          else (s.setCell c ((s.cell c).withPacked b)).newObj c o
      | none => s.setCell c ((s.cell c).withPacked b) := by
  unfold unpackMx
  rcases b.data with _ | o
  · rfl
  · by_cases h : b.idx = .hshEnd <;> simp [h]

@[simp] theorem roll_unpackMx (s : Store) (c : CellPtr) (b : Packed) : (s.unpackMx c b).2.roll = s.roll := by
  rw [unpackMx_snd]
  split
  · split <;> rfl
  · rfl

@[simp] theorem db_unpackMx (s : Store) (c : CellPtr) (b : Packed) : (s.unpackMx c b).2.db = s.db := by
  rw [unpackMx_snd]
  split
  · split <;> rfl
  · rfl

theorem cell_unpackMx_of_ne (s : Store) {c c' : CellPtr} (b : Packed) (h : c' ≠ c) :
    (s.unpackMx c b).2.cell c' = s.cell c' := by
  rw [unpackMx_snd]
  split
  · split <;> simp [h]
  · simp [h]

@[simp] theorem hashes_unpackMx (s : Store) (c : CellPtr) (b : Packed) : ((s.unpackMx c b).2.cell c).hashes = b.hashes := by
  rw [unpackMx_snd]
  split
  · split <;> simp
  · simp

@[simp] theorem idx_unpackMx (s : Store) (c : CellPtr) (b : Packed) : ((s.unpackMx c b).2.cell c).idx = b.idx := by
  rw [unpackMx_snd]
  split
  · split <;> simp
  · simp

@[simp] theorem ptrs_unpackMx (s : Store) (c c' : CellPtr) (b : Packed) :
    ((s.unpackMx c b).2.cell c').ptrs = (s.cell c').ptrs := by
  by_cases h : c' = c
  · subst h
    rw [unpackMx_snd]
    split
    · split <;> simp
    · simp
  · rw [cell_unpackMx_of_ne s b h]

@[simp] theorem gens_unpackMx (s : Store) (c c' : CellPtr) (b : Packed) :
    ((s.unpackMx c b).2.cell c').gens = (s.cell c').gens := by
  by_cases h : c' = c
  · subst h
    rw [unpackMx_snd]
    split
    · split <;> simp
    · simp
  · rw [cell_unpackMx_of_ne s b h]

@[simp] theorem dirty_unpackMx (s : Store) (c c' : CellPtr) (b : Packed) :
    ((s.unpackMx c b).2.cell c').dirty = (s.cell c').dirty := by
  by_cases h : c' = c
  · subst h
    rw [unpackMx_snd]
    split
    · split <;> simp
    · simp
  · rw [cell_unpackMx_of_ne s b h]

theorem deref_unpackMx_of_ne (s : Store) {c : CellPtr} (b : Packed) {d : DataPtr} (h : d.parent ≠ c) :
    (s.unpackMx c b).2.deref d = s.deref d := by
  have hd : ∀ n, d ≠ ⟨n, c⟩ := fun n hn => h (by rw [hn])
  rw [unpackMx_snd]
  split
  · split
    · rfl
    · simp [hd]
  · rfl

theorem data_unpackMx_some {s : Store} {c : CellPtr} {b : Packed} {o : DataObj} (hb : b.data = some o)
    (hi : b.idx ≠ .hshEnd) :
    ((s.unpackMx c b).2.cell c).data = some (s.cell c).objs ∧
      (s.unpackMx c b).2.deref ⟨(s.cell c).objs, c⟩ = o := by
  rw [unpackMx_snd, hb]
  simp [hi]

theorem data_unpackMx_none {s : Store} {c : CellPtr} {b : Packed} (hb : b.data = none) :
    ((s.unpackMx c b).2.cell c).data = (s.cell c).data ∧ (s.unpackMx c b).2.deref = s.deref := by
  rw [unpackMx_snd, hb]
  simp

theorem data_unpackMx_end {s : Store} {c : CellPtr} {b : Packed} (hi : b.idx = .hshEnd) :
    ((s.unpackMx c b).2.cell c).data = (s.cell c).data ∧ (s.unpackMx c b).2.deref = s.deref := by
  rw [unpackMx_snd]
  rcases hb : b.data with _ | o <;> simp [hi]

/-! ## Changes -/

/-- The kinds of change; `unlink` carries the cell that is taken out, `restore` the one that is put back. -/
inductive Kind
  | mark
  | make
  | construct
  | hash
  | unlink (p : CellPtr)
  | restore (c : CellPtr)

/-- One elementary change of the store. -/
inductive Change : Kind → Store → Store → Prop
  | snapshot {s : Store} {c : CellPtr} : Change .mark s (s.snapshot c)
  | dirty {s : Store} {c : CellPtr} : Change .mark s (s.setCell c ((s.cell c).withDirty true))
  | enter {s : Store} {c : CellPtr} {id : Nat} : Change .mark s (s.setCell c ((s.cell c).withPtr id))
  | addHash {s : Store} {c : CellPtr} {id : Nat} (hid : id ∉ (s.cell c).hashes) :
      Change .make s (s.setCell c ((s.cell c).withHash id .empty))
  | newChild {s : Store} {c : CellPtr} {id : Nat} (hp : id ∉ (s.cell c).ptrs)
      (hh : (s.cell c).hashes[id]? = some .empty) : Change .make s (s.newChild c id)
  | construct {s : Store} {c : CellPtr} (hd : (s.cell c).data = none) (o : DataObj) :
      Change .construct s (s.construct c o)
  | hash {s : Store} {c : CellPtr} {id : Nat} (hp : id ∈ (s.cell c).ptrs) (h : Hash) :
      Change .hash s (s.setCell c ((s.cell c).withHash id h))
  | clean {s : Store} {c : CellPtr} : Change .hash s (s.setCell c ((s.cell c).withDirty false))
  | unlink {s : Store} {n : Nat} {id : Nat} {c : CellPtr} (hk : (s.cell ((n, id) :: c)).hashes.isEmpty) :
      Change (.unlink ((n, id) :: c)) s (s.unlink c id)
  | restore {s : Store} {c : CellPtr} {b : Packed} (hm : (c, b) ∈ s.roll) : Change (.restore c) s (s.unpackMx c b).2

/-- A sequence of changes of the kinds in `A`. -/
def Changes (A : Kind → Prop) : Store → Store → Prop := Relation.ReflTransGen fun s t => ∃ k, A k ∧ Change k s t

namespace Changes

variable {A B : Kind → Prop} {s t u : Store}

theorem refl (A : Kind → Prop) (s : Store) : Changes A s s := Relation.ReflTransGen.refl

theorem single {k : Kind} (h : Change k s t) (hk : A k) : Changes A s t := Relation.ReflTransGen.single ⟨k, hk, h⟩

theorem trans (h : Changes A s t) (h' : Changes A t u) : Changes A s u := Relation.ReflTransGen.trans h h'

theorem mono (h : Changes A s t) (hAB : ∀ k, A k → B k) : Changes B s t := by
  induction h with
  | refl => exact refl _ _
  | tail _ hst ih => exact ih.trans (single hst.choose_spec.2 (hAB _ hst.choose_spec.1))

/-- The invariant rule: what every change of the kinds keeps, the sequence keeps. -/
theorem inv {I : Store → Prop} (hI : ∀ k s t, A k → Change k s t → I s → I t) (h : Changes A s t) (hs : I s) : I t := by
  induction h with
  | refl => exact hs
  | tail _ hst ih => exact hI _ _ _ hst.choose_spec.1 hst.choose_spec.2 ih

end Changes

/-- No change touches the database. -/
theorem Change.db {k : Kind} {s t : Store} (h : Change k s t) : t.db = s.db := by
  cases h with
  | snapshot => simp
  | restore => simp
  | _ => rfl

/-- What a change logs is a cell as it is. -/
theorem Change.roll {k : Kind} {s t : Store} (h : Change k s t) {e : CellPtr × Packed} (he : e ∈ t.roll) :
    e ∈ s.roll ∨ e = (e.1, s.pack e.1) := by
  cases h with
  | snapshot =>
    rcases mem_roll_snapshot he with he | rfl
    · exact .inl he
    · exact .inr rfl
  | restore => exact .inl (by simpa using he)
  | _ => exact .inl he

/-! ## The operations as sequences of changes -/

variable {s : Store}

theorem mark_changes (s : Store) (roll : Bool) (c : CellPtr) : Changes (· = .mark) s (s.mark roll c) := by
  unfold mark
  cases roll
  · exact .single .dirty rfl
  · have h1 : Changes (· = .mark) s (s.snapshot c) := .single .snapshot rfl
    exact h1.trans (.single .dirty rfl)

theorem enter_changes (s : Store) (n : Nat) (id : Nat) (c : CellPtr) : Changes (· = .mark) s (s.enter n id c) := by
  unfold enter
  split
  · exact .single .enter rfl
  · exact .refl _ _

theorem setDirty_changes (s : Store) (roll : Bool) (c : CellPtr) : Changes (· = .mark) s (s.setDirty roll c) := by
  induction c generalizing s with
  | nil => exact mark_changes s roll []
  | cons x c ih =>
    have h1 := mark_changes s roll (x :: c)
    have h2 := enter_changes (s.mark roll (x :: c)) x.1 x.2 c
    exact (h1.trans h2).trans (ih _)

/-- The kinds of change of a creating lookup. -/
def Kind.makes (k : Kind) : Prop := k = .mark ∨ k = .make

theorem replaceLeafOrCreate_changes (s : Store) (roll : Bool) (c : CellPtr) (id : Nat) :
    Changes Kind.makes s (s.replaceLeafOrCreate roll c id).2 := by
  unfold replaceLeafOrCreate
  split
  · exact .refl _ _
  rename_i hid
  set s1 := if roll then s.snapshot c else s with hs1
  have hcell : s1.cell = s.cell := by
    rw [hs1]
    split <;> simp
  have h1 : Changes Kind.makes s s1 := by
    rw [hs1]
    split
    · exact .single .snapshot (.inl rfl)
    · exact .refl _ _
  have h2 : Changes Kind.makes s (s1.setCell c ((s1.cell c).withHash id .empty)) :=
    h1.trans (.single (.addHash (by rwa [hcell])) (.inr rfl))
  dsimp only
  split
  · exact h2
  · rename_i hp
    have h3 := h2.trans (.single (.newChild hp (by simp)) (.inr rfl))
    exact h3.trans ((setDirty_changes _ roll _).mono fun k hk => .inl hk)

theorem resolveOrCreate_changes (roll : Bool) (ids : Path) (c : CellPtr) (s : Store) :
    Changes Kind.makes s (resolveOrCreate roll ids c s).2 := by
  induction ids generalizing c s with
  | nil => exact .refl _ _
  | cons id ids ih =>
    have h1 := replaceLeafOrCreate_changes s roll c id
    unfold resolveOrCreate
    split
    · rename_i p t he
      rw [he] at h1
      exact h1.trans (ih p t)
    · rename_i t he
      rwa [he] at h1
    · rename_i e t he
      rwa [he] at h1

theorem create_changes (s : Store) (p : Path) (o : DataObj) :
    Changes (fun k => k.makes ∨ k = .construct) s (s.create p o).2 := by
  have h1 := (resolveOrCreate_changes true p [] s).mono (B := fun k => k.makes ∨ k = .construct) fun k hk => .inl hk
  unfold create getByPathOrCreate
  split
  · rename_i c t he
    rw [he] at h1
    split
    · exact h1
    · rename_i hl
      have hd : (t.cell c).data = none := by simpa [leaf] using hl
      exact h1.trans (.single (.construct hd o) (.inr rfl))
  · rename_i t he
    rwa [he] at h1
  · rename_i e t he
    rwa [he] at h1

/-- The loop of `deleteGranule` takes out cells on the way up from the granule. -/
theorem prune_changes (c : CellPtr) (s : Store) (d : DbToSave) :
    Changes (fun k => ∃ p, k = .unlink p ∧ p <:+ c) s (prune c (s, d)).1 := by
  induction c generalizing s d with
  | nil => exact .refl _ _
  | cons x c ih =>
    obtain ⟨n, id⟩ := x
    unfold prune
    split
    · rename_i hk
      have h1 : Changes (fun k => ∃ p, k = .unlink p ∧ p <:+ (n, id) :: c) s (s.unlink c id) :=
        .single (.unlink hk) ⟨_, rfl, List.suffix_refl _⟩
      refine h1.trans ((ih (s.unlink c id) _).mono fun k hk => ?_)
      obtain ⟨p, rfl, hp⟩ := hk
      exact ⟨p, rfl, hp.trans (List.suffix_cons _ _)⟩
    · exact .refl _ _

theorem deleteGranule_changes (s : Store) (g : DataPtr) (roll : Bool) (d : DbToSave) :
    Changes (fun k => k = .mark ∨ ∃ p, k = .unlink p ∧ p <:+ g.parent) s (s.deleteGranule g roll d).1 := by
  have h1 := (setDirty_changes s roll g.parent).mono
    (B := fun k => k = .mark ∨ ∃ p, k = .unlink p ∧ p <:+ g.parent) fun k hk => .inl hk
  exact h1.trans ((prune_changes g.parent _ d).mono fun k hk => .inr hk)

theorem unpackAll_changes {l : List (CellPtr × Packed)} (hl : ∀ e ∈ l, e ∈ s.roll) :
    Changes (fun k => ∃ e ∈ l, k = .restore e.1) s (unpackAll l s).2 := by
  induction l generalizing s with
  | nil => exact .refl _ _
  | cons e l ih =>
    obtain ⟨c, b⟩ := e
    have h1 : Changes (fun k => ∃ e ∈ (c, b) :: l, k = .restore e.1) s (s.unpackMx c b).2 :=
      .single (.restore (hl _ List.mem_cons_self)) ⟨_, List.mem_cons_self, rfl⟩
    have hroll := roll_unpackMx s c b
    unfold unpackAll
    split
    · rename_i t he
      rw [he] at h1 hroll
      refine h1.trans ((ih fun e he => hroll ▸ hl e (List.mem_cons_of_mem _ he)).mono fun k hk => ?_)
      obtain ⟨e, he, rfl⟩ := hk
      exact ⟨e, List.mem_cons_of_mem _ he, rfl⟩
    · rename_i e t he
      rwa [he] at h1

theorem rollback_changes (s : Store) : Changes (fun k => ∃ e ∈ s.roll, k = .restore e.1) s s.rollback.2 :=
  unpackAll_changes fun _ he => he

/-- Recording a hash or clearing a flag changes neither the sets of children in memory nor their numbers. -/
theorem Change.ptrs_hash {s t : Store} (h : Change .hash s t) (c : CellPtr) :
    (t.cell c).ptrs = (s.cell c).ptrs ∧ (t.cell c).gens = (s.cell c).gens := by
  cases h with
  | hash hp h =>
    rw [cell_setCell]
    split
    · rename_i he
      simp [he]
    · simp
  | clean =>
    rw [cell_setCell]
    split
    · rename_i he
      simp [he]
    · simp

theorem Changes.ptrs_hash {s t : Store} (h : Changes (· = .hash) s t) (c : CellPtr) :
    (t.cell c).ptrs = (s.cell c).ptrs ∧ (t.cell c).gens = (s.cell c).gens := by
  refine h.inv (I := fun t => (t.cell c).ptrs = (s.cell c).ptrs ∧ (t.cell c).gens = (s.cell c).gens) ?_ ⟨rfl, rfl⟩
  rintro k u v rfl huv ⟨h1, h2⟩
  obtain ⟨h3, h4⟩ := huv.ptrs_hash c
  exact ⟨h3.trans h1, h4.trans h2⟩

/-- One turn of the loop of `calc_tree_hash`, given that the recursive call is a sequence of hash changes. -/
theorem hashChild_changes {rec : CellPtr → Store × DbToSave → Store × DbToSave} (hrec : ∀ p x, Changes (· = .hash) x.1 (rec p x).1)
    {c : CellPtr} {x : Store × DbToSave} {id : Nat} (hid : id ∈ (x.1.cell c).ptrs) :
    Changes (· = .hash) x.1 (hashChild rec c x id).1 := by
  have h1 := hrec (x.1.child c id) x
  unfold hashChild
  dsimp only
  split
  · split
    · exact h1.trans (.single (.hash (by rwa [(h1.ptrs_hash c).1]) _) rfl)
    · exact h1
  · exact .refl _ _

theorem calcTreeHash_changes (n : Nat) (c : CellPtr) (x : Store × DbToSave) :
    Changes (· = .hash) x.1 (calcTreeHash n c x).1 := by
  induction n generalizing c x with
  | zero => exact .refl _ _
  | succ n ih =>
    unfold calcTreeHash
    split
    · -- the children are those the cell had in memory at the start; hashing changes none of the sets
      have hfold : ∀ (l : List Nat) (y : Store × DbToSave), (∀ id ∈ l, id ∈ (y.1.cell c).ptrs) →
          Changes (· = .hash) y.1 (l.foldl (hashChild (calcTreeHash n) c) y).1 := by
        intro l
        induction l with
        | nil => exact fun y _ => .refl _ _
        | cons id l ihl =>
          intro y hy
          have h1 := hashChild_changes ih (hy id List.mem_cons_self)
          refine h1.trans (ihl _ fun id' hid' => ?_)
          rw [(h1.ptrs_hash c).1]
          exact hy id' (List.mem_cons_of_mem _ hid')
      exact (hfold _ x fun id hid => by simpa using hid).trans (.single .clean rfl)
    · exact .refl _ _

end Store

end Grain
