import Grain.Lemmas.Coherent
import Grain.Lemmas.Watch

/-!
# The representation of the tree between transactions

A cell has a payload exactly when it has a constructor index, and then of that type; the granules filed for writing decode. The
operations of a block keep this as long as a transaction that is rolled back has made nothing: the rollback decodes a logged cell
over the cell, and a cell that was logged empty keeps the payload it was given after that.
-/

namespace Grain

open Prog Eff Store

/-- The cell is in the live tree: every cell on the way up is a child of its parent, in memory or by its hash. -/
def Store.Attached (s : Store) (c : CellPtr) : Prop :=
  ∀ n id c', (n, id) :: c' <:+ c → n = (s.cell c').gen id ∧ (id ∈ (s.cell c').ptrs ∨ id ∈ (s.cell c').hashes)

/-- The representation of the live tree, and of what is filed for writing. -/
structure St.Represented (s : St) : Prop where
  data : ∀ c, s.store.Attached c → ((s.store.cell c).data.isSome ↔ (s.store.cell c).idx ≠ .hshEnd)
  typed : ∀ c g, s.store.Attached c → (s.store.cell c).data = some g →
    (s.store.deref ⟨g, c⟩).payload.hsh = (s.store.cell c).idx
  hashed : ∀ c id, id ∈ ((calcTreeHash treeLevels [] (s.store, {})).1.cell c).ptrs →
    id ∈ ((calcTreeHash treeLevels [] (s.store, {})).1.cell c).hashes
  decodes : ∀ (p : Path) (b : Packed), s.dbToSaveZ.cells[p]? = some b → ∀ (t : Store) (c : CellPtr), (t.unpackMx c b).1 = .ok ()

/-- Every cell on the way up is a child in memory of its parent. -/
def Store.wayInMemory (s : Store) : CellPtr → Bool
  | [] => true
  | (n, id) :: c => decide (n = (s.cell c).gen id ∧ id ∈ (s.cell c).ptrs) && s.wayInMemory c

theorem attached_of_inMemory {s : Store} {c : CellPtr} (h : s.wayInMemory c = true) : s.Attached c := by
  induction c with
  | nil => exact fun n id c' hs => by simp at hs
  | cons x c ih =>
    simp only [Store.wayInMemory, Bool.and_eq_true, decide_eq_true_eq] at h
    intro n id c' hs
    rcases List.suffix_cons_iff.1 hs with he | hs
    · obtain ⟨rfl, rfl⟩ := List.cons.inj he
      exact ⟨h.1.1, .inl h.1.2⟩
    · exact ih h.2 n id c' hs

/-- A rollback finds in the log only cells that had, when they were logged, the children and the payload they have. -/
def UndoneAt : Op → St → Prop
  | .rollback, s => Undone s.store
  | _, _ => True

/-- Whenever the step rolls a transaction back, that transaction has made no cell and no payload. -/
def ChainStep.Undoes (Γ : Ctx) : ChainStep → St → Prop
  | .blockTx b tx, s => Along (exec Γ) UndoneAt (executeBlockTx Γ b tx) s
  | _, _ => True

instance (o : Op) (s : St) : Decidable (UndoneAt o s) :=
  match o with
  | .rollback => inferInstanceAs (Decidable (Undone s.store))
  | .look _ | .create _ _ | .replaceLeaf _ _ | .deref _ | .assign _ _ | .setDirty _ _ | .deleteGranule _ _ | .calcTreeHash _
  | .beginTx _ | .endTx | .value | .addValue _ | .gasUsed | .addGas _ | .pend _ | .pending | .dumpSize | .rollSize | .mergeDump
  | .saveRoot | .emit _ | .reward _ | .rewards | .overflow | .cached _ | .cache _ _ | .uncache _ | .setHandler _ _
  | .handler _ => isTrue trivial

instance (Γ : Ctx) (x : ChainStep) (s : St) : Decidable (x.Undoes Γ s) :=
  match x with
  | .blockTx b tx => inferInstanceAs (Decidable (Along (exec Γ) UndoneAt (executeBlockTx Γ b tx) s))
  | .beginBlock _ | .endBlock _ | .writeGranules => isTrue trivial

/-! ## What the store has given out -/

/-- What was answered, the last answer first. -/
abbrev History := List ((o : Op) × Resp o)

/-- The evidence of the answers so far. -/
def Evidence.ofHistory (h : History) : Evidence where
  seen p r := (⟨.look p, .ok r⟩ : (o : Op) × Resp o) ∈ h
  made p o r := (⟨.create p o, .ok r⟩ : (o : Op) × Resp o) ∈ h
  pended d := ∃ l : List DataPtr, (⟨.pending, l⟩ : (o : Op) × Resp o) ∈ h ∧ d ∈ l

theorem Evidence.ofHistory_answers (h : History) : ∀ a ∈ h, (Evidence.ofHistory h).Answers a.1 a.2 := by
  rintro ⟨o, r⟩ ha
  cases o with
  | look p => cases r with
    | error e => trivial
    | ok r => exact ha
  | create p o => cases r with
    | error e => trivial
    | ok r => exact ha
  | pending => exact fun d hd => ⟨r, ha, hd⟩
  | _ => trivial

/-- The pointer is one that the answers have given out. -/
def Held (h : History) (d : DataPtr) : Prop := (Evidence.ofHistory h).Handle d ∨ (Evidence.ofHistory h).pended d

/-- The answer gives the pointer out. -/
def Gives : (o : Op) → Resp o → DataPtr → Prop
  | .look _, r, d => ∃ i o, r = .ok (some (i, some (d, o)))
  | .create _ _, r, d => ∃ b o, r = .ok (b, d, o)
  | .pending, l, d => d ∈ l
  | _, _, _ => False

theorem not_held_nil (d : DataPtr) : ¬ Held [] d := by
  rintro ((⟨x, p, i, hp, hm⟩ | ⟨p, x, b, x', hp, hm⟩) | ⟨l, hm, hd⟩)
  · exact absurd hm List.not_mem_nil
  · exact absurd hm List.not_mem_nil
  · exact absurd hm List.not_mem_nil

theorem Held.of_cons {h : History} {o : Op} {r : Resp o} {d : DataPtr} (hd : Held (⟨o, r⟩ :: h) d) : Held h d ∨ Gives o r d := by
  rcases hd with (⟨x, p, i, hp, hm⟩ | ⟨p, x, b, x', hp, hm⟩) | ⟨l, hm, hd⟩
  · rcases List.mem_cons.1 hm with he | hm
    · cases he
      exact .inr ⟨i, x, rfl⟩
    · exact .inl (.inl (.inl ⟨x, p, i, hp, hm⟩))
  · rcases List.mem_cons.1 hm with he | hm
    · cases he
      exact .inr ⟨b, x', rfl⟩
    · exact .inl (.inl (.inr ⟨p, x, b, x', hp, hm⟩))
  · rcases List.mem_cons.1 hm with he | hm
    · cases he
      exact .inr hd
    · exact .inl (.inr ⟨l, hm, hd⟩)

/-- The operations act on pointers that were given out. -/
@[simp]
def Handled (ev : Evidence) : Op → Prop
  | .setDirty d _ => ev.Handle d
  | .deleteGranule d _ => ev.Handle d ∨ ev.pended d
  | .pend d => ev.Handle d
  | .replaceLeaf _ _ => False
  | _ => True

theorem BlockFootprint.handled {Γ : Ctx} {ev : Evidence} {tx : TX} {o : Op} (h : BlockFootprint Γ ev tx o) : Handled ev o := by
  cases o with
  | setDirty d roll => exact h
  | deleteGranule d dump =>
    rcases h with ⟨o, ho, -⟩ | h
    · exact .inl (.inl ⟨o, ho⟩)
    · exact .inr h
  | pend d =>
    obtain ⟨o, ho, -⟩ := h
    exact .inl ⟨o, ho⟩
  | replaceLeaf p b => exact h
  | _ => trivial

theorem FrameFootprint.handled {ev : Evidence} {o : Op} (h : FrameFootprint ev o) : Handled ev o := by
  cases o with
  | setDirty d roll => exact h.2
  | deleteGranule | pend | replaceLeaf => exact h.elim
  | _ => trivial

theorem FrameFootprint.undoneAt {ev : Evidence} {o : Op} (h : FrameFootprint ev o) (s : St) : UndoneAt o s := by
  cases o with
  | rollback => exact h.elim
  | _ => trivial

/-! ## One operation -/

/-- While a step runs: the tree is coherent, as is what is filed, and the pointers that were given out are good. -/
structure Tended (h : History) (s : St) : Prop where
  store : s.store.Coherent
  save : s.dbToSaveZ.Coherent
  dump : s.dbDump.Coherent
  held : ∀ d, Held h d → Valid s.store d.parent
  pended : ∀ d ∈ s.deletedGranules, Valid s.store d.parent

namespace Tended

variable {h : History} {s t : St} {Γ : Ctx}

/-- The pointers stay good where the store leads on, and those that the answer adds are good. -/
theorem next (hs : Tended h s) (hl : Store.Leads s.store t.store) (hz : t.dbToSaveZ.Coherent) (hd : t.dbDump.Coherent)
    (hp : ∀ d ∈ t.deletedGranules, d ∈ s.deletedGranules ∨ Valid t.store d.parent) {o : Op} {r : Resp o}
    (hg : ∀ d, Gives o r d → Valid t.store d.parent) : Tended (⟨o, r⟩ :: h) t where
  store := hl.coherent
  save := hz
  dump := hd
  held d hd := by
    rcases hd.of_cons with hd | hd
    · exact hl.valid _ (hs.held d hd)
    · exact hg d hd
  pended d hd := by
    rcases hp d hd with hd | hd
    · exact hl.valid _ (hs.pended d hd)
    · exact hd

/-- An operation that leaves the store and the deletions as they are. -/
theorem same (hs : Tended h s) (hst : t.store = s.store) (hz : t.dbToSaveZ.Coherent) (hd : t.dbDump.Coherent)
    (hp : ∀ d ∈ t.deletedGranules, d ∈ s.deletedGranules ∨ Valid t.store d.parent) {o : Op} {r : Resp o}
    (hg : ∀ d, Gives o r d → Valid t.store d.parent) : Tended (⟨o, r⟩ :: h) t :=
  hs.next (by rw [hst]; exact .refl hs.store) hz hd hp hg

/-- One operation of a block. -/
theorem step (hs : Tended h s) (o : Op) (ho : Handled (Evidence.ofHistory h) o) (hu : UndoneAt o s) :
    Tended (⟨o, (exec Γ o s).1⟩ :: h) (exec Γ o s).2 := by
  have hkeep : ∀ d ∈ s.deletedGranules, d ∈ s.deletedGranules ∨ Valid s.store d.parent := fun d hd => .inl hd
  cases o with
  | look p =>
    refine hs.same (Watch.store_lookup s _) ?_ ?_ ?_ ?_
    all_goals simp only [exec, St.lookup]
    · cases s.store.look p <;> exact hs.save
    · cases s.store.look p <;> exact hs.dump
    · cases s.store.look p <;> exact hkeep
    · rintro d ⟨i, o, hr⟩
      rcases hl : s.store.look p with e | r
      · simp [hl] at hr
      · obtain rfl : r = some (i, some (d, o)) := by simpa [hl] using hr
        exact hs.store.look hl
  | create p o =>
    obtain ⟨h1, h2⟩ := hs.store.create p o
    have hst : (exec Γ (.create p o) s).2.store = (s.store.create p o).2 := Watch.store_lookup _ _
    refine hs.next (by rw [hst]; exact h1) ?_ ?_ ?_ ?_
    · simp only [exec, St.lookup]
      cases (s.store.create p o).1 <;> exact hs.save
    · simp only [exec, St.lookup]
      cases (s.store.create p o).1 <;> exact hs.dump
    · simp only [exec, St.lookup]
      cases (s.store.create p o).1 <;> exact fun d hd => .inl hd
    · rintro d ⟨b, o', hr⟩
      rw [hst]
      refine h2 (b, d, o') ?_
      simp only [exec, St.lookup] at hr
      rcases hl : (s.store.create p o).1 with e | r
      · simp [hl] at hr
      · simpa [hl] using hr
  | replaceLeaf p b => exact ho.elim
  | deref d =>
    refine hs.same ?_ ?_ ?_ ?_ ?_
    exacts [rfl, hs.save, hs.dump, hkeep, fun _ hd => False.elim hd]
  | assign d w =>
    simp only [exec]
    split
    · refine hs.same ?_ ?_ ?_ ?_ ?_
      exacts [rfl, hs.save, hs.dump, hkeep, fun _ hd => False.elim hd]
    · refine hs.next ?_ ?_ ?_ ?_ ?_
      exacts [hs.store.assign d w, hs.save, hs.dump, fun d hd => .inl hd, fun _ hd => False.elim hd]
  | setDirty d roll =>
    refine hs.next ?_ ?_ ?_ ?_ ?_
    exacts [hs.store.setDirty roll (hs.held d (.inl ho)), hs.save, hs.dump, fun d hd => .inl hd, fun _ hd => False.elim hd]
  | deleteGranule d dump =>
    have hv := hs.held d ho
    cases dump
    · obtain ⟨h1, h2⟩ := hs.store.deleteGranule hv true s.dbToSaveZ
      refine hs.next ?_ ?_ ?_ ?_ ?_
      exacts [h1, fun p b hb => hs.save p b (h2 ▸ hb), hs.dump, fun d hd => .inl hd, fun _ hd => False.elim hd]
    · obtain ⟨h1, h2⟩ := hs.store.deleteGranule hv true s.dbDump
      refine hs.next ?_ ?_ ?_ ?_ ?_
      exacts [h1, hs.save, fun p b hb => hs.dump p b (h2 ▸ hb), fun d hd => .inl hd, fun _ hd => False.elim hd]
  | calcTreeHash dump =>
    cases dump
    · obtain ⟨h1, h2⟩ := Coherent.calcTreeHash treeLevels [] (x := (s.store, s.dbToSaveZ)) hs.store hs.save
      refine hs.next ?_ ?_ ?_ ?_ ?_
      exacts [h1, h2, hs.dump, fun d hd => .inl hd, fun _ hd => False.elim hd]
    · obtain ⟨h1, h2⟩ := Coherent.calcTreeHash treeLevels [] (x := (s.store, s.dbDump)) hs.store hs.dump
      refine hs.next ?_ ?_ ?_ ?_ ?_
      exacts [h1, hs.save, h2, fun d hd => .inl hd, fun _ hd => False.elim hd]
  | rollback =>
    refine hs.next ?_ ?_ ?_ ?_ ?_
    exacts [(hs.store.rollback hu).2, hs.save, hs.dump, fun d hd => .inl hd, fun _ hd => False.elim hd]
  | beginTx | endTx =>
    refine hs.next ?_ ?_ ?_ ?_ ?_
    exacts [hs.store.clearRoll, hs.save, fun p b hb => (by simp [exec, St.endTx] at hb), fun d hd =>
      (by simp [exec, St.endTx] at hd),
      fun _ hd => False.elim hd]
  | pend d =>
    refine hs.same ?_ ?_ ?_ (fun d' hd' => ?_) ?_
    · rfl
    · exact hs.save
    · exact hs.dump
    · simp only [exec] at hd'
      split at hd'
      · exact .inl hd'
      · rcases List.mem_append.1 hd' with hd' | hd'
        · exact .inl hd'
        · obtain rfl := List.mem_singleton.1 hd'
          exact .inr (hs.held d' (.inl ho))
    · exact fun _ hd => False.elim hd
  | pending => exact hs.same rfl hs.save hs.dump hkeep fun d hd => hs.pended d hd
  | mergeDump =>
    refine hs.same ?_ ?_ ?_ ?_ ?_
    exacts [rfl, (hs.save.merge hs.dump), hs.dump, hkeep, fun _ hd => False.elim hd]
  | saveRoot =>
    refine hs.same ?_ ?_ ?_ ?_ ?_
    exacts [rfl, (hs.save.add (hs.store.packed [])), hs.dump, hkeep, fun _ hd => False.elim hd]
  | _ =>
    refine hs.same ?_ ?_ ?_ ?_ ?_
    exacts [rfl, hs.save, hs.dump, hkeep, fun _ hd => False.elim hd]

/-- A run of a block's code, whose operations act on the pointers that were given out. -/
theorem run {α : Type} {m : Eff α} (hm : ∀ ev : Evidence, Safe (Handled ev) ev.Answers m fun _ => True) (hs : Tended [] s)
    (hu : Along (exec Γ) UndoneAt m s) : ∃ h', Tended h' (runEff Γ m s).2 := by
  refine run_learned (K := Evidence) (B := Handled) (R := Evidence.Answers) (Q := fun _ _ => True) ?_ (fun ev _ => hm ev) hu hs
  exact fun h o s ho hu hs => hs.step o (ho _ (Evidence.ofHistory_answers h)) hu

end Tended

/-! ## The first state -/

/-- The operations of `init_genesis`. -/
@[simp]
def GenesisFootprint (ev : Evidence) : Op → Prop
  | .setDirty d _ => ev.Handle d
  | .deleteGranule _ _ | .pend _ | .replaceLeaf _ _ | .rollback => False
  | _ => True

/-- The code asks only for what `init_genesis` can ask for. -/
abbrev FitsGenesis (ev : Evidence) {α : Type} (m : Eff α) (Q : α → Prop) : Prop := Safe (GenesisFootprint ev) ev.Answers m Q

section Genesis

variable {Γ : Ctx} {ev : Evidence}

theorem GenesisFootprint.handled {o : Op} (h : GenesisFootprint ev o) : Handled ev o := by
  cases o with
  | deleteGranule | pend => exact h.elim
  | setDirty d roll => exact h
  | replaceLeaf p b => exact h
  | _ => trivial

theorem GenesisFootprint.undoneAt {o : Op} (h : GenesisFootprint ev o) (s : St) : UndoneAt o s := by
  cases o with
  | rollback => exact h.elim
  | _ => trivial

theorem fitsGenesis_getOrCreate {τ : Type} {n : Name} {o : DataObj} {cast : Payload → Option τ} {Q : Option DataPtr → Prop}
    (h0 : Q none) (h : ∀ d, ev.Handle d → Q (some d)) : FitsGenesis ev (getOrCreate Γ n o cast) Q := by
  simp only [getOrCreate, safe_bind, safe_create, GenesisFootprint, true_and]
  rintro ⟨b, d, o'⟩ hm
  have hd : ev.Handle d := .inr ⟨_, o, b, o', Γ.path_length _, hm⟩
  cases b
  · simp [h, hd]
  · cases hc : cast o'.payload <;> simp [castTo, hc, h, hd, h0]

theorem fitsGenesis_getAddressStateOrCreate {addr : String} {Q : Option DataPtr → Prop} (h0 : Q none)
    (h : ∀ d, ev.Handle d → Q (some d)) : FitsGenesis ev (getAddressStateOrCreate Γ addr) Q := by
  simp only [getAddressStateOrCreate, checkAddr, safe_bind, safe_raiseIf, safe_create, GenesisFootprint, true_and]
  rintro - ⟨b, d, o'⟩ hm
  have hd : ev.Handle d := .inr ⟨_, _, b, o', Γ.path_length _, hm⟩
  cases b
  · simp only [Bool.false_eq_true, if_false, safe_bind]
    refine safe_get trivial (by simp) fun st _ hst => ?_
    simp [hst, h, hd]
  · cases hc : o'.payload.address? <;> simp [castTo, hc, h, hd, h0]

theorem fitsGenesis_genesisKeys (ua : DataPtr) (ks : List (Nat × String)) : FitsGenesis ev (genesisKeys ua ks) fun _ => True := by
  induction ks with
  | nil => trivial
  | cons k ks ih =>
    simp only [genesisKeys, addKey, derefAddress, safe_bind, safe_raiseIf, safe_deref, safe_pure, GenesisFootprint, true_and]
    intro _ _ o _
    split
    · simp
    · simp only [safe_bind, safe_assign, safe_pure, GenesisFootprint, true_and]
      exact fun _ _ => ih

theorem fitsGenesis_genesisUsers {st : DataPtr} (us : List GenesisUser) :
    FitsGenesis ev (genesisUsers Γ st us) fun _ => True := by
  induction us with
  | nil => trivial
  | cons u us ih =>
    simp only [genesisUsers, safe_bind]
    refine fitsGenesis_getAddressStateOrCreate (by simp) fun ua hua => ?_
    simp only [safe_need, Option.some.injEq, forall_eq', safe_assign, safe_raiseIf, GenesisFootprint, true_and]
    intro _ _ _
    refine (fitsGenesis_genesisKeys ua u.keys).post fun _ _ => ?_
    simp [hua, ih]

theorem fitsGenesis_addNode {name : String} {Q : DataPtr → Prop} (h : ∀ d, ev.Handle d → Q d) :
    FitsGenesis ev (addNode Γ name) Q := by
  simp only [addNode, safe_bind]
  refine safe_get trivial (by simp) fun nl _ hnl => ?_
  simp only [safe_need, Option.some.injEq, forall_eq', safe_raiseIf, safe_assign, safe_setDirty, safe_create, GenesisFootprint, hnl,
    true_and]
  rintro - - - - ⟨b, d, o'⟩ hm hb
  have hd : ev.Handle d := .inr ⟨_, _, b, o', Γ.path_length _, hm⟩
  refine safe_get trivial (by simp) fun st _ hst => ?_
  simp [hst, h, hd]

theorem fitsGenesis_genesisNodes {st : DataPtr} (ns : List GenesisNode) : FitsGenesis ev (genesisNodes Γ st ns) fun _ => True := by
  induction ns with
  | nil => trivial
  | cons n ns ih =>
    simp only [genesisNodes, safe_bind]
    have hrest : ∀ x : Option (Leaf BcNode), FitsGenesis ev (do
        raiseIf x.isSome ("genesis: duplicate node " ++ n.name)
        let nn ← addNode Γ n.name
        assign nn (.initNode n.name n.owner n.blsPk n.edPk n.ip)
        assign nn (.addStake n.owner n.stake)
        setDirty nn false
        assign st (.addTotalStake n.stake)
        genesisNodes Γ st ns) fun _ => True := by
      intro x
      simp only [safe_bind, safe_raiseIf]
      intro _
      refine fitsGenesis_addNode fun nn hnn => ?_
      simp [hnn, ih]
    refine safe_get trivial ?_ fun l _ _ => ?_
    · simpa only [safe_bind] using hrest none
    · simpa only [safe_bind] using hrest (some l)

theorem fitsGenesis_initGenesis (g : GenesisFile) : FitsGenesis ev (initGenesis Γ g) fun _ => True := by
  unfold initGenesis inTx
  refine safe_handle ((safe_bind _ _ _).2 (Safe.post (Q := fun _ => True) ?_ fun _ _ => by simp)) fun e => by simp
  have hlast : ∀ st, ev.Handle st → FitsGenesis ev (do
      genesisUsers Γ st g.users
      setDirty st false
      genesisNodes Γ st g.nodes
      setDirty st false
      let _ ← proceedMerkle
      pure ()) fun _ => True := by
    intro st hst
    refine (safe_bind _ _ _).2 ((fitsGenesis_genesisUsers g.users).post fun _ _ => ?_)
    simp only [safe_bind, safe_setDirty, GenesisFootprint, hst, true_and]
    intro _ _
    refine (fitsGenesis_genesisNodes g.nodes).post fun _ _ => ?_
    simp [proceedMerkle]
  have hvalues : ∀ st, ev.Handle st → FitsGenesis ev (do
      let _ ← getOrCreate Γ .values { payload := .values g.values } Payload.values?
      genesisUsers Γ st g.users
      setDirty st false
      genesisNodes Γ st g.nodes
      setDirty st false
      let _ ← proceedMerkle
      pure ()) fun _ => True := fun st hst =>
    (safe_bind _ _ _).2 (fitsGenesis_getOrCreate (hlast st hst) fun _ _ => hlast st hst)
  have hstate : FitsGenesis ev (do
      let st ← getOrCreate Γ .state { payload := .state { chainId := g.chainId, genesisTime := g.genesisTime } } Payload.state?
        >>= need
      let _ ← getOrCreate Γ .values { payload := .values g.values } Payload.values?
      genesisUsers Γ st g.users
      setDirty st false
      genesisNodes Γ st g.nodes
      setDirty st false
      let _ ← proceedMerkle
      pure ()) fun _ => True := by
    refine (safe_bind _ _ _).2 ((safe_bind _ _ _).2 (fitsGenesis_getOrCreate (by simp) fun st hst => (safe_need _ _).2 ?_))
    rintro _ ⟨⟩
    exact hvalues st hst
  have hvotes : FitsGenesis ev (do
      let _ ← getOrCreate Γ .votes { payload := .votes ∅ } Payload.votes?
      let st ← getOrCreate Γ .state { payload := .state { chainId := g.chainId, genesisTime := g.genesisTime } } Payload.state?
        >>= need
      let _ ← getOrCreate Γ .values { payload := .values g.values } Payload.values?
      genesisUsers Γ st g.users
      setDirty st false
      genesisNodes Γ st g.nodes
      setDirty st false
      let _ ← proceedMerkle
      pure ()) fun _ => True := (safe_bind _ _ _).2 (fitsGenesis_getOrCreate hstate fun _ _ => hstate)
  exact (safe_bind _ _ _).2 (fitsGenesis_getOrCreate hvotes fun _ _ => hvotes)

/-- The first state, before its granules are written. -/
theorem tended_initGenesis (g : GenesisFile) : ∃ h, Tended h (runEff Γ (initGenesis Γ g) {}).2 := by
  have hempty : Tended [] ({} : St) := by
    refine ⟨⟨fun c => ?_, fun c id hid => ?_, fun e he => by simp at he, List.nodup_nil, fun p b hb => by simp at hb⟩,
      fun p b hb => by simp at hb, fun p b hb => by simp at hb, fun d hd => absurd hd (not_held_nil d), fun d hd => by simp at hd⟩
    · simp [Packed.Coherent, pack, Store.cell, granule, Packed.toCell]
    · simp [Store.cell, granule, Packed.toCell] at hid
  refine hempty.run (fun ev => (fitsGenesis_initGenesis g).mono (fun o ho => ho.handled) fun _ hq => hq) ?_
  exact along_of_safe (fun o _ => Evidence.any_answers o _) (fun o s (ho : GenesisFootprint Evidence.any o) => ho.undoneAt s)
    (fitsGenesis_initGenesis g) _

end Genesis

/-! ## The chain -/

/-- Between two steps: the tree and what is filed are coherent, and no transaction is under way. -/
structure Resting (s : St) : Prop where
  store : s.store.Coherent
  save : s.dbToSaveZ.Coherent
  dump : s.dbDump.Coherent
  idle : Idle s

namespace Resting

variable {Γ : Ctx} {s : St}

theorem tended (hs : Resting s) : Tended [] s where
  store := hs.store
  save := hs.save
  dump := hs.dump
  held d hd := absurd hd (not_held_nil d)
  pended d hd := by simp [hs.idle.2] at hd

theorem of_tended {h : History} (hs : Tended h s) (hi : Idle s) : Resting s := ⟨hs.store, hs.save, hs.dump, hi⟩

/-- A step that rolls back only what has made nothing. -/
theorem step (x : ChainStep) (hu : x.Undoes Γ s) (hs : Resting s) : Resting (x.run Γ s) := by
  have hframe : ∀ {α : Type} {m : Eff α}, (∀ ev, FitsFrame ev m fun _ => True) → Resting (runEff Γ m s).2 := by
    intro α m hm
    have hu : Along (exec Γ) UndoneAt m s :=
      along_of_safe (fun o _ => Evidence.any_answers o _) (fun _ t ho => FrameFootprint.undoneAt ho t) (hm Evidence.any) s
    obtain ⟨h, h1⟩ := hs.tended.run (fun ev => (hm ev).mono (fun o ho => ho.handled) fun _ hq => hq) hu
    exact of_tended h1 (keeps_idle_frame (hm _) s hs.idle)
  cases x with
  | beginBlock newEpoch => exact hframe fun ev => fitsFrame_beginBlock newEpoch
  | endBlock b => exact hframe fun ev => fitsFrame_endBlock b
  | blockTx b tx =>
    obtain ⟨h, h1⟩ := hs.tended.run (fun ev => (fitsBlock_executeBlockTx b : FitsBlock Γ ev tx _ _).mono
        (fun o ho => ho.handled) fun _ hq => hq) hu
    exact of_tended h1 (idle_executeBlockTx b tx s hs.idle)
  | writeGranules =>
    exact ⟨hs.store.writeGranulesBatch hs.save, fun p b hb => by simp [ChainStep.run, St.writeGranules] at hb, hs.dump, hs.idle⟩

theorem genesis (g : GenesisFile) : Resting (Grain.genesis Γ g) := by
  obtain ⟨h, h1⟩ := tended_initGenesis (Γ := Γ) g
  have hi : Idle (runEff Γ (initGenesis Γ g) {}).2 := idle_inTx _ _
  exact ⟨h1.store.writeGranulesBatch h1.save, fun p b hb => by simp [Grain.genesis, St.writeGranules] at hb, h1.dump, hi⟩

theorem represented (hs : Resting s) : s.Represented where
  data c _ := by
    have hc := hs.store.packed c
    unfold Packed.Coherent pack at hc
    rcases hg : (s.store.cell c).data with _ | g
    · simpa [hg] using hc
    · have hidx : (s.store.cell c).idx = (s.store.deref ⟨g, c⟩).payload.hsh := by simpa [hg] using hc
      simpa [hidx] using (s.store.deref ⟨g, c⟩).payload.hsh_ne_end
  typed c g _ hg := by
    have hc := hs.store.packed c
    unfold Packed.Coherent pack at hc
    simpa [hg] using hc.symm
  hashed c id hid := by
    have hnone : DbToSave.Coherent {} := fun p b hb => by simp at hb
    exact (Coherent.calcTreeHash (x := (s.store, {})) treeLevels [] hs.store hnone).1.coherent.ptrs c id hid
  decodes p b hb t c := by
    have hl := (hs.save p b hb).loadable
    unfold unpackMx
    rcases ho : b.data with _ | o
    · rfl
    · simp [hl (by simp [ho])]

end Resting

/-! ## The small network -/

namespace Sample

/-- The names in use, with that of a third user. -/
def freshNames : List String := Name.text (.addressState (key 'z')) :: names

/-- Two transactions: one makes the third user and goes on with other commands, one mints and then fails. -/
def creation (rest : List Json) : Ctx :=
  { ctx [("create", body "a" 0 0 10 (command "create_address" [("addr", .str (base16Encode (key 'z'))),
      ("keys", .arr [.obj [("type", .uint 0), ("keybuffer", .str (base16Encode (key 'y')))]])] :: rest)),
      ("mint", body "a" 0 0 10 [command "mint" [("amount", .uint 5)], command "none" []])] fun _ => none with
    path := fun n => [1, 2, 3, 4, ident freshNames n]
    path_length := fun _ => rfl
    path_inj := fun a b h => by simpa [(ident_injective freshNames).eq_iff] using h }

/-- A transaction of the first user. -/
def userTx (txBody : String) : TX := { txBody := txBody, pkEdBin := key 'k', sigEdBin := sign 'k' }

/-- The leaf of the third user. -/
def freshLeaf : CellPtr := [(0, 0), (0, 4), (0, 3), (0, 2), (0, 1)]

/-- The chain after the failure of a transaction that has made the third user. -/
def ghost : St := chain (creation [command "none" []]) file [.beginBlock 1, .blockTx params (userTx "create")]

end Sample

open Sample

end Grain
