import Grain.Lemmas.Blocks

/-!
# Watching one leaf during a block

A `Watch` is a leaf, by its pointer, with what is known of its payload while a transaction runs (`V`) and of the payloads that
the rollback log holds of it (`L`). The operations of a transaction keep the leaf watched, and the lookups of its path return it:
`Watch.step` is the one-operation lemma, from which `run_safe` gives the whole run.
-/

namespace Grain

open Prog Eff Store

/-- A watched leaf. No payload that satisfies `V` is deleted as a granule. -/
structure Watch where
  q : CellPtr
  V : Nat → DataObj → Prop
  L : DataObj → Prop
  length_q : q.length = 5
  logs : ∀ g o, V g o → L o
  kept : ∀ g o, V g o → ¬ Evidence.Deletable o.payload

namespace Watch

variable (w : Watch)

/-- The path of the leaf. -/
def path : Path := getDbId w.q

/-- The pointer is to an object elsewhere, and agrees with the leaf's on what they share of the way up. -/
def Elsewhere (d : DataPtr) : Prop := Avoids w.q d.parent ∧ getDbId d.parent ≠ w.path ∧ d.parent.length = 5

/-- What a lookup under a path can return of a payload. -/
def Shows (p : Path) (d : DataPtr) (o : DataObj) : Prop :=
  getDbId d.parent = p ∧ Avoids w.q d.parent ∧ (p = w.path → d.parent = w.q ∧ w.V d.gen o)

/-- What the answers of the store say of the leaf. -/
def evidence : Evidence where
  seen p r := (∀ i d o, r = some (i, some (d, o)) → w.Shows p d o) ∧ (p = w.path → ∃ i d o, r = some (i, some (d, o)))
  made p _ r := getDbId r.2.1.parent = p ∧ Avoids w.q r.2.1.parent ∧
    (p = w.path → r.1 = true ∧ r.2.1.parent = w.q ∧ w.V r.2.1.gen r.2.2)
  pended := w.Elsewhere

/-- The leaf is in place with a payload in `V`, its logged payloads are in `L`, and what waits to be deleted is elsewhere. -/
structure Inv (s : St) : Prop where
  store : Tracked w.V s.store w.q ∧ Logged w.L s.store w.q
  pended : ∀ d ∈ s.deletedGranules, w.Elsewhere d

variable {w} {s : St}

theorem shows_of_current {st : Store} (h : Tracked w.V st w.q) {c : CellPtr} (hc : Current st c) {g : Nat}
    (hd : (st.cell c).data = some g) : w.Shows (getDbId c) ⟨g, c⟩ (st.deref ⟨g, c⟩) := by
  refine ⟨rfl, h.avoids hc, fun hp => ?_⟩
  obtain rfl : c = w.q := hc.eq (getByPathNoCreate_some h.resolve).2 hp
  obtain ⟨g', hg', hV⟩ := h.data
  rw [hd] at hg'
  cases hg'
  exact ⟨rfl, hV⟩

/-- What a lookup shows agrees with the evidence. -/
theorem seen_look {st : Store} (h : Tracked w.V st w.q) {p : Path} {r : Option Look} (hr : st.look p = .ok r) :
    w.evidence.seen p r := by
  constructor
  · rintro i d o rfl
    unfold Store.look at hr
    split at hr
    · rename_i x hx
      rcases x with _ | c
      · cases hr
      · obtain ⟨hp, hc⟩ := getByPathNoCreate_some hx
        simp only [Option.map_some, Except.ok.injEq, Option.some.injEq, view, leaf, Prod.mk.injEq,
          Option.map_eq_some_iff] at hr
        obtain ⟨-, g, hg, rfl, rfl⟩ := hr
        exact hp ▸ shows_of_current h hc hg
    · cases hr
  · rintro rfl
    obtain ⟨i, g, hl, -⟩ := h.look
    rw [path, hl, Except.ok.injEq] at hr
    exact ⟨i, _, _, hr.symm⟩

/-- What a creation returns agrees with the evidence. -/
theorem made_create {st : Store} (h : Tracked w.V st w.q ∧ Logged w.L st w.q) {p : Path} {o : DataObj}
    {r : Bool × DataPtr × DataObj} (hr : (st.create p o).1 = .ok r) : w.evidence.made p o r := by
  by_cases hp : p = w.path
  · subst hp
    obtain ⟨g, hg, hV⟩ := h.1.create o
    rw [path, hg] at hr
    cases hr
    exact ⟨rfl, fun n m id c h1 h2 => by simpa using List.suffix_of_suffix_length_le h1 h2 (by simp) |>.eq_of_length rfl,
      fun _ => ⟨rfl, rfl, hV⟩⟩
  · have hch := Tracked.changes (resolveOrCreate_changes true p [] st) w.logs
      (fun k hk p' he => by rcases hk with rfl | rfl <;> cases he) (by rintro (he | he) <;> cases he) h
    have key : ∀ c, (st.getByPathOrCreate p true).1 = .ok (some c) → getDbId c = p ∧ Avoids w.q c := by
      intro c hc
      obtain ⟨h1, h2⟩ := resolveOrCreate_some (current_nil st) hc
      exact ⟨by simpa using h1, hch.1.avoids h2⟩
    unfold Store.create at hr
    split at hr
    · rename_i c t he
      obtain ⟨h1, h2⟩ := key c (by rw [he])
      split at hr
      · rename_i d hd
        simp only [leaf, Option.map_eq_some_iff] at hd
        obtain ⟨g, -, rfl⟩ := hd
        cases hr
        exact ⟨h1, h2, fun he => absurd he hp⟩
      · cases hr
        exact ⟨h1, h2, fun he => absurd he hp⟩
    · cases hr
    · cases hr

theorem Elsewhere.unlink {d : DataPtr} (h : w.Elsewhere d) {p : CellPtr} (hp : p <:+ d.parent) : p ≠ w.q ∧ Avoids w.q p := by
  refine ⟨?_, h.1.suffix hp⟩
  rintro rfl
  have := hp.eq_of_length (by rw [w.length_q, h.2.2])
  exact h.2.1 (by rw [← this, path])

/-- A granule that a lookup has shown is elsewhere. -/
theorem elsewhere_of_shown {d : DataPtr} {o : DataObj} (h : w.evidence.Shown d o) (hd : Evidence.Deletable o.payload) :
    w.Elsewhere d := by
  obtain ⟨p, i, hlen, hseen, -⟩ := h
  obtain ⟨h1, h2, h3⟩ := hseen i d o rfl
  refine ⟨h2, fun he => ?_, by rw [← length_getDbId, h1, hlen]⟩
  exact w.kept _ _ (h3 (h1 ▸ he)).2 hd

/-- The write keeps what is known of the leaf's payload, if it is to the leaf. -/
def Keeps (w : Watch) (d : DataPtr) (wr : Write) : Prop :=
  d.parent = w.q → ∀ o, w.V d.gen o → w.V d.gen (wr.apply o)

/-- Putting logged cells back keeps what is known of the leaf: the log holds nothing of it, or only what may come back. -/
def Undoable (w : Watch) (s : St) : Prop := (∀ g o, w.L o → w.V g o) ∨ ∀ b, (w.q, b) ∉ s.store.roll

theorem inv_of_store {t : St} (h : Inv w s) (hs : Tracked w.V t.store w.q ∧ Logged w.L t.store w.q)
    (hd : t.deletedGranules = s.deletedGranules) : Inv w t :=
  ⟨hs, by rw [hd]; exact h.pended⟩

theorem inv_changes {t : St} {A : Kind → Prop} (h : Inv w s) (hst : Changes A s.store t.store)
    (hA : ∀ k, A k → ∀ p, k = .unlink p → p ≠ w.q ∧ Avoids w.q p) (hr : ¬ A (.restore w.q))
    (hd : t.deletedGranules = s.deletedGranules) : Inv w t :=
  inv_of_store h (Tracked.changes hst w.logs hA hr h.store) hd

theorem inv_rollback (Γ : Ctx) (h : Inv w s) (hu : w.Undoable s) : Inv w (exec Γ .rollback s).2 := by
  have hch := rollback_changes s.store
  have hA : ∀ k, (∃ e ∈ s.store.roll, k = Kind.restore e.1) → ∀ p, k = .unlink p → p ≠ w.q ∧ Avoids w.q p := by
    rintro k ⟨e, -, rfl⟩ p he
    nomatch he
  refine inv_of_store h ?_ rfl
  rcases hu with hLV | hno
  · exact Tracked.changes_restore hch w.logs hLV hA h.store
  · refine Tracked.changes hch w.logs hA ?_ h.store
    rintro ⟨⟨c, b⟩, he, hk⟩
    obtain rfl : w.q = c := by simpa using hk
    exact hno b he

theorem inv_deleteGranule (Γ : Ctx) (h : Inv w s) {d : DataPtr} (hd : w.Elsewhere d) (dump : Dump) :
    Inv w (exec Γ (.deleteGranule d dump) s).2 := by
  have hA : ∀ k, (k = Kind.mark ∨ ∃ p, k = Kind.unlink p ∧ p <:+ d.parent) → ∀ p, k = .unlink p → p ≠ w.q ∧ Avoids w.q p := by
    rintro k (rfl | ⟨p', rfl, hp'⟩) p he
    · nomatch he
    · cases he
      exact hd.unlink hp'
  have hr : ¬ (Kind.restore w.q = Kind.mark ∨ ∃ p, Kind.restore w.q = Kind.unlink p ∧ p <:+ d.parent) := by simp
  cases dump
  · exact inv_changes h (deleteGranule_changes s.store d true s.dbToSaveZ) hA hr rfl
  · exact inv_changes h (deleteGranule_changes s.store d true s.dbDump) hA hr rfl

theorem inv_calcTreeHash (Γ : Ctx) (h : Inv w s) (dump : Dump) : Inv w (exec Γ (.calcTreeHash dump) s).2 := by
  have hA : ∀ k, k = Kind.hash → ∀ p, k = .unlink p → p ≠ w.q ∧ Avoids w.q p := by
    rintro k rfl p he
    nomatch he
  cases dump
  · exact inv_changes h (calcTreeHash_changes treeLevels [] (s.store, s.dbToSaveZ)) hA nofun rfl
  · exact inv_changes h (calcTreeHash_changes treeLevels [] (s.store, s.dbDump)) hA nofun rfl

theorem inv_assign (Γ : Ctx) (h : Inv w s) {d : DataPtr} {wr : Write} (hw : w.Keeps d wr) :
    Inv w (exec Γ (.assign d wr) s).2 := by
  simp only [exec]
  split
  · exact h
  · exact inv_of_store h ⟨h.store.1.setObj fun he hV => hw he _ hV, h.store.2⟩ rfl

theorem store_lookup {α : Type} (s : St) (r : Except Fault α) : (s.lookup r).2.store = s.store := by
  cases r <;> rfl

theorem deletedGranules_lookup {α : Type} (s : St) (r : Except Fault α) :
    (s.lookup r).2.deletedGranules = s.deletedGranules := by
  cases r <;> rfl

theorem inv_create (Γ : Ctx) (h : Inv w s) (p : Path) (o : DataObj) : Inv w (exec Γ (.create p o) s).2 := by
  refine inv_changes h (A := fun k => k.makes ∨ k = .construct) ?_ ?_ ?_ (deletedGranules_lookup _ _)
  · simp only [exec, store_lookup]
    exact create_changes s.store p o
  · rintro k ((rfl | rfl) | rfl) p he <;> nomatch he
  · rintro ((he | he) | he) <;> nomatch he

/-- One operation of a transaction or of a block keeps the leaf watched, and its answer agrees with the evidence. -/
theorem step (Γ : Ctx) (tx : TX) (o : Op) (hI : Inv w s) (hP : BlockFootprint Γ w.evidence tx o)
    (hw : ∀ d wr, o = .assign d wr → w.Keeps d wr) (hr : o = .rollback → w.Undoable s) :
    Inv w (exec Γ o s).2 ∧ w.evidence.Answers o (exec Γ o s).1 := by
  cases o with
  | look p =>
    refine ⟨inv_of_store hI ?_ (deletedGranules_lookup _ _), ?_⟩
    · simp only [exec, store_lookup]
      exact hI.store
    · simp only [exec]
      cases hr : s.store.look p with
      | error e => trivial
      | ok r => exact seen_look hI.store.1 hr
  | create p o =>
    refine ⟨inv_create Γ hI p o, ?_⟩
    simp only [exec]
    cases hr : (s.store.create p o).1 with
    | error e => trivial
    | ok r => exact made_create hI.store hr
  | replaceLeaf p b => exact hP.elim
  | deref d => exact ⟨hI, trivial⟩
  | assign d wr => exact ⟨inv_assign Γ hI (hw d wr rfl), trivial⟩
  | setDirty d roll =>
    refine ⟨inv_changes hI (setDirty_changes s.store roll d.parent) ?_ nofun rfl, trivial⟩
    rintro k rfl p he
    nomatch he
  | deleteGranule d dump =>
    refine ⟨inv_deleteGranule Γ hI ?_ dump, trivial⟩
    rcases hP with ⟨o, ho, hdel⟩ | hd
    · exact elsewhere_of_shown ho hdel
    · exact hd
  | calcTreeHash dump => exact ⟨inv_calcTreeHash Γ hI dump, trivial⟩
  | rollback => exact ⟨inv_rollback Γ hI (hr rfl), trivial⟩
  | beginTx value => exact ⟨⟨⟨hI.store.1.clearRoll, by simp [Logged, exec, St.endTx]⟩, by simp [exec, St.endTx]⟩, trivial⟩
  | endTx => exact ⟨⟨⟨hI.store.1.clearRoll, by simp [Logged, exec, St.endTx]⟩, by simp [exec, St.endTx]⟩, trivial⟩
  | pend d =>
    obtain ⟨o, ho, hdel⟩ := hP
    refine ⟨⟨hI.store, fun d' hd' => ?_⟩, trivial⟩
    simp only [exec] at hd'
    split at hd'
    · exact hI.pended d' hd'
    · rcases List.mem_append.1 hd' with hd' | hd'
      · exact hI.pended d' hd'
      · obtain rfl := List.mem_singleton.1 hd'
        exact elsewhere_of_shown ho hdel
  | pending => exact ⟨hI, hI.pended⟩
  | _ => exact ⟨⟨hI.store, hI.pended⟩, trivial⟩

/-- A turn of the loop of `execute_block` keeps the leaf watched, if its writes keep what is known of it and the log may be put
back. -/
theorem keeps_executeBlockTx {Γ : Ctx} {tx : TX} (hLV : ∀ g o, w.L o → w.V g o)
    (hw : ∀ d wr, TxWrite Γ w.evidence tx d wr ∨ FrameWrite w.evidence d wr → w.Keeps d wr) (b : BParams) :
    Prog.Keeps (exec Γ) (Inv w) (executeBlockTx Γ b tx) := by
  intro s hs
  have hfit : FitsBlock Γ w.evidence tx (executeBlockTx Γ b tx) fun _ => True := fitsBlock_executeBlockTx b
  refine (run_safe (fun o s hP hI => ?_) hfit hs).1
  refine step Γ tx o hI hP ?_ fun _ => .inl hLV
  rintro d wr rfl
  exact hw d wr hP

/-- What the block does around the transactions keeps the leaf watched, if its writes do. -/
theorem keeps_frame {Γ : Ctx} {α : Type} {m : Eff α} (h : FitsFrame w.evidence m fun _ => True)
    (hw : ∀ d wr, FrameWrite w.evidence d wr → w.Keeps d wr) : Prog.Keeps (exec Γ) (Inv w) m := by
  intro s hs
  refine (run_safe (fun o s hP hI => ?_) h hs).1
  refine step Γ ⟨"", "", ""⟩ o hI (FrameFootprint.block hP) ?_ ?_
  · rintro d wr rfl
    exact hw d wr hP
  · rintro rfl
    exact hP.elim

end Watch

end Grain
