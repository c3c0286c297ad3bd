import Grain.Lemmas.Events
import Grain.Theorems.Reader

/-!
# Views are read-only

A view reads granules, keeps the state of its contract's global objects and takes the interrupt handler of its runtime out.
Whatever its code does, and however it ends, the rest of the state is as it was: the tree with its rollback log, the variables of
the transaction, the emits and the deletions. The same holds of the views of the reader service and what it reads.
-/

namespace Grain

open Prog Eff

variable {Γ : Ctx}

/-- Only the contracts' global objects, the interrupt handlers and the requests for granules of other nodes differ: the tree and
its rollback log, `t.value`, `t.gasUsed`, the deleted granules, the pending writes and the emits are the same. -/
def ReadOnly (s u : St) : Prop := ∃ y c h, u = { s with sync := y, contractCache := c, handlers := h }

/-- The operations of a view. -/
@[simp]
def ViewOp : Op → Prop
  | .look _ | .cached _ | .cache _ _ | .setHandler _ _ => True
  | _ => False

theorem ReadOnly.refl (s : St) : ReadOnly s s := ⟨s.sync, s.contractCache, s.handlers, rfl⟩

theorem ViewOp.readOnly {s u : St} (o : Op) (ho : ViewOp o) (h : ReadOnly s u) : ReadOnly s (exec Γ o u).2 := by
  obtain ⟨y, c, hs, rfl⟩ := h
  cases o with
  | look p =>
    simp only [exec]
    cases s.store.look p with
    | ok x => exact ⟨y, c, hs, rfl⟩
    | error e => exact ⟨_, c, hs, rfl⟩
  | cached name => exact ⟨y, c, hs, rfl⟩
  | cache name cc => exact ⟨y, _, hs, rfl⟩
  | setHandler name on => exact ⟨y, c, _, rfl⟩
  | _ => exact ho.elim

/-- Code that only makes such accesses, whatever answers it gets. -/
abbrev Views {α : Type} (m : Eff α) : Prop := Safe ViewOp (fun _ _ => True) m fun _ => True

theorem Views.bind {α β : Type} {m : Eff α} {f : α → Eff β} (hm : Views m) (hf : ∀ a, Views (f a)) : Views (m >>= f) :=
  (safe_bind _ _ _).2 (hm.post fun a _ => hf a)

theorem Views.readOnly {α : Type} {m : Eff α} (h : Views m) (s : St) : ReadOnly s (runEff Γ m s).2 :=
  Keeps.of_safe (fun o _ ho hu => ViewOp.readOnly o ho hu) h s (.refl s)

/-! ## The code of a view -/

theorem views_look (p : Path) : Views (Eff.look p) := by
  simp [Eff.look, Eff.op]

theorem views_jsiGetGranule (self key : String) : Views (jsiGetGranule Γ self key) := by
  refine .bind (by simp) fun _ => .bind (.bind (views_look _) fun _ => trivial) fun _ => trivial

theorem views_viewHost (self : String) (h : HostCall) : Views (viewHost Γ self h) := by
  cases h with
  | getGranule key =>
    refine .bind (safe_handle (views_jsiGetGranule _ _) fun e => ?_) fun _ => trivial
    rcases e with _ | (_ | _ | _ | _ | _) <;> trivial
  | _ => trivial

/-- A script in a view, by its calls: each is answered by the interface of the view. -/
theorem views_runScript (name src self : String) (script : Script) (ev : Events) :
    Views (runScript name src (viewHost Γ self) (pure false) script ev) := by
  induction script generalizing ev with
  | done r heap => exact .bind (by simp [saveHeap]) fun _ => trivial
  | throw text heap => exact .bind (by simp [saveHeap]) fun _ => trivial
  | step heap k ih => exact ih _
  | call heap h k ih =>
    exact .bind (by simp [saveHeap]) fun _ => .bind (views_viewHost self h) fun r =>
      .bind (.bind (by simp) fun _ => trivial) fun heap => ih _ _ _

theorem views_callContractView (n : Nat) (name : String) (cc : ContractContext) (view : String) (params : Json) :
    Views (callContractView Γ n name cc view params) := by
  unfold callContractView
  split
  · trivial
  · split
    · trivial
    · exact .bind (by simp) fun _ => views_runScript _ _ _ _ _

theorem views_getContract (name : String) : Views (getContract Γ name) := by
  unfold getContract
  refine .bind (by simp) fun x => ?_
  cases x with
  | some cc => trivial
  | none =>
    refine .bind (.bind (views_look _) fun _ => trivial) fun con => ?_
    cases con with
    | none => trivial
    | some con =>
      dsimp only
      split
      · trivial
      · exact .bind (by simp) fun _ => trivial

theorem views_jsiCallView (n : Nat) (self contract view : String) (params : Json) :
    Views (emitsTry (jsiCallView Γ n self contract view params)) := by
  have hcall : Views (jsiCallView Γ n self contract view params) := by
    refine .bind (by simp) fun _ => .bind (by simp) fun _ => .bind (.bind (views_getContract _) fun _ => by simp) fun cc => ?_
    exact views_callContractView _ _ _ _ _
  refine safe_handle hcall fun e => ?_
  rcases e with _ | (_ | _ | _ | _ | _) <;> trivial

/-- What a call hands to the frame that it was made from. -/
def emitsOf (r : Except Stop (HostRes × Events)) : Events := (r.toOption.map (·.2)).getD []

theorem emitsOf_eq_nil {m : Eff (HostRes × Events)} {s : St}
    (h : ∀ r ev u, runEff Γ m s = (.ok (r, ev), u) → ev = []) : emitsOf (runEff Γ m s).1 = [] := by
  rcases hr : runEff Γ m s with ⟨e | ⟨r, ev⟩, u⟩
  · rfl
  · exact h r ev u hr

/-! ## The views of the reader service -/

namespace GrainReader

variable {s s' s'' : GrainReader} {c : String}

/-- The leaf under a name, as the current root shows it. -/
def leaf {τ : Type} (Γ : Ctx) (s : GrainReader) (n : Name) (cast : Payload → Option τ) : Except Stop (Option (DataObj × τ)) :=
  match s.root with
  | none => .error (.exn .nullDeref)
  | some k => (s.within k (ReadTree.getNoCreate Γ s.db n cast)).1

/-- Only contexts of the cache and cells that were loaded from the database differ. -/
structure Kept (s s' : GrainReader) : Prop where
  db : s'.db = s.db
  root : s'.root = s.root
  roots : ∀ m r, s.roots m = some r → r.Rooted → ∃ r', s'.roots m = some r' ∧ ReadTree.Reads s.db r r'

theorem Kept.refl (s : GrainReader) : Kept s s := ⟨rfl, rfl, fun _ r hr _ => ⟨r, hr, .refl r⟩⟩

theorem Kept.trans (h : Kept s s') (h' : Kept s' s'') : Kept s s'' := by
  refine ⟨h'.db.trans h.db, h'.root.trans h.root, fun m r hr hroot => ?_⟩
  obtain ⟨r', hr', hreads⟩ := h.roots m r hr hroot
  obtain ⟨r'', hr'', hreads'⟩ := h'.roots m r' hr' (hreads.rooted hroot)
  rw [h.db] at hreads'
  exact ⟨r'', hr'', hreads.trans hreads'⟩

theorem Read.kept (h : Read s s') : Kept s s' := ⟨h.db, h.root, h.roots⟩

theorem kept_cache (s : GrainReader) (cache : StdMap String ReaderContext) : Kept s { s with contractCache := cache } :=
  ⟨rfl, rfl, fun _ r hr _ => ⟨r, hr, .refl r⟩⟩

theorem kept_runView (name : String) (cc : ReaderContext) (script : Script) (m : Nat) (s : GrainReader) :
    Kept s (runView Γ name cc script m s).2 := by
  induction script generalizing m s with
  | done r heap => exact kept_cache s _
  | throw text heap => exact kept_cache s _
  | step heap k ih =>
    cases m with
    | zero => exact kept_cache s _
    | succ m => exact ih m s
  | call heap h k ih =>
    have hread : Read s (s.viewHost Γ name cc.root h).2 := read_viewHost
    unfold runView
    rcases hv : s.viewHost Γ name cc.root h with ⟨x, t⟩
    rw [hv] at hread
    cases x with
    | error e => exact hread.kept
    | ok r => exact hread.kept.trans (ih r heap m t)

theorem kept_getContract (n : Nat) (name : String) (s : GrainReader) : Kept s (s.getContract Γ n name).2 := by
  unfold getContract
  split
  · exact .refl s
  have hread : Read s (s.loadSource Γ n name).2 := read_loadSource
  rcases hl : s.loadSource Γ n name with ⟨x, t⟩
  rw [hl] at hread
  rcases x with e | _ | src
  · exact hread.kept
  · exact hread.kept
  · dsimp only
    split
    · exact hread.kept
    · exact hread.kept.trans (kept_cache t _)

/-- A request for a view, whatever becomes of it. -/
theorem kept_callViewREQ (parse : String → Except String Json) (contract view paramsJson : String) (points : Nat)
    (s : GrainReader) : Kept s (s.clientMsg Γ parse (.callViewREQ contract view paramsJson points)).2 := by
  unfold clientMsg
  dsimp only
  split
  · exact .refl s
  rename_i n _
  have hget : Kept s (s.getContract Γ n contract).2 := kept_getContract n contract s
  rcases hg : s.getContract Γ n contract with ⟨x, t⟩
  rw [hg] at hget
  rcases x with e | _ | cc
  · exact hget
  · exact hget
  · dsimp only
    split
    · exact hget
    · split
      · exact hget
      · split
        · exact hget
        · exact hget.trans (kept_runView _ _ _ _ _)

/-- What was only read shows the same leaves. -/
theorem Kept.leaf_eq {τ : Type} (h : Kept s s') (hi : s.Inv Γ) (n : Name) (cast : Payload → Option τ) :
    s'.leaf Γ n cast = s.leaf Γ n cast := by
  unfold leaf
  rw [h.root]
  cases hroot : s.root with
  | none => rfl
  | some k =>
    obtain ⟨-, r, hr, hrooted⟩ := hi.live k hroot
    obtain ⟨r', hr', hreads⟩ := h.roots k r hr hrooted
    dsimp only
    rw [within_of_roots hr, within_of_roots hr', h.db]
    exact hreads.getNoCreate_eq hrooted

end GrainReader

/-! ## Views are read-only -/

end Grain
