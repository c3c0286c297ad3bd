import Grain.HeartBeat

/-!
# Code that only reads the tree

A lookup leaves the state as it is, unless it raises for a granule that does not have its recorded hash: then it asks for that
granule. What a piece of code made of lookups returns depends on the store alone, and where it returns a value the state is the
one it started from.
-/

namespace Grain

open Prog Eff

variable {Γ : Ctx} {α β : Type}

/-- The code is a lookup in the store. -/
def Reads (Γ : Ctx) (m : Eff α) : Prop := ∃ f : Store → Except Fault α, ∀ s, runEff Γ m s = s.lookup (f s.store)

namespace Reads

theorem ret (a : α) : Reads Γ (.ret a : Eff α) := ⟨fun _ => .ok a, fun _ => rfl⟩

theorem pure (a : α) : Reads Γ (Pure.pure a : Eff α) := ret a

theorem stop (e : Stop) : Reads Γ (.stop e : Eff α) := ⟨fun _ => .error { stop := e }, fun _ => rfl⟩

theorem bind {m : Eff α} {k : α → Eff β} (hm : Reads Γ m) (hk : ∀ a, Reads Γ (k a)) : Reads Γ (m >>= k) := by
  obtain ⟨f, hf⟩ := hm
  choose g hg using hk
  refine ⟨fun s => f s >>= fun a => g a s, fun s => ?_⟩
  have h := hf s
  unfold runEff at h ⊢
  rw [run_bind, h]
  simp only
  cases f s.store with
  | error e => rfl
  | ok a => exact hg a s

theorem ofExcept (x : Except Stop α) : Reads Γ (Prog.ofExcept x : Eff α) := by
  cases x with
  | ok a => exact ret a
  | error e => exact stop e

theorem ite {c : Prop} [Decidable c] {m k : Eff α} (hm : Reads Γ m) (hk : Reads Γ k) : Reads Γ (if c then m else k) := by
  split
  · exact hm
  · exact hk

theorem look (p : Path) : Reads Γ (Eff.look p) := by
  refine ⟨fun s => s.look p, fun s => ?_⟩
  cases h : s.store.look p <;> simp [runEff, Eff.look, Eff.op, run_bind, exec, St.lookup, h]

theorem need (x : Option α) : Reads Γ (Eff.need x) := by
  cases x with
  | none => exact stop _
  | some a => exact ret a

theorem raiseIf (c : Prop) [Decidable c] (msg : String) : Reads Γ (Eff.raiseIf c msg) := ite (stop _) (ret ())

theorem lift (x : Except Stop α) : Reads Γ (Eff.lift x) := ofExcept x

theorem quot (a b : Int) : Reads Γ (Eff.quot a b) := ite (stop _) (ret _)

theorem getNoCreate (n : Name) (cast : Payload → Option α) : Reads Γ (Grain.getNoCreate Γ n cast) :=
  (look _).bind fun _ => pure _

theorem getNodeNoCreate (name : String) : Reads Γ (Grain.getNodeNoCreate Γ name) := getNoCreate _ _

theorem needAll (l : List (Option α)) : Reads Γ (Grain.needAll l) := by
  induction l with
  | nil => exact pure []
  | cons a l ih => exact (need a).bind fun b => ih.bind fun bs => pure _

theorem getNodes (l : List String) : Reads Γ (Grain.getNodes Γ l) := by
  induction l with
  | nil => exact pure []
  | cons z l ih => exact (getNodeNoCreate z).bind fun n => ih.bind fun r => pure _

theorem getAllNodes : Reads Γ (Grain.getAllNodes Γ) :=
  (getNoCreate _ _).bind fun _ => (raiseIf _ _).bind fun _ => (need _).bind fun _ => getNodes _

theorem enabledNodes : Reads Γ (Grain.enabledNodes Γ) :=
  getAllNodes.bind fun _ => (needAll _).bind fun _ => pure _

theorem enabledStake : Reads Γ (Grain.enabledStake Γ) := enabledNodes.bind fun _ => pure _

theorem signers (msg : String) (l : List String) : Reads Γ (Grain.signers Γ msg l) := by
  induction l with
  | nil => exact pure []
  | cons z l ih =>
    exact (getNodeNoCreate z).bind fun n => (raiseIf _ _).bind fun _ => (need _).bind fun _ => ih.bind fun _ => pure _

theorem verifyBlockAll (lc : Option BlockAccepted2REQ) : Reads Γ (Grain.verifyBlockAll Γ lc) := by
  cases lc with
  | none => exact pure false
  | some lc =>
    exact (signers _ _).bind fun _ => enabledStake.bind fun _ => (quot _ _).bind fun _ => ite (pure _) (pure _)

theorem committeeValue (name : String) : Reads Γ (Grain.committeeValue Γ name) :=
  ((getNoCreate _ _).bind need).bind fun _ => lift _

/-- Code that reads leaves all but the requests for granules. -/
theorem frame {m : Eff α} (h : Reads Γ m) (s : St) : ∃ y, (runEff Γ m s).2 = { s with sync := y } := by
  obtain ⟨f, hf⟩ := h
  rw [hf]
  cases f s.store with
  | ok a => exact ⟨s.sync, rfl⟩
  | error e => exact ⟨_, rfl⟩

/-- Where it returns a value, it leaves everything. -/
theorem state_eq {m : Eff α} (h : Reads Γ m) {s : St} {a : α} (hok : (runEff Γ m s).1 = .ok a) : (runEff Γ m s).2 = s := by
  obtain ⟨f, hf⟩ := h
  rw [hf] at hok ⊢
  cases hfs : f s.store with
  | ok a => rfl
  | error e =>
    rw [hfs] at hok
    nomatch hok

/-- What it returns depends on the store alone. -/
theorem result_eq {m : Eff α} (h : Reads Γ m) {s s' : St} (hs : s.store = s'.store) :
    (runEff Γ m s).1 = (runEff Γ m s').1 := by
  obtain ⟨f, hf⟩ := h
  rw [hf, hf, hs]
  cases f s'.store <;> rfl

end Reads

/-! ## Running a handler -/

@[simp] theorem runNode_pure (a : α) (s : NodeSt) : runNode (pure a : Node α) s = (.ok a, s) := rfl

@[simp] theorem runNode_ret (a : α) (s : NodeSt) : runNode (.ret a : Node α) s = (.ok a, s) := rfl

@[simp] theorem runNode_stop (e : Stop) (s : NodeSt) : runNode (.stop e : Node α) s = (.error e, s) := rfl

@[simp] theorem runNode_get_bind (k : NodeSt → Node α) (s : NodeSt) : runNode (Node.get >>= k) s = runNode (k s) s := rfl

@[simp] theorem runNode_modify (f : NodeSt → NodeSt) (s : NodeSt) : runNode (Node.modify f) s = (.ok (), f s) := rfl

@[simp] theorem runNode_modify_bind (f : NodeSt → NodeSt) (k : Unit → Node α) (s : NodeSt) :
    runNode (Node.modify f >>= k) s = runNode (k ()) (f s) := rfl

@[simp] theorem runNode_send (m : Sent) (s : NodeSt) : runNode (Node.send m) s = (.ok (), s.log m) := rfl

@[simp] theorem runNode_send_bind (m : Sent) (k : Unit → Node α) (s : NodeSt) :
    runNode (Node.send m >>= k) s = runNode (k ()) (s.log m) := rfl

@[simp] theorem runNode_ofExcept (x : Except Stop α) (s : NodeSt) : runNode (Prog.ofExcept x : Node α) s = (x, s) :=
  run_ofExcept _ _ _

/-- A sequence of handler code. -/
theorem runNode_bind (m : Node α) (k : α → Node β) (s : NodeSt) :
    runNode (m >>= k) s =
      match runNode m s with
      | (.ok a, t) => runNode (k a) t
      | (.error e, t) => (.error e, t) := by
  unfold runNode
  rw [run_bind]
  rcases run nodeExec m s with ⟨_ | a, t⟩ <;> rfl

theorem runNode_bind_ok {m : Node α} {k : α → Node β} {s t : NodeSt} {a : α} (h : runNode m s = (.ok a, t)) :
    runNode (m >>= k) s = runNode (k a) t :=
  run_bind_ok _ h

theorem runNode_bind_error {m : Node α} {k : α → Node β} {s t : NodeSt} {e : Stop} (h : runNode m s = (.error e, t)) :
    runNode (m >>= k) s = (.error e, t) :=
  run_bind_error _ h

/-- Code over the tree inside a handler. -/
theorem runNode_tree (m : Eff α) (s : NodeSt) :
    runNode (Node.tree Γ m) s = ((runEff Γ m s.st).1, { s with st := (runEff Γ m s.st).2 }) := by
  change runNode (Prog.ofExcept (runEff Γ m s.st).1 : Node α) { s with st := (runEff Γ m s.st).2 } = _
  rw [runNode_ofExcept]

/-- Code that reads and returns a value inside a handler. -/
theorem runNode_tree_ok {m : Eff α} (h : Reads Γ m) {s : NodeSt} {a : α} (hok : (runEff Γ m s.st).1 = .ok a) :
    runNode (Node.tree Γ m) s = (.ok a, s) := by
  rw [runNode_tree, hok, h.state_eq hok]

/-- A sequence that ended with a value ran its first part to a value. -/
theorem runNode_bind_inv {m : Node α} {k : α → Node β} {s : NodeSt} {b : β} (h : (runNode (m >>= k) s).1 = .ok b) :
    ∃ a t, runNode m s = (.ok a, t) ∧ (runNode (k a) t).1 = .ok b := by
  rw [runNode_bind] at h
  rcases hm : runNode m s with ⟨_ | a, t⟩ <;> rw [hm] at h
  · nomatch h
  · exact ⟨a, t, rfl, h⟩

theorem runNode_tree_inv {m : Eff α} (hm : Reads Γ m) {s t : NodeSt} {a : α} (h : runNode (Node.tree Γ m) s = (.ok a, t)) :
    (runEff Γ m s.st).1 = .ok a ∧ t = s := by
  rw [runNode_tree] at h
  obtain ⟨hok, rfl⟩ := Prod.mk.inj h
  exact ⟨hok, by rw [hm.state_eq hok]⟩

theorem runNode_raiseIf {c : Prop} [Decidable c] (hc : ¬ c) (msg : String) (s : NodeSt) :
    runNode (Node.raiseIf c msg) s = (.ok (), s) := by
  unfold Node.raiseIf
  rw [if_neg hc]
  rfl

theorem runNode_raiseIf_inv {c : Prop} [Decidable c] {msg : String} {s t : NodeSt} {a : Unit}
    (h : runNode (Node.raiseIf c msg) s = (.ok a, t)) : ¬ c ∧ t = s := by
  unfold Node.raiseIf at h
  split at h
  · nomatch h
  next hc => exact ⟨hc, (Prod.mk.inj h).2.symm⟩

/-! ## Calm code -/

/-- Nothing has changed but the requests for granules and the cache of metadata. -/
def Calm (s t : NodeSt) : Prop := ∃ y m, t = { s with st := { s.st with sync := y }, blockMetaFull := m }

namespace Calm

theorem refl (s : NodeSt) : Calm s s := ⟨s.st.sync, s.blockMetaFull, rfl⟩

theorem trans {s t u : NodeSt} (h : Calm s t) (h' : Calm t u) : Calm s u := by
  obtain ⟨y, m, rfl⟩ := h
  obtain ⟨y', m', rfl⟩ := h'
  exact ⟨y', m', rfl⟩

theorem setMeta (s : NodeSt) (root : String) (win : Int) (m : BlockMetaFull) : Calm s (s.setMeta root win m) :=
  ⟨s.st.sync, _, rfl⟩

end Calm

/-- Every run of the code is calm. -/
def RunsCalm (m : Node α) : Prop := ∀ s, Calm s (runNode m s).2

namespace RunsCalm

theorem pure (a : α) : RunsCalm (Pure.pure a : Node α) := fun s => .refl s

theorem stop (e : Stop) : RunsCalm (.stop e : Node α) := fun s => .refl s

theorem bind {m : Node α} {k : α → Node β} (hm : RunsCalm m) (hk : ∀ a, RunsCalm (k a)) : RunsCalm (m >>= k) := by
  intro s
  have h := hm s
  rw [runNode_bind]
  rcases hr : runNode m s with ⟨e | a, t⟩ <;> rw [hr] at h
  · exact h
  · exact h.trans (hk a t)

theorem get : RunsCalm Node.get := fun s => .refl s

theorem setMeta (root : String) (win : Int) (m : BlockMetaFull) : RunsCalm (Node.modify fun s => s.setMeta root win m) :=
  fun s => .setMeta s root win m

theorem ofExcept (x : Except Stop α) : RunsCalm (Prog.ofExcept x : Node α) := by
  intro s
  rw [runNode_ofExcept]
  exact .refl s

theorem ite {c : Prop} [Decidable c] {m k : Node α} (hm : RunsCalm m) (hk : RunsCalm k) : RunsCalm (if c then m else k) := by
  split
  · exact hm
  · exact hk

theorem raiseIf (c : Prop) [Decidable c] (msg : String) : RunsCalm (Node.raiseIf c msg) := ite (stop _) (pure ())

theorem tree {m : Eff α} (h : Reads Γ m) : RunsCalm (Node.tree Γ m) := by
  intro s
  rw [runNode_tree]
  obtain ⟨y, hy⟩ := h.frame s.st
  exact ⟨y, s.blockMetaFull, by rw [hy]⟩

theorem strictCommittee (Γ : NodeCtx) (root : String) (win count answeredMin minStake : Int) (l : List NodeElement)
    (m : BlockMetaFull) (c : List NodeElement) :
    RunsCalm (Grain.strictCommittee Γ root win count answeredMin minStake l m c) := by
  induction l generalizing m c with
  | nil => exact pure c
  | cons x l ih =>
    refine ite ((tree (.getNodeNoCreate _)).bind fun n => ?_) (pure c)
    cases n with
    | none => exact ih m c
    | some n => exact ite ((setMeta _ _ _).bind fun _ => ih _ _) (ih m c)

theorem chooseCommittee (Γ : NodeCtx) (root : String) (win count : Int) (elements : List NodeElement) (m : BlockMetaFull) :
    RunsCalm (Grain.chooseCommittee Γ root win count elements m) := by
  refine (tree (.committeeValue _)).bind fun minStake => (tree (.committeeValue _)).bind fun answeredMin => ?_
  refine (strictCommittee _ _ _ _ _ _ _ _ _).bind fun strict => (setMeta _ _ _).bind fun _ => (raiseIf _ _).bind fun _ => ?_
  exact (ofExcept _).bind fun _ => (setMeta _ _ _).bind fun _ => pure _

theorem computeMeta (Γ : NodeCtx) (root : String) (win : Int) : RunsCalm (Grain.computeMeta Γ root win) := by
  refine (setMeta _ _ _).bind fun _ => (tree .enabledNodes).bind fun ns => (tree (.committeeValue _)).bind fun pct => ?_
  refine get.bind fun s => (setMeta _ _ _).bind fun _ => (ofExcept _).bind fun all => (setMeta _ _ _).bind fun _ => ?_
  exact (raiseIf _ _).bind fun _ => chooseCommittee _ _ _ _ _ _

theorem getMetaFull (Γ : NodeCtx) (ti : Int) : RunsCalm (Grain.getMetaFull Γ ti) := by
  refine get.bind fun s => ?_
  cases s.metaAt s.prevRootHashZ (window ti) with
  | some m => exact pure m
  | none => exact computeMeta Γ _ _

theorem nodeIp (msg name : String) : RunsCalm (Grain.nodeIp Γ msg name) := by
  refine (tree (.getNodeNoCreate name)).bind fun n => ?_
  cases n with
  | none => exact stop _
  | some n => exact pure _

theorem judgeFirst (Γ : NodeCtx) (t : Clock) (h : HeartBeatREQ) : RunsCalm (Grain.judgeFirst Γ t h) := by
  refine (getMetaFull Γ _).bind fun mf => get.bind fun s => ?_
  cases (s.cli h.prevRootHash1).nodeLeader with
  | some l => exact (ofExcept _).bind fun b => .ite (pure _) (pure _)
  | none => exact (ofExcept _).bind fun b => .ite (pure _) (pure _)

theorem judgeSame (Γ : NodeCtx) (t : Clock) (h : HeartBeatREQ) (remote localPrev : BlockAccepted2REQ) :
    RunsCalm (Grain.judgeSame Γ t h remote localPrev) := by
  refine get.bind fun s => .ite (pure _) (.ite (pure _) ?_)
  cases (s.cli h.prevRootHash1).nodeLeader with
  | some l =>
    refine .ite ?_ (pure _)
    exact (getMetaFull Γ _).bind fun mf => (ofExcept _).bind fun b => .ite (pure _) (pure _)
  | none => exact (getMetaFull Γ _).bind fun mf => (ofExcept _).bind fun b => .ite (pure _) (pure _)

theorem judgeNext (Γ : NodeCtx) (t : Clock) (h : HeartBeatREQ) (remote localPrev : BlockAccepted2REQ) :
    RunsCalm (Grain.judgeNext Γ t h remote localPrev) :=
  .ite (pure _) (.ite (pure _) (judgeSame Γ t h remote localPrev))

end RunsCalm

end Grain
