import Grain.Lemmas.Blocks

/-!
# Between transactions

Between two transactions there is no rollback log and nothing waits to be deleted.
-/

namespace Grain

open Prog Eff

/-- No transaction is under way. -/
def Idle (s : St) : Prop := s.store.roll = [] ∧ s.deletedGranules = []

/-- The operations that leave the log and the deletions as they are. -/
@[simp]
def Quiet : Op → Prop
  | .create _ _ | .replaceLeaf _ _ | .deleteGranule _ _ | .rollback | .beginTx _ | .pend _ => False
  | .setDirty _ roll => roll = false
  | _ => True

theorem calcTreeHash_roll (n : Nat) (c : CellPtr) (x : Store × DbToSave) :
    (Store.calcTreeHash n c x).1.roll = x.1.roll := by
  refine (Store.calcTreeHash_changes n c x).inv (I := fun s => s.roll = x.1.roll) ?_ rfl
  rintro k s t rfl hst ih
  rw [← ih]
  cases hst <;> rfl

theorem setDirty_false_roll (s : Store) (c : CellPtr) : (s.setDirty false c).roll = s.roll := by
  induction c generalizing s with
  | nil => rfl
  | cons x c ih =>
    rw [Store.setDirty, ih]
    unfold Store.enter
    split <;> rfl

theorem Quiet.idle (Γ : Ctx) (o : Op) (s : St) (h : Quiet o) (hs : Idle s) : Idle (exec Γ o s).2 := by
  cases o with
  | look p =>
    simp only [exec]
    cases s.store.look p <;> exact hs
  | assign d w =>
    simp only [exec]
    split <;> exact hs
  | setDirty d roll =>
    obtain rfl : roll = false := h
    exact ⟨by rw [← hs.1]; exact setDirty_false_roll _ _, hs.2⟩
  | calcTreeHash dump =>
    cases dump <;> exact ⟨by rw [← hs.1]; exact calcTreeHash_roll _ _ _, hs.2⟩
  | endTx => exact ⟨rfl, rfl⟩
  | create | replaceLeaf | deleteGranule | rollback | beginTx | pend => exact h.elim
  | _ => exact hs

variable {Γ : Ctx}

/-- Code that keeps the log and the deletions. -/
theorem keeps_idle {α : Type} {m : Eff α} (h : Safe Quiet (fun _ _ => True) m fun _ => True) : Keeps (exec Γ) Idle m :=
  .of_safe (Quiet.idle Γ) h

/-- After `execute_transaction`, whatever happened in it, there is no transaction under way. -/
theorem idle_inTx {α : Type} (m : Eff α) (s : St) : Idle (runEff Γ (inTx m) s).2 := by
  simp only [runEff, inTx, run_handle, run_bind]
  rcases run (exec Γ) m s with ⟨e | a, t⟩ <;> exact ⟨rfl, rfl⟩

theorem keeps_idle_catchErr {m : Eff Unit} (h : Keeps (exec Γ) Idle m) : Keeps (exec Γ) Idle (catchErr m) := by
  refine .handle (.bind h fun _ _ hs => hs) fun e => ?_
  cases e <;> exact fun _ hs => hs

theorem quiet_getNoCreate {τ : Type} (n : Name) (cast : Payload → Option τ) {Q : Option (Leaf τ) → Prop} (h : ∀ x, Q x) :
    Safe Quiet (fun _ _ => True) (getNoCreate Γ n cast) Q := by
  simp [getNoCreate, h]

theorem quiet_getAddress (addr : String) {Q : Option (Leaf BcAddressState) → Prop} (h : ∀ x, Q x) :
    Safe Quiet (fun _ _ => True) (getAddressStateNoCreate Γ addr) Q := by
  simp only [getAddressStateNoCreate, checkAddr, safe_bind, safe_raiseIf]
  exact fun _ => quiet_getNoCreate _ _ h

theorem idle_checkAndExecute (b : BParams) (tx : TX) : Keeps (exec Γ) Idle (checkAndExecute Γ b tx) := by
  unfold checkAndExecute
  refine .bind (keeps_idle ?_) fun sender => ?_
  · simp only [checkSender, safe_bind, safe_failIf, safe_lift]
    exact fun _ _ _ => quiet_getAddress _ fun x => by simp
  refine .bind (keeps_idle ?_) fun u => .bind (keeps_idle (by simp)) fun _ => .bind (keeps_idle (by simp)) fun _ => ?_
  · exact (safe_bind _ _ _).2 (quiet_getAddress _ fun x => by simp)
  refine .bind (keeps_idle_catchErr fun s _ => idle_inTx _ s) fun r => keeps_idle ?_
  cases r <;> simp

theorem idle_executeBlockTx (b : BParams) (tx : TX) : Keeps (exec Γ) Idle (executeBlockTx Γ b tx) := by
  refine .bind (keeps_idle_catchErr (idle_checkAndExecute b tx)) fun r => keeps_idle ?_
  cases r <;> simp [emitTx]

theorem idle_executeTxs (b : BParams) (txs : List TX) : Keeps (exec Γ) Idle (executeTxs Γ b txs) := by
  induction txs with
  | nil => exact fun _ hs => hs
  | cons tx txs ih => exact .bind (idle_executeBlockTx b tx) fun _ => ih

/-- What the block does around the transactions leaves the log and the deletions as they are. -/
theorem FrameFootprint.quiet {ev : Evidence} {o : Op} (h : FrameFootprint ev o) : Quiet o := by
  cases o with
  | setDirty d roll => exact h.1
  | create | replaceLeaf | deleteGranule | rollback | beginTx | pend => exact h.elim
  | _ => trivial

/-- The evidence that says nothing. -/
def Evidence.any : Evidence := ⟨fun _ _ => True, fun _ _ _ => True, fun _ => True⟩

theorem Evidence.any_answers (o : Op) (r : Resp o) : Evidence.any.Answers o r := by
  cases o with
  | look | create => cases r <;> trivial
  | pending => exact fun _ _ => trivial
  | _ => trivial

theorem keeps_idle_frame {α : Type} {m : Eff α} (h : FitsFrame Evidence.any m fun _ => True) : Keeps (exec Γ) Idle m := by
  intro s hs
  refine (run_safe (fun o s hP hI => ?_) h hs).1
  exact ⟨Quiet.idle Γ o s (FrameFootprint.quiet hP) hI, Evidence.any_answers _ _⟩

/-! ## The transactions of a block -/

/-- The state of a block's execution after some of its transactions. -/
def afterTxs (Γ : Ctx) (b : BParams) (newEpoch : Int) (txs : List TX) (s : St) : St :=
  (runEff Γ (do beginBlock Γ newEpoch; executeTxs Γ b txs) s).2

/-- The run of a block's transactions up to one of them, and that one. -/
theorem executeTxs_concat (b : BParams) (txs : List TX) (tx : TX) (s : St) :
    (runEff Γ (executeTxs Γ b (txs ++ [tx])) s).2 = match runEff Γ (executeTxs Γ b txs) s with
      | (.ok _, t) => (runEff Γ (executeBlockTx Γ b tx) t).2
      | (.error _, t) => t := by
  induction txs generalizing s with
  | nil =>
    simp only [List.nil_append, executeTxs, runEff, run_bind, run_pure]
    rcases run (exec Γ) (executeBlockTx Γ b tx) s with ⟨_ | _, t⟩ <;> rfl
  | cons x txs ih =>
    simp only [List.cons_append, executeTxs, runEff, run_bind]
    rcases run (exec Γ) (executeBlockTx Γ b x) s with ⟨_ | _, t⟩
    · rfl
    · exact ih t

/-- A further transaction of a block: it is run on the state that the others left, unless one of them raised an exception. -/
theorem afterTxs_concat (b : BParams) (newEpoch : Int) (txs : List TX) (tx : TX) (s : St) :
    afterTxs Γ b newEpoch (txs ++ [tx]) s = (runEff Γ (executeBlockTx Γ b tx) (afterTxs Γ b newEpoch txs s)).2 ∨
      afterTxs Γ b newEpoch (txs ++ [tx]) s = afterTxs Γ b newEpoch txs s := by
  simp only [afterTxs, runEff, run_bind]
  rcases run (exec Γ) (beginBlock Γ newEpoch) s with ⟨_ | _, t⟩
  · exact .inr rfl
  · have h := executeTxs_concat (Γ := Γ) b txs tx t
    simp only [runEff] at h
    dsimp only
    rcases hr : run (exec Γ) (executeTxs Γ b txs) t with ⟨_ | _, u⟩ <;> rw [hr] at h
    · exact .inr h
    · exact .inl h

end Grain
