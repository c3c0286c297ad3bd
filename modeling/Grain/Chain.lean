import Grain.Genesis

/-!
# The states of the chain

After the first state, the state of block execution changes in steps: the start of a block, each of its transactions, its end,
and the write of the granules that it has filed. A chain is any list of such steps; those of the blocks that a node executes are
among them (`executeBlock_steps`).
-/

namespace Grain

open Prog Eff

/-- A step of block execution. -/
inductive ChainStep
  | beginBlock (newEpoch : Int)
  | blockTx (b : BParams) (tx : TX)
  | endBlock (b : BParams)
  | writeGranules

/-- The state after a step. -/
def ChainStep.run (Γ : Ctx) : ChainStep → St → St
  | .beginBlock newEpoch, s => (runEff Γ (Grain.beginBlock Γ newEpoch) s).2
  | .blockTx b tx, s => (runEff Γ (executeBlockTx Γ b tx) s).2
  | .endBlock b, s => (runEff Γ (Grain.endBlock Γ b) s).2
  | .writeGranules, s => s.writeGranules

/-- The state after some steps. -/
def runSteps (Γ : Ctx) (steps : List ChainStep) (s : St) : St := steps.foldl (fun s x => x.run Γ s) s

/-- The state after some steps from the first state. -/
def chain (Γ : Ctx) (g : GenesisFile) (steps : List ChainStep) : St := runSteps Γ steps (genesis Γ g)

variable {Γ : Ctx}

@[simp] theorem runSteps_nil (s : St) : runSteps Γ [] s = s := rfl

@[simp] theorem runSteps_cons (x : ChainStep) (steps : List ChainStep) (s : St) :
    runSteps Γ (x :: steps) s = runSteps Γ steps (x.run Γ s) := rfl

theorem runSteps_append (l l' : List ChainStep) (s : St) : runSteps Γ (l ++ l') s = runSteps Γ l' (runSteps Γ l s) :=
  List.foldl_append

theorem chain_append (g : GenesisFile) (l l' : List ChainStep) : chain Γ g (l ++ l') = runSteps Γ l' (chain Γ g l) :=
  runSteps_append l l' _

/-- What each step keeps, if it meets a condition in the state that it starts from, the steps keep. -/
theorem runSteps_inv {I : St → Prop} {C : ChainStep → St → Prop} (hstep : ∀ x s, C x s → I s → I (x.run Γ s))
    {steps : List ChainStep} {s : St} (hC : ∀ pre x post, steps = pre ++ x :: post → C x (runSteps Γ pre s)) (hs : I s) :
    I (runSteps Γ steps s) := by
  induction steps generalizing s with
  | nil => exact hs
  | cons x steps ih =>
    refine ih (fun pre y post he => ?_) (hstep x s (hC [] x steps rfl) hs)
    exact hC (x :: pre) y post (by rw [he, List.cons_append])

/-- The transactions of a block are steps, up to the first that raises an exception. -/
theorem executeTxs_steps (b : BParams) (txs : List TX) (s : St) :
    ∃ steps, (runEff Γ (executeTxs Γ b txs) s).2 = runSteps Γ steps s := by
  induction txs generalizing s with
  | nil => exact ⟨[], rfl⟩
  | cons tx txs ih =>
    unfold executeTxs runEff
    rw [run_bind]
    rcases hr : run (exec Γ) (executeBlockTx Γ b tx) s with ⟨e | _, t⟩
    · exact ⟨[.blockTx b tx], by simp [ChainStep.run, runEff, hr]⟩
    · obtain ⟨steps, h⟩ := ih t
      exact ⟨.blockTx b tx :: steps, by simpa [ChainStep.run, runEff, hr] using h⟩

/-- The execution of a block is a list of steps. -/
theorem executeBlock_steps (b : BParams) (newEpoch : Int) (txs : List TX) (s : St) :
    ∃ steps, (runEff Γ (executeBlock Γ b newEpoch txs) s).2 = runSteps Γ steps s := by
  unfold executeBlock runEff
  rw [run_bind]
  rcases hr : run (exec Γ) (beginBlock Γ newEpoch) s with ⟨e | _, t⟩
  · exact ⟨[.beginBlock newEpoch], by simp [ChainStep.run, runEff, hr]⟩
  · obtain ⟨steps, h⟩ := executeTxs_steps (Γ := Γ) b txs t
    have hbegin : ChainStep.run Γ (.beginBlock newEpoch) s = t := by simp [ChainStep.run, runEff, hr]
    dsimp only
    rw [run_bind]
    unfold runEff at h
    rcases hx : run (exec Γ) (executeTxs Γ b txs) t with ⟨e | _, u⟩ <;> rw [hx] at h <;> simp only at h
    · exact ⟨.beginBlock newEpoch :: steps, by simp [hbegin, h]⟩
    · refine ⟨.beginBlock newEpoch :: steps ++ [.endBlock b], ?_⟩
      rw [runSteps_append, runSteps_cons _ steps, hbegin, ← h]
      rfl

end Grain
