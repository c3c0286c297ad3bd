import Grain.Lemmas.Calls

/-!
# What a transaction and a block can do

The operations of `execute_transaction` and of `execute_block` around the commands: the transaction count, the charge and the
settlement of the sender, the deletions that the contracts asked for, the nonce and the rewards.
-/

namespace Grain

open Prog Eff

variable (Γ : Ctx) (ev : Evidence) (tx : TX)

/-- The command is one of those the transaction's body lists. -/
def HasCommand (c : Command) : Prop :=
  ∃ root items item, Γ.yyjsonRead tx.txBody = some root ∧ (root.objGet "tx").bind Json.elems? = some items ∧ item ∈ items ∧
    parseCommand item = .ok c

/-- The writes of a transaction: those of its commands, the transaction count and the settlement. -/
def TxWrite (d : DataPtr) (w : Write) : Prop :=
  (∃ t c, t.tx = tx ∧ HasCommand Γ tx c ∧ CanWrite Γ ev t c d w) ∨
    (ev.Handle d ∧ (w = .incTxCount ∨ ∃ a, w = .addBalance a))

/-- The operations a transaction can ask for. -/
@[simp]
def TxFootprint : Op → Prop
  | .look p => p.length = 5
  | .create p _ => p.length = 5
  | .assign d w => TxWrite Γ ev tx d w
  | .setDirty d _ => ev.Handle d
  | .deleteGranule d _ => (∃ o, ev.Shown d o ∧ Evidence.Deletable o.payload) ∨ ev.pended d
  | .pend d => ∃ o, ev.Shown d o ∧ Evidence.Deletable o.payload
  | .replaceLeaf _ _ => False
  | _ => True

/-- What the block does around the transactions: the nonce, the height, the rewards. -/
def FrameWrite (d : DataPtr) (w : Write) : Prop :=
  ev.Handle d ∧ (w = .incNonce ∨ (∃ a, w = .addBalance a) ∨ ∃ h, w = .setBlockHeight h)

/-- The operations a block can ask for around the transactions. -/
@[simp]
def FrameFootprint : Op → Prop
  | .look p => p.length = 5
  | .assign d w => FrameWrite ev d w
  | .setDirty d roll => roll = false ∧ ev.Handle d
  | .calcTreeHash dump => dump = .saveZ
  | .deref _ | .saveRoot | .rewards | .emit _ => True
  | _ => False

/-- The operations a turn of the loop of `execute_block` can ask for. -/
@[simp]
def BlockFootprint : Op → Prop
  | .assign d w => TxWrite Γ ev tx d w ∨ FrameWrite ev d w
  | o => TxFootprint Γ ev tx o

variable {Γ ev tx}

theorem TxFootprint.block {o : Op} (h : TxFootprint Γ ev tx o) : BlockFootprint Γ ev tx o := by
  cases o with
  | assign d w => exact .inl h
  | _ => exact h

theorem FrameFootprint.block {o : Op} (h : FrameFootprint ev o) : BlockFootprint Γ ev tx o := by
  cases o with
  | assign d w => exact .inr h
  | setDirty d roll => exact h.2
  | look p => exact h
  | create | replaceLeaf | deleteGranule | pend => exact h.elim
  | _ => trivial

/-- A command's operations are a transaction's. -/
theorem Footprint.inTx {t : TParams} {c : Command} (ht : t.tx = tx) (hc : HasCommand Γ tx c) {o : Op}
    (h : Footprint Γ ev t c o) : TxFootprint Γ ev tx o := by
  cases o with
  | assign d w => exact .inl ⟨t, c, ht, hc, h⟩
  | setDirty d roll => exact h.2
  | deleteGranule d dump => exact .inl h.2
  | pend d => exact h
  | look p => exact h
  | create p o => exact h
  | replaceLeaf p b => exact h
  | _ => trivial

section Transaction

/-- The code asks only for what a transaction can ask for. -/
abbrev FitsTx (Γ : Ctx) (ev : Evidence) (tx : TX) {α : Type} (m : Eff α) (Q : α → Prop) : Prop :=
  Safe (TxFootprint Γ ev tx) ev.Answers m Q

theorem fitsTx_catchErr {m : Eff Unit} (h : FitsTx Γ ev tx m fun _ => True) : FitsTx Γ ev tx (catchErr m) fun _ => True := by
  refine safe_handle ((safe_bind _ _ _).2 (h.post fun _ _ => trivial)) fun e => ?_
  cases e <;> trivial

theorem fitsTx_executeCommands {t : TParams} (ht : t.tx = tx) (b : BParams) {root : Json} {items : List Json}
    (hroot : Γ.yyjsonRead tx.txBody = some root) (hitems : (root.objGet "tx").bind Json.elems? = some items)
    {l : List Json} (hl : ∀ x ∈ l, x ∈ items) (i : Nat) : FitsTx Γ ev tx (executeCommands Γ b t l i) fun _ => True := by
  induction l generalizing i with
  | nil => trivial
  | cons item l ih =>
    simp only [executeCommands, safe_bind, safe_lift]
    intro c hc
    have hcmd : HasCommand Γ tx c := ⟨root, items, item, hroot, hitems, hl _ List.mem_cons_self, hc⟩
    refine (fits_executeCommand b i).mono (fun o ho => Footprint.inTx ht hcmd ho) fun _ _ => ?_
    exact ih (fun x hx => hl x (List.mem_cons_of_mem _ hx)) _

theorem fitsTx_executeTxCommands {t : TParams} (ht : t.tx = tx) (b : BParams) {root jtx : Json}
    (hroot : Γ.yyjsonRead tx.txBody = some root) (hjtx : root.objGet "tx" = some jtx) :
    FitsTx Γ ev tx (executeTxCommands Γ b t jtx) fun _ => True := by
  simp only [executeTxCommands, safe_bind, safe_orErr, safe_gasUsed, safe_failIf, TxFootprint, Evidence.Answers, true_and,
    forall_const]
  intro items hitems _ _
  exact fitsTx_executeCommands ht b hroot (by rw [hjtx]; exact hitems) (fun _ hx => hx) 0

theorem fitsTx_chargeGas {uu : DataPtr} (hu : ev.Handle uu) (b : BParams) (priority gas : Int) :
    FitsTx Γ ev tx (chargeGas b uu priority gas) fun _ => True := by
  simp [chargeGas, TxWrite, hu]

theorem fitsTx_fail {uu : DataPtr} (hu : ev.Handle uu) (b : BParams) (priority gas : Int) (msg : String) {Q : Unit → Prop} :
    FitsTx Γ ev tx (fail b uu priority msg gas) Q := by
  simp only [fail, safe_bind, safe_rollSize, safe_addGas, safe_rollback, TxFootprint, Evidence.Answers, true_and, forall_const]
  exact (fitsTx_chargeGas hu _ _ _).post fun _ _ => trivial

theorem fitsTx_deletePending {ds : List DataPtr} (h : ∀ d ∈ ds, ev.pended d) :
    FitsTx Γ ev tx (deletePending ds) fun _ => True := by
  induction ds with
  | nil => trivial
  | cons d ds ih =>
    simp only [deletePending, safe_bind, safe_deleteGranule]
    exact ⟨.inr (h d List.mem_cons_self), fun _ _ => ih fun d' hd' => h d' (List.mem_cons_of_mem _ hd')⟩

theorem fitsTx_settle {uu : DataPtr} (hu : ev.Handle uu) (b : BParams) (a : Amounts) (gasLimitGas : Int) :
    FitsTx Γ ev tx (settle b uu a gasLimitGas) fun _ => True := by
  simp only [settle, safe_bind, safe_pending, TxFootprint, Evidence.Answers, true_and]
  intro ds hds
  refine (fitsTx_deletePending hds).post fun _ _ => ?_
  simp only [safe_calcTreeHash, safe_dumpSize, safe_addGas, safe_gasUsed, TxFootprint, Evidence.Answers, true_and,
    forall_const]
  intro gas
  split
  · exact fitsTx_fail hu _ _ _ _
  · refine (safe_bind _ _ _).2 ((fitsTx_chargeGas hu _ _ _).post fun _ _ => ?_)
    simp [sub64, TxWrite, hu]

theorem fitsTx_afterCommands {uu : DataPtr} (hu : ev.Handle uu) (b : BParams) (a : Amounts) (gasLimitGas : Int)
    (r : Option String) : FitsTx Γ ev tx (afterCommands b uu a gasLimitGas r) fun _ => True := by
  simp only [afterCommands, safe_bind, safe_gasUsed, TxFootprint, Evidence.Answers, true_and, forall_const]
  intro gas
  rcases r with _ | msg
  · simp only [safe_bind, safe_value, TxFootprint, Evidence.Answers, true_and, forall_const]
    intro v
    split
    · exact fitsTx_fail hu _ _ _ _
    · split
      · exact fitsTx_fail hu _ _ _ _
      · exact fitsTx_settle hu _ _ _
  · exact fitsTx_fail hu _ _ _ _

theorem fitsTx_readAmountsEmit (root : Json) : FitsTx Γ ev tx (readAmountsEmit tx root) fun _ => True := by
  unfold readAmountsEmit
  split
  · trivial
  · simp [emitTx]
  · trivial

theorem fitsTx_transaction (b : BParams) (sender : String) :
    FitsTx Γ ev tx (transaction Γ b sender tx) fun _ => True := by
  unfold transaction
  refine (safe_bind _ _ _).2 (safe_get (Γ.path_length _) (by simp) fun st _ hst => ?_)
  simp only [safe_bind, safe_raiseIf, safe_need, Option.some.injEq, forall_eq', safe_assign, safe_setDirty, TxFootprint, TxWrite,
    hst, Evidence.Answers, true_and, true_or, or_true, forall_const]
  intro _ _ jtx hjtx
  obtain ⟨root, hroot, hobj⟩ : ∃ root, Γ.yyjsonRead tx.txBody = some root ∧ root.objGet "tx" = some jtx := by
    rcases hr : Γ.yyjsonRead tx.txBody with _ | root
    · simp [hr, Json.objGet] at hjtx
    · exact ⟨root, rfl, by simpa [hr] using hjtx⟩
  refine (fitsTx_readAmountsEmit _).post fun a _ => ?_
  refine (safe_getNoCreate .values Payload.values? _ (Γ.path_length _)).2 fun _ _ => ?_
  simp only [safe_lift, safe_beginTx, TxFootprint, Evidence.Answers, true_and, forall_const]
  intro gasLimitGas _
  simp only [getAddressStateNoCreate, checkAddr, safe_bind, safe_raiseIf]
  intro _
  refine safe_get (Γ.path_length _) (by simp) fun uu _ huu => ?_
  simp only [safe_need, Option.some.injEq, forall_eq', add64, safe_bind, safe_doIf, safe_overflow, safe_pure, safe_failIf,
    safe_calcTreeHash, TxFootprint, Evidence.Answers, true_and, forall_const]
  have hrun : ∀ t : TParams, t.tx = tx →
      FitsTx Γ ev tx (catchErr (executeTxCommands Γ b t jtx) >>= afterCommands b uu.ptr a gasLimitGas) fun _ => True :=
    fun t ht => (safe_bind _ _ _).2 ((fitsTx_catchErr (fitsTx_executeTxCommands ht b hroot hobj)).post
      fun r _ => fitsTx_afterCommands huu b a gasLimitGas r)
  intro _
  exact ⟨fun _ _ => (safe_bind _ _ _).1 (hrun _ rfl), fun _ _ => (safe_bind _ _ _).1 (hrun _ rfl)⟩

theorem fitsTx_executeTransaction (b : BParams) (sender : String) :
    FitsTx Γ ev tx (executeTransaction Γ b sender tx) fun _ => True := by
  refine safe_handle ((safe_bind _ _ _).2 ((fitsTx_transaction b sender).post fun _ _ => ?_)) fun e => ?_
  · simp
  · simp

end Transaction

/-! ## Blocks -/

section Block

/-- The code asks only for what a block can ask for around and in the transaction. -/
abbrev FitsBlock (Γ : Ctx) (ev : Evidence) (tx : TX) {α : Type} (m : Eff α) (Q : α → Prop) : Prop :=
  Safe (BlockFootprint Γ ev tx) ev.Answers m Q

theorem FitsTx.block {α : Type} {m : Eff α} {Q : α → Prop} (h : FitsTx Γ ev tx m Q) : FitsBlock Γ ev tx m Q :=
  h.mono (fun _ ho => TxFootprint.block ho) fun _ hq => hq

theorem fitsBlock_catchErr {m : Eff Unit} (h : FitsBlock Γ ev tx m fun _ => True) :
    FitsBlock Γ ev tx (catchErr m) fun _ => True := by
  refine safe_handle ((safe_bind _ _ _).2 (h.post fun _ _ => trivial)) fun e => ?_
  cases e <;> trivial

theorem fitsBlock_checkSender : FitsBlock Γ ev tx (checkSender Γ tx) fun _ => True := by
  simp only [checkSender, getAddressStateNoCreate, checkAddr, safe_bind, safe_failIf, safe_lift, safe_raiseIf]
  intro _ sender _ _
  refine safe_get (Γ.path_length _) (by simp) fun uu _ _ => ?_
  simp

theorem fitsBlock_checkAndExecute (b : BParams) : FitsBlock Γ ev tx (checkAndExecute Γ b tx) fun _ => True := by
  unfold checkAndExecute
  refine (safe_bind _ _ _).2 (fitsBlock_checkSender.post fun sender _ => ?_)
  simp only [getAddressStateNoCreate, checkAddr, safe_bind, safe_failIf, safe_lift, safe_raiseIf]
  intro _
  refine safe_get (Γ.path_length _) (by simp) fun u _ hu => ?_
  simp only [safe_orErr, Option.some.injEq, forall_eq']
  intro _ _ _
  refine (fitsBlock_catchErr (fitsTx_executeTransaction b sender).block).post fun r _ => ?_
  simp only [safe_assign, safe_setDirty, BlockFootprint, TxFootprint, FrameWrite, hu, Evidence.Answers, true_and, true_or,
    or_true, forall_const]
  cases r <;> trivial

/-- A turn of the loop of `execute_block`. -/
theorem fitsBlock_executeBlockTx (b : BParams) : FitsBlock Γ ev tx (executeBlockTx Γ b tx) fun _ => True := by
  refine (safe_bind _ _ _).2 ((fitsBlock_catchErr (fitsBlock_checkAndExecute b)).post fun r _ => ?_)
  cases r <;> simp [emitTx]

/-- The code asks only for what a block can ask for around the transactions. -/
abbrev FitsFrame (ev : Evidence) {α : Type} (m : Eff α) (Q : α → Prop) : Prop := Safe (FrameFootprint ev) ev.Answers m Q

theorem fitsFrame_beginBlock (newEpoch : Int) : FitsFrame ev (beginBlock Γ newEpoch) fun _ => True := by
  unfold beginBlock
  refine (safe_bind _ _ _).2 ((safe_bind _ _ _).2 (safe_get (Γ.path_length _) (by simp) fun st _ hst => ?_))
  simp [FrameWrite, hst]

theorem fitsFrame_proceedMerkle : FitsFrame ev proceedMerkle fun _ => True := by
  simp [proceedMerkle]

theorem fitsFrame_validatorStakes (vs : List String) : FitsFrame ev (validatorStakes Γ vs) fun _ => True := by
  induction vs with
  | nil => trivial
  | cons z vs ih =>
    unfold validatorStakes
    refine (safe_bind _ _ _).2 (safe_get (Γ.path_length _) (by simp) fun n _ _ => ?_)
    simp only [safe_bind, safe_raiseIf, safe_need, safe_pure]
    exact fun _ _ _ => ih.post fun _ _ => trivial

theorem fitsFrame_rewardValidators (rewards : Int) (stakes : List Int) (vs : List String) :
    FitsFrame ev (rewardValidators Γ rewards stakes vs) fun _ => True := by
  induction vs with
  | nil => trivial
  | cons z vs ih =>
    unfold rewardValidators
    refine (safe_bind _ _ _).2 (safe_get (Γ.path_length _) (by simp) fun n _ _ => ?_)
    simp only [getAddressStateNoCreate, checkAddr, safe_bind, safe_raiseIf, safe_need, Option.some.injEq, forall_eq']
    intro _ _
    refine safe_get (Γ.path_length _) (by simp) fun u _ hu => ?_
    simp [FrameWrite, hu, emitBlock, ih]

theorem fitsFrame_getNodes (l : List String) : FitsFrame ev (getNodes Γ l) fun _ => True := by
  induction l with
  | nil => trivial
  | cons z l ih =>
    unfold getNodes
    have hrest : ∀ n, FitsFrame ev (getNodes Γ l >>= fun rest => pure (n :: rest)) fun _ => True :=
      fun n => (safe_bind _ _ _).2 (ih.post fun _ _ => trivial)
    exact (safe_bind _ _ _).2 (safe_get (Γ.path_length _) (hrest _) fun n _ _ => hrest _)

theorem fitsFrame_getAllNodes : FitsFrame ev (getAllNodes Γ) fun _ => True := by
  unfold getAllNodes
  refine (safe_bind _ _ _).2 (safe_get (Γ.path_length _) (by simp) fun nl _ _ => ?_)
  simp only [safe_bind, safe_raiseIf, safe_need, Option.some.injEq, forall_eq']
  exact fun _ => fitsFrame_getNodes _

theorem fitsFrame_calcFeeRewardsNodes (b : BParams) : FitsFrame ev (calcFeeRewardsNodes Γ b) fun _ => True := by
  refine (safe_bind _ _ _).2 (fitsFrame_getAllNodes.post fun _ _ => ?_)
  simp only [safe_bind, safe_rewards, FrameFootprint, Evidence.Answers, true_and, forall_const]
  intro rewards
  split
  · simp [emitBlock]
  · refine (safe_bind _ _ _).2 ((fitsFrame_validatorStakes _).post fun stakes _ => ?_)
    refine (safe_bind _ _ _).2 ((fitsFrame_rewardValidators _ _ _).post fun _ _ => ?_)
    simp [emitBlock]

theorem fitsFrame_endBlock (b : BParams) : FitsFrame ev (endBlock Γ b) fun _ => True := by
  refine (safe_bind _ _ _).2 (fitsFrame_proceedMerkle.post fun _ _ => ?_)
  exact (safe_bind _ _ _).2 ((fitsFrame_calcFeeRewardsNodes b).post fun _ _ => fitsFrame_proceedMerkle)

end Block

end Grain
