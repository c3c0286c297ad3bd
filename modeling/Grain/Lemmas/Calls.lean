import Grain.Lemmas.Commands

/-!
# The footprint of contract calls

Whatever the code of a contract does with the interface, and to any depth of calls, it asks only for what `Footprint` allows.
The induction is on the script inside a call and on the number of frames left around it.
-/

namespace Grain

open Prog Eff

variable {Γ : Ctx} {ev : Evidence} {t : TParams} {c : Command}

attribute [local simp] getContractActivityNoCreate getContractBalanceNoCreate getContractDataNoCreate getContractNoCreate
  emitCommand CanWrite consumeCallGas

theorem fits_hostTry {m : Eff HostRes} (h : Fits Γ ev t c m fun _ => True) : Fits Γ ev t c (hostTry m) fun _ => True := by
  refine safe_handle h fun e => ?_
  rcases e with _ | (_ | _ | _ | _ | _) <;> trivial

theorem fits_raiseActivity (contract : String) (untilTime : Int) :
    Fits Γ ev t c (raiseActivity Γ contract untilTime) fun _ => True :=
  fits_get_writeIf _ _ (by simp +contextual)

theorem fits_ioCreateGranule (contract key value : String) (createTime ttl : Int) :
    Fits Γ ev t c (ioCreateGranule Γ contract key value createTime ttl) fun _ => True := by
  simp only [ioCreateGranule, getContractDataOrCreate, safe_bind, safe_failIf, getContractDataNoCreate, fits_getNoCreate,
    fits_createNew, safe_assign, Footprint, Evidence.Answers, forall_const]
  intro _ _ _ d _ _ hd
  exact ⟨⟨hd, trivial⟩, fits_raiseActivity _ _⟩

theorem fits_ioSetGranule (contract key value : String) (now : Int) :
    Fits Γ ev t c (ioSetGranule Γ contract key value now) fun _ => True := by
  unfold ioSetGranule
  refine (safe_bind _ _ _).2 ((fits_get_orErr _ _ _ _).2 fun d _ hd => ?_)
  simp only [safe_bind, safe_setDirty, safe_assign, Footprint, CanWrite, hd, Evidence.Answers, true_and, forall_const]
  exact fits_raiseActivity _ _

theorem fits_ioAddContractBalance (contract : String) (delta : Int) :
    Fits Γ ev t c (ioAddContractBalance Γ contract delta) fun _ => True := by
  refine (safe_bind _ _ _).2 ((safe_bind _ _ _).2 (fits_getOrCreate (by simp) fun d hd => ?_))
  simp [hd]

theorem fits_ioGetContractBalance {contract : String} {Q : Option Int → Prop} (h : ∀ x, Q x) :
    Fits Γ ev t c (ioGetContractBalance Γ contract) Q :=
  (safe_bind _ _ _).2 (fits_get (h _) fun _ _ _ => h _)

/-! ## The functions of the interface -/

theorem fits_jsiCreateGranule (b : BParams) (self key : String) (value : Option String) (ttl : Option Int) :
    Fits Γ ev t c (jsiCreateGranule Γ b t self key value ttl) fun _ => True := by
  simp only [jsiCreateGranule, safe_bind, consumeCallGas, safe_addGas, safe_failIf, safe_orErr, ttlGas, safe_quot,
    getContractDataNoCreate, fits_getNoCreate, safe_pure, Footprint, Evidence.Answers, true_and, forall_const]
  intros
  exact (fits_ioCreateGranule _ _ _ _ _).post fun _ _ => trivial

theorem fits_jsiSetGranule (b : BParams) (self key : String) (value : Option String) :
    Fits Γ ev t c (jsiSetGranule Γ b t self key value) fun _ => True := by
  simp only [jsiSetGranule, safe_bind, consumeCallGas, safe_addGas, safe_failIf, safe_orErr, ttlGas, safe_quot,
    getContractDataNoCreate, fits_getNoCreate, safe_pure, Footprint, Evidence.Answers, true_and, forall_const]
  intros
  exact (fits_ioSetGranule _ _ _ _).post fun _ _ => trivial

theorem fits_jsiGetGranule (self key : String) : Fits Γ ev t c (jsiGetGranule Γ self key) fun _ => True := by
  simp [jsiGetGranule, fits_getNoCreate]

theorem fits_jsiDeleteGranule (b : BParams) (self key : String) :
    Fits Γ ev t c (jsiDeleteGranule Γ b self key) fun _ => True := by
  simp only [jsiDeleteGranule, safe_bind, consumeCallGas, safe_addGas, safe_failIf, Footprint, Evidence.Answers, true_and,
    forall_const]
  intro _
  refine fits_get (by simp) fun d hd _ => ?_
  have := hd.deletable deletable_of_cast.1
  simp [this]

theorem fits_jsiConsumeValue (b : BParams) (self : String) (amount : Option Int) :
    Fits Γ ev t c (jsiConsumeValue Γ b self amount) fun _ => True := by
  simp only [jsiConsumeValue, safe_bind, consumeCallGas, safe_addGas, safe_failIf, safe_orErr, safe_value, safe_addValue,
    Footprint, Evidence.Answers, true_and, forall_const]
  intros
  exact (fits_ioAddContractBalance _ _).post fun _ _ => fits_ioGetContractBalance fun _ => trivial

theorem fits_jsiRefundValue (b : BParams) (self : String) (amount : Option Int) :
    Fits Γ ev t c (jsiRefundValue Γ b self amount) fun _ => True := by
  simp only [jsiRefundValue, safe_bind, consumeCallGas, safe_addGas, safe_failIf, safe_orErr, Footprint, Evidence.Answers,
    true_and, forall_const]
  intros
  refine fits_ioGetContractBalance fun _ _ _ _ => ?_
  exact (fits_ioAddContractBalance _ _).post fun _ _ => by simp

theorem fits_jsiMsg (caller : String) : Fits Γ ev t c (jsiMsg t caller) fun _ => True := by
  simp [jsiMsg]

theorem fits_getContract {name : String} {Q : Option ContractContext → Prop} (h : ∀ x, Q x) :
    Fits Γ ev t c (getContract Γ name) Q := by
  simp only [getContract, safe_bind, safe_cached, Footprint, Evidence.Answers, true_and, forall_const]
  intro x
  rcases x with _ | cc
  · refine (safe_bind _ _ _).2 (fits_get (h _) fun con _ _ => ?_)
    dsimp only
    split
    · exact h _
    · simp [h]
  · exact h _

/-! ## Running code -/

theorem fits_runScript (name src : String) {host : HostCall → Eff (HostRes × Events)} {interrupt : Eff Bool}
    (hhost : ∀ h, Fits Γ ev t c (host h) fun _ => True) (hint : Fits Γ ev t c interrupt fun _ => True) (script : Script)
    (events : Events) : Fits Γ ev t c (runScript name src host interrupt script events) fun _ => True := by
  induction script generalizing events with
  | done r heap => simp [runScript, saveHeap]
  | throw text heap => simp [runScript, saveHeap]
  | step heap k ih =>
    refine (safe_bind _ _ _).2 (hint.post fun stop _ => ?_)
    cases stop
    · exact ih _
    · simp [saveHeap]
  | call heap h k ih =>
    simp only [runScript, saveHeap, loadHeap, safe_bind, safe_cache, safe_cached, safe_pure, Footprint, Evidence.Answers,
      true_and, forall_const]
    exact (hhost h).post fun r _ => fun _ => ih _ _ _

theorem fits_interruptHandler (b : BParams) (name : String) : Fits Γ ev t c (interruptHandler b t name) fun _ => True := by
  simp only [interruptHandler, safe_bind, safe_handler, Footprint, Evidence.Answers, true_and, forall_const]
  intro on
  cases on <;> simp

theorem fits_viewHost (self : String) (h : HostCall) : Fits Γ ev t c (viewHost Γ self h) fun _ => True := by
  cases h with
  | getGranule key => exact (safe_bind _ _ _).2 ((fits_hostTry (fits_jsiGetGranule _ _)).post fun _ _ => trivial)
  | _ => trivial

theorem fits_callContractView (n : Nat) (name : String) (cc : ContractContext) (view : String) (params : Json) :
    Fits Γ ev t c (callContractView Γ n name cc view params) fun _ => True := by
  unfold callContractView
  split
  · trivial
  · split
    · trivial
    · simp only [safe_bind, safe_setHandler, Footprint, Evidence.Answers, true_and, forall_const]
      exact fits_runScript _ _ (fits_viewHost _) (safe_pure _ _ |>.2 trivial) _ _

theorem fits_jsiCallView (n : Nat) (self contract view : String) (params : Json) :
    Fits Γ ev t c (jsiCallView Γ n self contract view params) fun _ => True := by
  simp only [jsiCallView, safe_bind, safe_failIf]
  intro _ _
  exact fits_getContract fun _ => (safe_orErr _ _ _).2 fun cc _ => fits_callContractView _ _ _ _ _

theorem fits_quiet {m : Eff HostRes} (h : Fits Γ ev t c m fun _ => True) : Fits Γ ev t c (quiet m) fun _ => True :=
  (safe_bind _ _ _).2 ((fits_hostTry h).post fun _ _ => trivial)

theorem fits_jsiEmit (b : BParams) (name : String) (value : Option String) :
    Fits Γ ev t c (jsiEmit b name value) fun _ => True := by
  refine (safe_bind _ _ _).2 ((fits_hostTry (by simp)).post fun r _ => ?_)
  cases r <;> trivial

theorem fits_methodHost (b : BParams) (n : Nat)
    {call : (name : String) → ContractContext → (method : String) → Json → (caller : String) → Eff (HostRes × Events)}
    (hcall : ∀ name cc method params caller, Fits Γ ev t c (call name cc method params caller) fun _ => True)
    (self caller : String) (h : HostCall) : Fits Γ ev t c (methodHost Γ b t n call self caller h) fun _ => True := by
  cases h with
  | createGranule key value ttl => exact fits_quiet (fits_jsiCreateGranule _ _ _ _ _)
  | setGranule key value => exact fits_quiet (fits_jsiSetGranule _ _ _ _)
  | getGranule key => exact fits_quiet (fits_jsiGetGranule _ _)
  | deleteGranule key => exact fits_quiet (fits_jsiDeleteGranule _ _ _)
  | emit name value => exact fits_jsiEmit _ _ _
  | consumeValue amount => exact fits_quiet (fits_jsiConsumeValue _ _ _)
  | refundValue amount => exact fits_quiet (fits_jsiRefundValue _ _ _)
  | remainingValue => exact fits_quiet (by simp)
  | msg => exact fits_quiet (fits_jsiMsg _)
  | callMethod contract method params =>
    refine (safe_bind _ _ _).2 (safe_handle (Q := fun _ => _) ?_ fun e => ?_)
    · simp only [beforeCallMethod, safe_bind, consumeCallGas, safe_addGas, safe_failIf, safe_pure, Footprint, Evidence.Answers,
        true_and, forall_const]
      intro _ _
      exact fits_getContract fun _ => (safe_orErr _ _ _).2 fun cc _ => hcall _ _ _ _ _
    · rcases e with _ | (_ | _ | _ | _ | _) <;> trivial
  | callView contract view params =>
    refine safe_handle (fits_jsiCallView _ _ _ _ _) fun e => ?_
    rcases e with _ | (_ | _ | _ | _ | _) <;> trivial

theorem fits_callContractMethod (b : BParams) (n : Nat) (name : String) (cc : ContractContext) (method : String)
    (params : Json) (caller : String) : Fits Γ ev t c (callContractMethod Γ b t n name cc method params caller) fun _ => True := by
  induction n generalizing name cc method params caller with
  | zero => trivial
  | succ n ih =>
    unfold callContractMethod
    split
    · trivial
    · simp only [safe_bind, safe_setHandler, Footprint, Evidence.Answers, true_and, forall_const]
      refine (fits_runScript _ _ (fits_methodHost b n ih name caller) (fits_interruptHandler b name) _ _).post fun _ _ => ?_
      simp

theorem fits_emitEvents (i : Nat) (events : Events) : Fits Γ ev t c (emitEvents t i events) fun _ => True := by
  induction events with
  | nil => trivial
  | cons e events ih => simp [emitEvents, ih]

/-- Every contract call keeps to the footprint. -/
theorem fits_executeContractCall (b : BParams) (i : Nat) (contract method : String) (params : Json) :
    Fits Γ ev t c (executeContractCall Γ b t i contract method params) fun _ => True := by
  refine (safe_bind _ _ _).2 ((safe_bind _ _ _).2 (fits_getContract fun _ => (safe_orErr _ _ _).2 fun cc _ => ?_))
  refine (safe_bind _ _ _).2 ((fits_callContractMethod _ _ _ _ _ _ _).post fun r _ => ?_)
  obtain ⟨r, events⟩ := r
  dsimp only
  split
  · trivial
  · exact fits_emitEvents _ _

/-- Every command keeps to its footprint. -/
theorem fits_executeCommand (b : BParams) (i : Nat) : Fits Γ ev t c (executeCommand Γ b t i c) fun _ => True := by
  unfold executeCommand
  split
  · rename_i hc
    exact fits_executeRoot hc b i
  · exact fits_executeContractCall _ _ _ _ _

end Grain
