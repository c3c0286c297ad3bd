import Grain.Lemmas.Emits

/-!
# What a transaction emits

The code of a contract adds nothing to the attachment data by itself: its events go up through the nested calls, in the order
of the calls (`events_callContractMethod`), and are handed over when the command has succeeded. So a transaction adds the events
of the commands that ran to their end, and nothing else at command level (`emitted_checkAndExecute`).
-/

namespace Grain

open Prog Eff

variable {Γ : Ctx} {b : BParams} {t : TParams}

attribute [local simp] getContractActivityNoCreate getContractBalanceNoCreate getContractDataNoCreate getContractNoCreate
  consumeCallGas mute_getNoCreate Evidence.any_answers

/-! ## The functions of the interface -/

theorem mute_hostTry {m : Eff HostRes} (h : Mute m fun _ => True) : Mute (hostTry m) fun _ => True := by
  refine safe_handle h fun e => ?_
  rcases e with _ | (_ | _ | _ | _ | _) <;> trivial

theorem mute_raiseActivity (contract : String) (untilTime : Int) : Mute (raiseActivity Γ contract untilTime) fun _ => True := by
  simp [raiseActivity, mute_writeIf]

theorem mute_ioCreateGranule (contract key value : String) (createTime ttl : Int) :
    Mute (ioCreateGranule Γ contract key value createTime ttl) fun _ => True := by
  unfold ioCreateGranule
  refine .bind (by simp) fun _ => .bind (by simp) fun _ => .bind (mute_createNew _ _) fun _ => .bind (by simp) fun _ => ?_
  exact mute_raiseActivity _ _

theorem mute_ioSetGranule (contract key value : String) (now : Int) :
    Mute (ioSetGranule Γ contract key value now) fun _ => True := by
  unfold ioSetGranule
  refine .bind (by simp) fun d => .bind (by simp) fun _ => .bind (by simp) fun _ => .bind (by simp) fun _ => ?_
  exact mute_raiseActivity _ _

theorem mute_ioAddContractBalance (contract : String) (delta : Int) :
    Mute (ioAddContractBalance Γ contract delta) fun _ => True := by
  refine .bind (.bind (mute_getOrCreate _ _ _) fun x => by simp) fun d => ?_
  simp

theorem mute_ioGetContractBalance (contract : String) : Mute (ioGetContractBalance Γ contract) fun _ => True := by
  simp [ioGetContractBalance]

theorem mute_jsiCreateGranule (self key : String) (value : Option String) (ttl : Option Int) :
    Mute (jsiCreateGranule Γ b t self key value ttl) fun _ => True := by
  unfold jsiCreateGranule
  repeat
    refine .bind ?_ fun _ => ?_
    · simp [ttlGas, mute_ioCreateGranule]
  trivial

theorem mute_jsiSetGranule (self key : String) (value : Option String) :
    Mute (jsiSetGranule Γ b t self key value) fun _ => True := by
  unfold jsiSetGranule
  repeat
    refine .bind ?_ fun _ => ?_
    · simp [ttlGas, mute_ioSetGranule]
  trivial

theorem mute_jsiGetGranule (self key : String) : Mute (jsiGetGranule Γ self key) fun _ => True := by
  simp [jsiGetGranule]

theorem mute_jsiDeleteGranule (self key : String) : Mute (jsiDeleteGranule Γ b self key) fun _ => True := by
  simp [jsiDeleteGranule]

theorem mute_jsiConsumeValue (self : String) (amount : Option Int) : Mute (jsiConsumeValue Γ b self amount) fun _ => True := by
  unfold jsiConsumeValue
  repeat
    refine .bind ?_ fun _ => ?_
    · simp [mute_ioAddContractBalance, mute_ioGetContractBalance]
  trivial

theorem mute_jsiRefundValue (self : String) (amount : Option Int) : Mute (jsiRefundValue Γ b self amount) fun _ => True := by
  unfold jsiRefundValue
  refine .bind (by simp) fun _ => .bind (by simp) fun _ => .bind (by simp) fun _ => ?_
  refine .bind (.bind (mute_ioGetContractBalance _) fun _ => by simp) fun _ => .bind (by simp) fun _ => ?_
  exact .bind (mute_ioAddContractBalance _ _) fun _ => by simp

theorem mute_jsiMsg (caller : String) : Mute (jsiMsg t caller) fun _ => True := by
  simp [jsiMsg]

theorem mute_getContract (name : String) : Mute (getContract Γ name) fun _ => True := by
  unfold getContract
  refine .bind (by simp) fun x => ?_
  cases x with
  | some cc => trivial
  | none =>
    refine .bind (by simp) fun con => ?_
    cases con with
    | none => trivial
    | some con =>
      dsimp only
      split
      · trivial
      · simp

theorem mute_beforeCallMethod (self contract method : String) : Mute (beforeCallMethod Γ b self contract method) fun _ => True := by
  unfold beforeCallMethod
  refine .bind (by simp) fun _ => .bind (by simp) fun _ => .bind (by simp) fun _ => .bind (mute_getContract _) fun _ => by simp

/-! ## Running code -/

theorem mute_runScript (name src : String) {host : HostCall → Eff (HostRes × Events)} {interrupt : Eff Bool}
    (hhost : ∀ h, Mute (host h) fun _ => True) (hint : Mute interrupt fun _ => True) (script : Script) (events : Events) :
    Mute (runScript name src host interrupt script events) fun _ => True := by
  induction script generalizing events with
  | done r heap => simp [runScript, saveHeap]
  | throw text heap => simp [runScript, saveHeap]
  | step heap k ih =>
    refine .bind hint fun stop => ?_
    cases stop
    · exact ih _
    · simp [saveHeap]
  | call heap h k ih =>
    exact .bind (by simp [saveHeap]) fun _ => .bind (hhost h) fun r => .bind (by simp [loadHeap]) fun heap => ih _ _ _

theorem mute_interruptHandler (name : String) : Mute (interruptHandler b t name) fun _ => True := by
  refine .bind (by simp) fun on => ?_
  cases on <;> simp

theorem mute_viewHost (self : String) (h : HostCall) : Mute (viewHost Γ self h) fun _ => True := by
  cases h with
  | getGranule key => exact .bind (mute_hostTry (mute_jsiGetGranule _ _)) fun _ => trivial
  | _ => trivial

theorem mute_callContractView (n : Nat) (name : String) (cc : ContractContext) (view : String) (params : Json) :
    Mute (callContractView Γ n name cc view params) fun _ => True := by
  unfold callContractView
  split
  · trivial
  · split
    · trivial
    · exact .bind (by simp) fun _ => mute_runScript _ _ (mute_viewHost _) ((safe_pure _ _).2 trivial) _ _

theorem mute_jsiCallView (n : Nat) (self contract view : String) (params : Json) :
    Mute (jsiCallView Γ n self contract view params) fun _ => True := by
  refine .bind (by simp) fun _ => .bind (by simp) fun _ => .bind (.bind (mute_getContract _) fun _ => by simp) fun cc => ?_
  exact mute_callContractView _ _ _ _ _

theorem mute_quiet {m : Eff HostRes} (h : Mute m fun _ => True) : Mute (quiet m) fun _ => True :=
  .bind (mute_hostTry h) fun _ => trivial

theorem mute_jsiEmit (name : String) (value : Option String) : Mute (jsiEmit b name value) fun _ => True := by
  refine .bind (mute_hostTry (by simp)) fun r => ?_
  cases r <;> trivial

theorem mute_methodHost (n : Nat)
    {call : (name : String) → ContractContext → (method : String) → Json → (caller : String) → Eff (HostRes × Events)}
    (hcall : ∀ name cc method params caller, Mute (call name cc method params caller) fun _ => True)
    (self caller : String) (h : HostCall) : Mute (methodHost Γ b t n call self caller h) fun _ => True := by
  cases h with
  | createGranule key value ttl => exact mute_quiet (mute_jsiCreateGranule _ _ _ _)
  | setGranule key value => exact mute_quiet (mute_jsiSetGranule _ _ _)
  | getGranule key => exact mute_quiet (mute_jsiGetGranule _ _)
  | deleteGranule key => exact mute_quiet (mute_jsiDeleteGranule _ _)
  | emit name value => exact mute_jsiEmit _ _
  | consumeValue amount => exact mute_quiet (mute_jsiConsumeValue _ _)
  | refundValue amount => exact mute_quiet (mute_jsiRefundValue _ _)
  | remainingValue => exact mute_quiet (by simp)
  | msg => exact mute_quiet (mute_jsiMsg _)
  | callMethod contract method params =>
    refine .bind (safe_handle (Mute.bind (mute_beforeCallMethod _ _ _) fun _ => trivial) fun e => ?_) fun r => ?_
    · rcases e with _ | (_ | _ | _ | _ | _) <;> trivial
    · cases r with
      | ok cc => exact hcall _ _ _ _ _
      | error text => trivial
  | callView contract view params =>
    refine safe_handle (mute_jsiCallView _ _ _ _ _) fun e => ?_
    rcases e with _ | (_ | _ | _ | _ | _) <;> trivial

theorem mute_callContractMethod (n : Nat) (name : String) (cc : ContractContext) (method : String) (params : Json)
    (caller : String) : Mute (callContractMethod Γ b t n name cc method params caller) fun _ => True := by
  induction n generalizing name cc method params caller with
  | zero => trivial
  | succ n ih =>
    unfold callContractMethod
    split
    · trivial
    · refine .bind (by simp) fun _ => .bind ?_ fun _ => by simp
      exact mute_runScript _ _ (mute_methodHost n ih name caller) (mute_interruptHandler name) _ _

/-! ## The events of a call -/

/-- The events that a script's run ends with are those it began with, and then its own in the order of its calls. -/
theorem events_runScript {name src : String} {host : HostCall → Eff (HostRes × Events)} {interrupt : Eff Bool}
    {nested : HostCall → St → Events} (hhost : ∀ h s r ev u, runEff Γ (host h) s = (.ok (r, ev), u) → ev = nested h s)
    (script : Script) {ev ev' : Events} {s u : St} {r : HostRes}
    (hr : runEff Γ (runScript name src host interrupt script ev) s = (.ok (r, ev'), u)) :
    ev' = ev ++ scriptEvents Γ name src host interrupt nested script s := by
  induction script generalizing ev s with
  | done x heap =>
    obtain ⟨_, t1, h1, h2⟩ := run_bind_eq_ok _ hr
    obtain ⟨⟨-, rfl⟩, -⟩ : (_ ∧ ev = ev') ∧ _ := by simpa using h2
    exact (List.append_nil _).symm
  | throw text heap =>
    obtain ⟨_, t1, h1, h2⟩ := run_bind_eq_ok _ hr
    obtain ⟨⟨-, rfl⟩, -⟩ : (_ ∧ ev = ev') ∧ _ := by simpa using h2
    exact (List.append_nil _).symm
  | step heap k ih =>
    obtain ⟨stop, t1, h1, h2⟩ := run_bind_eq_ok _ hr
    have h1' : runEff Γ interrupt s = (.ok stop, t1) := h1
    unfold scriptEvents
    rw [h1']
    cases stop with
    | false => exact ih h2
    | true =>
      obtain ⟨_, t2, h3, h4⟩ := run_bind_eq_ok _ h2
      obtain ⟨⟨-, rfl⟩, -⟩ : (_ ∧ ev = ev') ∧ _ := by simpa using h4
      exact (List.append_nil _).symm
  | call heap h k ih =>
    obtain ⟨_, t1, h1, h2⟩ := run_bind_eq_ok _ hr
    obtain ⟨⟨x, e⟩, t2, h3, h4⟩ := run_bind_eq_ok _ h2
    obtain ⟨heap', t3, h5, h6⟩ := run_bind_eq_ok _ h4
    have hs1 : (runEff Γ (saveHeap name src heap) s).2 = t1 := congrArg Prod.snd h1
    have hall : runEff Γ (host h >>= fun x => loadHeap name heap >>= fun heap => pure (x.1, heap)) t1 = (.ok (x, heap'), t3) :=
      (run_bind_ok _ h3).trans (run_bind_ok _ h5)
    unfold scriptEvents
    dsimp only
    rw [hs1, hall, ih x heap' h6, hhost h t1 x e t2 h3, List.append_assoc]

/-- The event of an `emit` is there exactly if it is accepted. -/
theorem events_jsiEmit {name : String} {value : Option String} {s u : St} {r : HostRes} {ev : Events}
    (hr : runEff Γ (jsiEmit b name value) s = (.ok (r, ev), u)) :
    ev = if name = "" then [] else (value.map fun v => (name, v)).toList := by
  by_cases hn : name = ""
  · rw [if_pos hn]
    simp only [jsiEmit, failIf, if_pos hn] at hr
    cases hr
    rfl
  · rw [if_neg hn]
    simp only [jsiEmit, failIf, if_neg hn] at hr
    cases value <;> cases hr <;> rfl

/-- The functions of the interface inside a view emit nothing. -/
theorem events_viewHost {self : String} (h : HostCall) {s u : St} {r : HostRes} {ev : Events}
    (hr : runEff Γ (viewHost Γ self h) s = (.ok (r, ev), u)) : ev = [] := by
  cases h with
  | getGranule key =>
    obtain ⟨x, t1, -, h2⟩ := run_bind_eq_ok _ hr
    obtain ⟨⟨-, rfl⟩, -⟩ : (_ ∧ [] = ev) ∧ _ := by simpa using h2
    rfl
  | _ =>
    cases hr
    rfl

theorem events_runView {name src self : String} (script : Script) {ev ev' : Events} {s u : St} {r : HostRes}
    (hr : runEff Γ (runScript name src (viewHost Γ self) (pure false) script ev) s = (.ok (r, ev'), u)) : ev' = ev := by
  induction script generalizing ev s with
  | done x heap =>
    obtain ⟨_, t1, -, h2⟩ := run_bind_eq_ok _ hr
    obtain ⟨⟨-, rfl⟩, -⟩ : (_ ∧ ev = ev') ∧ _ := by simpa using h2
    rfl
  | throw text heap =>
    obtain ⟨_, t1, -, h2⟩ := run_bind_eq_ok _ hr
    obtain ⟨⟨-, rfl⟩, -⟩ : (_ ∧ ev = ev') ∧ _ := by simpa using h2
    rfl
  | step heap k ih => exact ih hr
  | call heap h k ih =>
    obtain ⟨_, t1, -, h2⟩ := run_bind_eq_ok _ hr
    obtain ⟨⟨x, e⟩, t2, h3, h4⟩ := run_bind_eq_ok _ h2
    obtain ⟨heap', t3, -, h6⟩ := run_bind_eq_ok _ h4
    obtain rfl := events_viewHost h h3
    rw [ih x heap' h6, List.append_nil]

theorem events_callContractView {n : Nat} {name : String} {cc : ContractContext} {view : String} {params : Json} {s u : St}
    {r : HostRes} {ev : Events} (hr : runEff Γ (callContractView Γ n name cc view params) s = (.ok (r, ev), u)) : ev = [] := by
  unfold callContractView at hr
  split at hr
  · cases hr
    rfl
  · split at hr
    · cases hr
      rfl
    · obtain ⟨_, t1, -, h2⟩ := run_bind_eq_ok _ hr
      exact events_runView _ h2

theorem events_jsiCallView {n : Nat} {self contract view : String} {params : Json} {s u : St} {r : HostRes} {ev : Events}
    (hr : runEff Γ (emitsTry (jsiCallView Γ n self contract view params)) s = (.ok (r, ev), u)) : ev = [] := by
  unfold runEff emitsTry at hr
  rw [run_handle] at hr
  rcases hj : run (exec Γ) (jsiCallView Γ n self contract view params) s with ⟨e | x, t⟩
  · rw [hj] at hr
    rcases e with text | (_ | _ | _ | _ | _) <;> cases hr <;> rfl
  · rw [hj] at hr
    cases hr
    obtain ⟨_, t1, -, h2⟩ := run_bind_eq_ok _ hj
    obtain ⟨_, t2, -, h4⟩ := run_bind_eq_ok _ h2
    obtain ⟨cc, t3, -, h6⟩ := run_bind_eq_ok _ h4
    exact events_callContractView h6

/-- The events of one call of the interface from a method. -/
theorem events_methodHost {n : Nat}
    {call : (name : String) → ContractContext → (method : String) → Json → (caller : String) → Eff (HostRes × Events)}
    {events : (name : String) → ContractContext → (method : String) → Json → (caller : String) → St → Events}
    (hcall : ∀ name cc method params caller s r ev u, runEff Γ (call name cc method params caller) s = (.ok (r, ev), u) →
      ev = events name cc method params caller s) {self caller : String} (h : HostCall) {s u : St} {r : HostRes} {ev : Events}
    (hr : runEff Γ (methodHost Γ b t n call self caller h) s = (.ok (r, ev), u)) :
    ev = hostEvents Γ b events self h s := by
  have hquiet : ∀ {m : Eff HostRes}, runEff Γ (quiet m) s = (.ok (r, ev), u) → ev = [] := by
    intro m hq
    obtain ⟨x, t1, -, h2⟩ := run_bind_eq_ok _ hq
    obtain ⟨⟨-, rfl⟩, -⟩ : (_ ∧ [] = ev) ∧ _ := by simpa using h2
    rfl
  cases h with
  | emit name value => exact events_jsiEmit hr
  | callMethod contract method params =>
    obtain ⟨x, t1, h1, h2⟩ := run_bind_eq_ok _ hr
    unfold hostEvents
    dsimp only
    rcases hb : runEff Γ (beforeCallMethod Γ b self contract method) s with ⟨e | cc, t2⟩
    · have hb' : run (exec Γ) (beforeCallMethod Γ b self contract method) s = (.error e, t2) := hb
      rw [run_handle, run_bind, hb'] at h1
      rcases e with text | (_ | _ | _ | _ | _) <;> cases h1 <;> cases h2 <;> rfl
    · have hb' : run (exec Γ) (beforeCallMethod Γ b self contract method) s = (.ok cc, t2) := hb
      rw [run_handle, run_bind, hb'] at h1
      cases h1
      exact hcall _ _ _ _ _ _ _ _ _ h2
  | callView contract view params => exact events_jsiCallView hr
  | _ => exact hquiet hr

/-- The events that a method's run ends with are those of its calls, those of nested calls in their place. -/
theorem events_callContractMethod (n : Nat) (name : String) (cc : ContractContext) (method : String) (params : Json)
    (caller : String) (s : St) (r : HostRes) (ev : Events) (u : St)
    (hr : runEff Γ (callContractMethod Γ b t n name cc method params caller) s = (.ok (r, ev), u)) :
    ev = methodEvents Γ b t n name cc method params caller s := by
  induction n generalizing name cc method params caller s r ev u with
  | zero =>
    cases hr
    rfl
  | succ n ih =>
    unfold callContractMethod at hr
    unfold methodEvents
    cases hm : Γ.method cc.src cc.heap method params with
    | none =>
      rw [hm] at hr
      cases hr
      rfl
    | some script =>
      rw [hm] at hr
      obtain ⟨_, t1, h1, h2⟩ := run_bind_eq_ok _ hr
      obtain ⟨⟨r', ev'⟩, t2, h3, h4⟩ := run_bind_eq_ok _ h2
      obtain ⟨_, t3, -, h5⟩ := run_bind_eq_ok _ h4
      obtain ⟨⟨-, rfl⟩, -⟩ : (_ ∧ ev' = ev) ∧ _ := by simpa using h5
      have hs1 : (runEff Γ (setHandler name true) s).2 = t1 := congrArg Prod.snd h1
      dsimp only
      rw [hs1]
      exact events_runScript (fun h s r ev u hh => events_methodHost ih h hh) script h3

/-- The entry of an event. -/
def entry (t : TParams) (index : Nat) (e : String × String) : Emit :=
  { txId := some t.tx.getHash, seqId := some index, command := e.1, body := e.2 }

/-- The entries of a command's events. -/
def CommandRun.entries (Γ : Ctx) (b : BParams) (x : CommandRun) : List Emit := (x.events Γ b).map (entry x.params x.index)

/-- The hand-over of a call's events: an entry for each, in order. -/
theorem emitted_emitEvents (i : Nat) (ev : Events) (s : St) :
    (runEff Γ (emitEvents t i ev) s).1 = .ok () ∧
    emitted Γ (emitEvents t i ev) s = ev.map fun e => entry t i (e.1, emitText e.2) := by
  induction ev generalizing s with
  | nil => exact ⟨rfl, rfl⟩
  | cons e ev ih =>
    obtain ⟨h1, h2⟩ := ih (runEff Γ (emitCommand t i e.1 e.2) s).2
    exact ⟨h1, congrArg (entry t i (e.1, emitText e.2) :: ·) h2⟩

/-- A command that calls a contract: the entries are handed over at the end, if the call has raised nothing. -/
theorem emitted_executeContractCall (i : Nat) (c : Command) (s : St) :
    (∀ e u, runEff Γ (executeContractCall Γ b t i c.contract c.method c.params) s = (.error e, u) →
      emitted Γ (executeContractCall Γ b t i c.contract c.method c.params) s = []) ∧
    (∀ a u, runEff Γ (executeContractCall Γ b t i c.contract c.method c.params) s = (.ok a, u) →
      emitted Γ (executeContractCall Γ b t i c.contract c.method c.params) s =
        (contractEvents Γ b t c s).map fun e => entry t i (e.1, emitText e.2)) := by
  have hget : Mute (getContract Γ c.contract >>= orErr ("contract not found: " ++ c.contract)) fun _ => True :=
    .bind (mute_getContract _) fun _ => by simp
  unfold executeContractCall
  rcases h1 : runEff Γ (getContract Γ c.contract >>= orErr ("contract not found: " ++ c.contract)) s with ⟨e1 | cc, u1⟩
  · refine ⟨fun e u _ => hget.emitted_error _ h1, fun a u h => ?_⟩
    cases (run_bind_error _ h1).symm.trans h
  have hevents : contractEvents Γ b t c s = methodEvents Γ b t maxCallDepth c.contract cc c.method c.params "" u1 := by
    obtain ⟨x, u0, h2, h3⟩ := run_bind_eq_ok _ h1
    unfold contractEvents
    rw [show runEff Γ (getContract Γ c.contract) s = (.ok x, u0) from h2]
    cases x with
    | none => cases h3
    | some x => cases h3; rfl
  rw [hget.emitted_ok _ h1, hevents]
  have hcall := mute_callContractMethod (Γ := Γ) (b := b) (t := t) maxCallDepth c.contract cc c.method c.params ""
  rcases h2 : runEff Γ (callContractMethod Γ b t maxCallDepth c.contract cc c.method c.params "") u1 with ⟨e2 | ⟨r, ev⟩, u2⟩
  · refine ⟨fun e u _ => hcall.emitted_error _ h2, fun a u h => ?_⟩
    cases ((run_bind_ok _ h1).trans (run_bind_error _ h2)).symm.trans h
  rw [hcall.emitted_ok _ h2, ← events_callContractMethod _ _ _ _ _ _ _ _ _ _ h2]
  cases r with
  | exception text =>
    refine ⟨fun e u _ => rfl, fun a u h => ?_⟩
    cases ((run_bind_ok _ h1).trans (run_bind_ok _ h2)).symm.trans h
  | _ =>
    obtain ⟨h3, h4⟩ := emitted_emitEvents (Γ := Γ) (t := t) i ev u2
    refine ⟨fun e u h => ?_, fun _ _ _ => h4⟩
    have herr : (runEff Γ (emitEvents t i ev) u2).1 = .error e :=
      congrArg Prod.fst (((run_bind_ok _ h1).trans (run_bind_ok _ h2)).symm.trans h)
    rw [h3] at herr
    cases herr

/-- A command that fails adds no entry; one that runs to its end adds those of its events. -/
theorem emitted_executeCommand (i : Nat) (c : Command) (s : St) :
    (∀ e u, runEff Γ (executeCommand Γ b t i c) s = (.error e, u) → emitted Γ (executeCommand Γ b t i c) s = []) ∧
    (∀ a u, runEff Γ (executeCommand Γ b t i c) s = (.ok a, u) →
      emitted Γ (executeCommand Γ b t i c) s = CommandRun.entries Γ b ⟨t, i, c, s⟩) := by
  unfold executeCommand CommandRun.entries CommandRun.events
  split
  · have hroot := emits_executeRoot (Γ := Γ) (t := t) (i := i) b c.method c.params
    refine ⟨hroot.failed s, fun a u _ => ?_⟩
    rw [List.map_map]
    refine (List.map_id _).symm.trans (List.map_congr_left fun e he => ?_)
    obtain ⟨h1, h2⟩ := hroot.all s e he
    obtain ⟨tx, seq, command, body⟩ := e
    obtain rfl : tx = _ := h1
    obtain rfl : seq = _ := h2
    rfl
  · rw [List.map_map]
    exact emitted_executeContractCall i c s

/-! ## The commands of a transaction -/

/-- The commands of a transaction add the entries of those that run to their end. -/
theorem emitted_executeCommands (items : List Json) (i : Nat) (s : St) : emitted Γ (executeCommands Γ b t items i) s =
    (completed Γ b t items i s).flatMap (CommandRun.entries Γ b) := by
  induction items generalizing i s with
  | nil => rfl
  | cons item items ih =>
    unfold executeCommands completed
    rcases parseCommand item with e | c
    · rfl
    obtain ⟨hfailed, hended⟩ := emitted_executeCommand (Γ := Γ) (b := b) (t := t) i c s
    dsimp only
    rcases hr : runEff Γ (executeCommand Γ b t i c) s with ⟨e | a, u⟩
    · exact (notes_bind_error _ hr).trans (hfailed e u hr)
    · refine (notes_bind_ok _ hr).trans ?_
      rw [List.flatMap_cons, ← ih (i + 1) u, ← hended a u hr]
      rfl

/-- If the commands succeed, the ones that have run to their end are those of the list, each with its index. -/
theorem completed_eq {items : List Json} {i : Nat} {s u : St} {a : Unit}
    (hr : runEff Γ (executeCommands Γ b t items i) s = (.ok a, u)) :
    (completed Γ b t items i s).map (fun x => (Except.ok x.command, x.index)) =
      (items.zipIdx i).map fun z => (parseCommand z.1, z.2) := by
  induction items generalizing i s with
  | nil => rfl
  | cons item items ih =>
    obtain ⟨c, s1, h1, h2⟩ := run_bind_eq_ok _ hr
    obtain ⟨x, s2, h3, h4⟩ := run_bind_eq_ok _ h2
    have hc : parseCommand item = .ok c ∧ s = s1 := by
      rcases hp : parseCommand item with e | c' <;> rw [hp] at h1 <;> cases h1
      exact ⟨rfl, rfl⟩
    obtain ⟨hc, rfl⟩ := hc
    unfold completed
    rw [hc]
    dsimp only
    rw [show runEff Γ (executeCommand Γ b t i c) s = (.ok x, s2) from h3, List.zipIdx_cons, List.map_cons, List.map_cons, hc]
    exact congrArg _ (ih h4)

/-- A command that has run to its end. -/
theorem of_mem_completed {items : List Json} {i : Nat} {s : St} {x : CommandRun} (hx : x ∈ completed Γ b t items i s) :
    x.params = t ∧ ∃ a u, runEff Γ (executeCommand Γ b x.params x.index x.command) x.start = (.ok a, u) := by
  induction items generalizing i s with
  | nil => exact absurd hx List.not_mem_nil
  | cons item items ih =>
    unfold completed at hx
    rcases hc : parseCommand item with e | c <;> rw [hc] at hx
    · exact absurd hx List.not_mem_nil
    dsimp only at hx
    rcases hr : runEff Γ (executeCommand Γ b t i c) s with ⟨e | a, u⟩ <;> rw [hr] at hx
    · exact absurd hx List.not_mem_nil
    · rcases List.mem_cons.1 hx with rfl | hx
      · exact ⟨rfl, a, u, hr⟩
      · exact ih hx

/-! ## Around the commands -/

variable {tx : TX}

theorem mute_getAddress (addr : String) : Mute (getAddressStateNoCreate Γ addr) fun _ => True := by
  simp [getAddressStateNoCreate, checkAddr]

theorem mute_checkTx : Mute (checkTx Γ tx) fun _ => True := by
  unfold checkTx checkSender
  refine .bind ?_ fun sender => .bind (.bind (mute_getAddress _) fun _ => by simp) fun u => ?_
  · refine .bind (by simp) fun _ => .bind (by simp) fun sender => .bind (.bind (mute_getAddress _) fun _ => by simp) fun u => ?_
    simp
  · exact .bind (by simp) fun nonce => .bind (by simp) fun _ => trivial

theorem mute_readAmountsEmit (root : Json) : Mute (readAmountsEmit tx root) fun _ => True := by
  unfold readAmountsEmit
  split
  · trivial
  · simp [emitTx]
  · trivial

/-- The transaction's parameters carry the transaction. -/
theorem mute_beginTransaction (sender : String) : Mute (beginTransaction Γ b sender tx) fun x => x.params.tx = tx := by
  unfold beginTransaction
  repeat
    refine .bind ?_ fun _ => ?_
    · first
      | exact mute_getAddress _
      | simp [getStateNoCreate, getValuesNoCreate, mute_readAmountsEmit, add64]
  rfl

theorem mute_beginCommands (jtx : Json) : Mute (beginCommands t jtx) fun x => x.1 = t := by
  unfold beginCommands
  exact .bind (by simp) fun items => .bind (by simp) fun _ => .bind (by simp) fun _ => rfl

theorem mute_reachCommands : Mute (reachCommands Γ b tx) fun x => x.1.tx = tx := by
  refine .bind mute_checkTx fun x => ?_
  refine (safe_bind _ _ _).2 ((mute_beginTransaction x.1).post fun y hy => (mute_beginCommands y.jtx).post fun z hz => ?_)
  rw [hz, hy]

theorem mute_chargeGas (uu : DataPtr) (priority gas : Int) : Mute (chargeGas b uu priority gas) fun _ => True := by
  simp [chargeGas]

theorem mute_fail (uu : DataPtr) (priority gas : Int) (msg : String) : Mute (fail b uu priority msg gas : Eff Unit) fun _ => True := by
  unfold fail
  refine .bind (by simp) fun _ => .bind (by simp) fun _ => .bind (by simp) fun _ => .bind (mute_chargeGas _ _ _) fun _ => trivial

theorem mute_deletePending (ds : List DataPtr) : Mute (deletePending ds) fun _ => True := by
  induction ds with
  | nil => trivial
  | cons d ds ih => exact .bind (by simp) fun _ => ih

theorem mute_settle (uu : DataPtr) (a : Amounts) (gasLimitGas : Int) : Mute (settle b uu a gasLimitGas) fun _ => True := by
  unfold settle
  refine .bind (by simp) fun ds => .bind (mute_deletePending _) fun _ => .bind (by simp) fun _ => .bind (by simp) fun _ => ?_
  refine .bind (by simp) fun _ => .bind (by simp) fun gas => ?_
  split
  · exact mute_fail _ _ _ _
  · refine .bind (mute_chargeGas _ _ _) fun _ => ?_
    simp [sub64]

theorem mute_afterCommands (uu : DataPtr) (a : Amounts) (gasLimitGas : Int) (r : Option String) :
    Mute (afterCommands b uu a gasLimitGas r) fun _ => True := by
  refine .bind (by simp) fun gas => ?_
  cases r with
  | some msg => exact mute_fail _ _ _ _
  | none =>
    refine .bind (by simp) fun v => ?_
    split
    · exact mute_fail _ _ _ _
    · split
      · exact mute_fail _ _ _ _
      · exact mute_settle _ _ _

/-! ## A transaction -/

theorem executeTxCommands_eq (jtx : Json) :
    executeTxCommands Γ b t jtx = beginCommands t jtx >>= fun x => executeCommands Γ b t x.2 0 := by
  simp only [executeTxCommands, beginCommands, bind_bind]
  rfl

theorem transaction_eq (sender : String) : transaction Γ b sender tx =
    beginTransaction Γ b sender tx >>= fun x =>
      catchErr (executeTxCommands Γ b x.params x.jtx) >>= afterCommands b x.uu x.amounts x.gasLimitGas := by
  simp only [transaction, beginTransaction, bind_bind]
  rfl

theorem checkAndExecute_eq : checkAndExecute Γ b tx =
    checkTx Γ tx >>= fun x => catchErr (executeTransaction Γ b x.1 tx) >>= fun r =>
      assign x.2 .incNonce >>= fun _ => setDirty x.2 false >>= fun _ =>
        (match r with | some msg => err msg | none => pure () : Eff Unit) := by
  simp only [checkAndExecute, checkTx, bind_bind]
  rfl

theorem emitted_executeTxCommands (jtx : Json) (s : St) : emitted Γ (executeTxCommands Γ b t jtx) s =
    match runEff Γ (beginCommands t jtx) s with
    | (.ok x, u) => emitted Γ (executeCommands Γ b t x.2 0) u
    | (.error _, _) => [] := by
  rw [executeTxCommands_eq]
  rcases h : runEff Γ (beginCommands t jtx) s with ⟨e | x, u⟩
  · exact (mute_beginCommands jtx).emitted_error _ h
  · exact (mute_beginCommands jtx).emitted_ok _ h

theorem emitted_executeTransaction (sender : String) (s : St) : emitted Γ (executeTransaction Γ b sender tx) s =
    match runEff Γ (beginTransaction Γ b sender tx) s with
    | (.ok x, u) => emitted Γ (executeTxCommands Γ b x.params x.jtx) u
    | (.error _, _) => [] := by
  refine (emitted_inTx _).trans ?_
  rw [transaction_eq]
  rcases h : runEff Γ (beginTransaction Γ b sender tx) s with ⟨e | x, u⟩
  · exact (mute_beginTransaction sender).emitted_error _ h
  · refine ((mute_beginTransaction sender).emitted_ok _ h).trans ?_
    refine (notes_bind_left _ (fun r v => emitted_of_mute (mute_afterCommands _ _ _ r) v) u).trans ?_
    exact emitted_catchErr _

/-- A transaction adds the entries of its commands that run to their end. -/
theorem emitted_checkAndExecute (s : St) : emitted Γ (checkAndExecute Γ b tx) s =
    (completedBy Γ b tx s).flatMap (CommandRun.entries Γ b) := by
  have hrest : ∀ (x : String × DataPtr) (r : Option String) (v : St), emitted Γ (assign x.2 .incNonce >>= fun _ =>
      setDirty x.2 false >>= fun _ => (match r with | some msg => err msg | none => pure () : Eff Unit)) v = [] := by
    intro x r v
    refine emitted_of_mute (Q := fun _ => True) (.bind (by simp) fun _ => .bind (by simp) fun _ => ?_) v
    cases r <;> trivial
  unfold completedBy reachCommands
  rw [checkAndExecute_eq]
  rcases h1 : runEff Γ (checkTx Γ tx) s with ⟨e | x, u⟩
  · rw [mute_checkTx.emitted_error _ h1, runEff, run_bind_error _ h1]
    rfl
  rw [mute_checkTx.emitted_ok _ h1, runEff, run_bind_ok _ h1]
  refine (notes_bind_left _ (hrest x) u).trans ((emitted_catchErr _).trans ?_)
  rw [emitted_executeTransaction]
  rcases h2 : runEff Γ (beginTransaction Γ b x.1 tx) u with ⟨e | y, v⟩
  · rw [run_bind_error _ h2]
    rfl
  rw [run_bind_ok _ h2]
  dsimp only
  rw [emitted_executeTxCommands]
  rcases h3 : runEff Γ (beginCommands y.params y.jtx) v with ⟨e | z, w⟩
  · rw [show run _ _ v = _ from h3]
    rfl
  · rw [show run _ _ v = _ from h3]
    obtain ⟨t', items⟩ := z
    obtain rfl : t' = y.params := (mute_beginCommands y.jtx).result (Γ := Γ) (s := v) (congrArg Prod.fst h3)
    exact emitted_executeCommands _ _ _

/-! ## A transaction that succeeds -/

/-- Code that is found to have returned no error text ended with a value. -/
theorem of_catchErr_none {m : Eff Unit} {s u : St} (h : runEff Γ (catchErr m) s = (.ok none, u)) : runEff Γ m s = (.ok (), u) := by
  rcases hm : runEff Γ m s with ⟨e | a, v⟩
  · rw [runEff, catchErr, run_handle, run_bind_error _ hm] at h
    cases e <;> cases h
  · rw [runEff, catchErr, run_handle, run_bind_ok _ hm] at h
    cases h
    rfl

theorem of_inTx_ok {α : Type} {m : Eff α} {a : α} {s u : St} (h : runEff Γ (inTx m) s = (.ok a, u)) :
    ∃ v, runEff Γ m s = (.ok a, v) := by
  rcases hm : runEff Γ m s with ⟨e | x, v⟩
  · rw [runEff, inTx, run_handle, run_bind_error _ hm] at h
    cases h
  · rw [runEff, inTx, run_handle, run_bind_ok _ hm] at h
    cases h
    exact ⟨v, rfl⟩

theorem fail_ne_ok {uu : DataPtr} {priority gas : Int} {msg : String} {s u : St} {a : Unit} :
    runEff Γ (fail b uu priority msg gas) s ≠ (.ok a, u) := by
  intro h
  obtain ⟨_, _, -, h⟩ := run_bind_eq_ok _ h
  obtain ⟨_, _, -, h⟩ := run_bind_eq_ok _ h
  obtain ⟨_, _, -, h⟩ := run_bind_eq_ok _ h
  obtain ⟨_, _, -, h⟩ := run_bind_eq_ok _ h
  cases h

/-- If a transaction succeeds, all of its commands have run to their end. -/
theorem all_completed {s u : St} (h : runEff Γ (checkAndExecute Γ b tx) s = (.ok (), u)) :
    ∃ t items v, runEff Γ (reachCommands Γ b tx) s = (.ok (t, items), v) ∧
      (completedBy Γ b tx s).map (fun x => (Except.ok x.command, x.index)) =
        items.zipIdx.map fun z => (parseCommand z.1, z.2) := by
  rw [checkAndExecute_eq] at h
  obtain ⟨x, s1, h1, h⟩ := run_bind_eq_ok _ h
  obtain ⟨r, s2, h2, h⟩ := run_bind_eq_ok _ h
  obtain ⟨_, s3, -, h⟩ := run_bind_eq_ok _ h
  obtain ⟨_, s4, -, h⟩ := run_bind_eq_ok _ h
  obtain rfl : r = none := by
    cases r with
    | none => rfl
    | some msg => cases h
  obtain ⟨v, h3⟩ := of_inTx_ok (of_catchErr_none h2)
  rw [transaction_eq] at h3
  obtain ⟨y, s5, h4, h5⟩ := run_bind_eq_ok _ h3
  obtain ⟨r, s6, h6, h7⟩ := run_bind_eq_ok _ h5
  obtain rfl : r = none := by
    cases r with
    | none => rfl
    | some msg =>
      obtain ⟨_, _, -, h⟩ := run_bind_eq_ok _ h7
      exact absurd h fail_ne_ok
  have h8 := of_catchErr_none h6
  rw [executeTxCommands_eq] at h8
  obtain ⟨⟨t', items⟩, s7, h9, h10⟩ := run_bind_eq_ok _ h8
  obtain rfl : t' = y.params := (mute_beginCommands y.jtx).result (Γ := Γ) (s := s5) (congrArg Prod.fst h9)
  have hreach : runEff Γ (reachCommands Γ b tx) s = (.ok (y.params, items), s7) :=
    (run_bind_ok _ h1).trans ((run_bind_ok _ h4).trans h9)
  refine ⟨y.params, items, s7, hreach, ?_⟩
  unfold completedBy
  rw [hreach]
  exact completed_eq h10

/-- The commands of a transaction that have run to their end. -/
theorem of_mem_completedBy {s : St} {x : CommandRun} (hx : x ∈ completedBy Γ b tx s) :
    x.params.tx = tx ∧ ∃ a u, runEff Γ (executeCommand Γ b x.params x.index x.command) x.start = (.ok a, u) := by
  unfold completedBy at hx
  rcases hr : runEff Γ (reachCommands Γ b tx) s with ⟨e | ⟨t, items⟩, u⟩ <;> rw [hr] at hx
  · exact absurd hx List.not_mem_nil
  · obtain ⟨hp, hrun⟩ := of_mem_completed hx
    have ht : t.tx = tx := mute_reachCommands.result (Γ := Γ) (s := s) (congrArg Prod.fst hr)
    exact ⟨by rw [hp, ht], hrun⟩

/-- A turn of the loop adds the entries of the transaction's commands that run to their end. -/
theorem emitted_executeBlockTx (s : St) :
    emitted Γ (executeBlockTx Γ b tx) s = (completedBy Γ b tx s).flatMap (CommandRun.entries Γ b) := by
  refine (notes_bind_left _ (fun r v => ?_) s).trans ((emitted_catchErr _).trans (emitted_checkAndExecute s))
  cases r <;> rfl

/-! ## Around the transactions -/

attribute [local simp] getStateNoCreate getNodeNoCreate getNodeListNoCreate

theorem mute_beginBlock (newEpoch : Int) : Mute (beginBlock Γ newEpoch) fun _ => True := by
  simp [beginBlock]

theorem mute_getNodes (l : List String) : Mute (getNodes Γ l) fun _ => True := by
  induction l with
  | nil => trivial
  | cons z l ih => exact .bind (by simp) fun n => .bind ih fun _ => trivial

theorem mute_validatorStakes (l : List String) : Mute (validatorStakes Γ l) fun _ => True := by
  induction l with
  | nil => trivial
  | cons z l ih =>
    exact .bind (by simp) fun n => .bind (by simp) fun _ => .bind (by simp) fun _ => .bind ih fun _ => trivial

theorem mute_rewardValidators (rewards : Int) (stakes : List Int) (l : List String) :
    Mute (rewardValidators Γ rewards stakes l) fun _ => True := by
  induction l with
  | nil => trivial
  | cons z l ih =>
    refine .bind (by simp) fun n => .bind (by simp) fun _ => .bind (by simp) fun _ => ?_
    refine .bind (.bind (mute_getAddress _) fun _ => by simp) fun u => .bind (by simp) fun _ => .bind (by simp) fun _ => ?_
    exact .bind (by simp [emitBlock]) fun _ => ih

theorem mute_calcFeeRewardsNodes : Mute (calcFeeRewardsNodes Γ b) fun _ => True := by
  unfold calcFeeRewardsNodes getAllNodes
  refine .bind ?_ fun _ => .bind (by simp) fun rewards => ?_
  · exact .bind (by simp) fun nl => .bind (by simp) fun _ => .bind (by simp) fun _ => mute_getNodes _
  · split
    · simp [emitBlock]
    · exact .bind (mute_validatorStakes _) fun _ => .bind (mute_rewardValidators _ _ _) fun _ => by simp [emitBlock]

theorem mute_endBlock : Mute (endBlock Γ b) fun _ => True :=
  .bind (by simp [proceedMerkle]) fun _ => .bind mute_calcFeeRewardsNodes fun _ => by simp [proceedMerkle]

end Grain
