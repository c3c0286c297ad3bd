import Grain.Frames
import Grain.Genesis

/-!
# The discipline of contract calls

The call functions take the interrupt handler out of the callee's runtime when they return, whatever was there before. As long as
no contract is called while it is on the stack, there was nothing, and every return leaves the runtime, the context and the stack
as the call found them; then a method never runs without its own handler.
-/

namespace Grain

variable {Γ : Ctx} {C : Calls}

/-- What the condition asks of an event: no contract on the stack is called, and gas is charged only while it is within the
limit, by the interface not past it. -/
def Event.Disciplined (C : Calls) : Event → Prop
  | .poll _ _ gasUsed => InI64 (gasUsed + C.step) ∧ gasUsed ≤ C.limit
  | .charge amount gasUsed => InI64 (gasUsed + amount) ∧ gasUsed + amount ≤ C.limit
  | .ret contract _ stack _ _ => contract ∉ stack.map (·.contract)

instance (C : Calls) : DecidablePred (Event.Disciplined C) := fun ev =>
  match ev with
  | .poll _ _ _ => inferInstanceAs (Decidable (_ ∧ _))
  | .charge _ _ => inferInstanceAs (Decidable (_ ∧ _))
  | .ret _ _ _ _ _ => inferInstanceAs (Decidable (¬ _))

/-- What is claimed of an event: a method runs under the handler with its own context, and a return leaves what the call found. -/
def Event.Sound : Event → Prop
  | .poll frame handler _ => frame.inView = false → handler = some (.interruptHandler frame.ctx)
  | .charge _ _ => True
  | .ret _ rt stack rt' stack' => rt' = rt ∧ stack' = stack

/-- The gas that may be used: the limit and one interrupt step. -/
def Calls.bound (C : Calls) : Int := C.limit + max 0 C.step

/-- The handlers are those of the frames on the stack. -/
structure Installed (e : Engine) : Prop where
  frames : ∀ f ∈ e.stack, (e.rt f.contract).handler = some f.handler
  free : ∀ c, c ∉ e.stack.map (·.contract) → (e.rt c).handler = none

/-- What a piece of a run leaves as it was, and the events it adds. -/
structure Kept (C : Calls) (e e' : Engine) : Prop where
  rt : e'.rt = e.rt
  stack : e'.stack = e.stack
  sound : (∀ ev ∈ e.events, ev.Sound) → ∀ ev ∈ e'.events, ev.Sound
  gas : e.gasUsed ≤ C.bound → e'.gasUsed ≤ C.bound

theorem Kept.refl (e : Engine) : Kept C e e := ⟨rfl, rfl, id, id⟩

theorem Kept.trans {e₁ e₂ e₃ : Engine} (h : Kept C e₁ e₂) (h' : Kept C e₂ e₃) : Kept C e₁ e₃ :=
  ⟨h'.rt.trans h.rt, h'.stack.trans h.stack, fun hs => h'.sound (h.sound hs), fun hg => h'.gas (h.gas hg)⟩

theorem Kept.installed {e e' : Engine} (h : Kept C e e') (hi : Installed e) : Installed e' := by
  constructor
  · rw [h.stack, h.rt]
    exact hi.frames
  · rw [h.stack, h.rt]
    exact hi.free

/-- A piece of a run only adds to the record. -/
def Adds (m : Engine → HostRes × Engine) : Prop := ∀ e, e.events <+: (m e).2.events

/-- A piece of a run that is disciplined keeps what it found. -/
def KeepsFrames (C : Calls) (m : Engine → HostRes × Engine) (e : Engine) : Prop :=
  Installed e → (∀ ev ∈ (m e).2.events, ev.Disciplined C) → Kept C e (m e).2

/-! ## The record grows -/

theorem events_pollInterrupt (f : Frame) (e : Engine) :
    (pollInterrupt C f e).2.events = e.events ++ [.poll f (e.rt f.contract).handler e.gasUsed] := by
  unfold pollInterrupt
  dsimp only
  split <;> rfl

theorem adds_runFrame {f : Frame} {host : HostCall → Engine → HostRes × Engine} (hh : ∀ h, Adds (host h)) (script : Script) :
    Adds (runFrame C f host script) := by
  induction script with
  | done r heap => exact fun e => List.prefix_refl _
  | throw text heap => exact fun e => List.prefix_refl _
  | step heap k ih =>
    intro e
    have hpoll : e.events <+: (pollInterrupt C f e).2.events := by
      rw [events_pollInterrupt]
      exact List.prefix_append _ _
    rw [runFrame]
    split
    · exact hpoll
    · exact hpoll.trans (ih _)
  | call heap h k ih =>
    intro e
    have hhost : e.events <+: (host h (e.setHeap f.contract heap)).2.events := hh h (e.setHeap f.contract heap)
    exact hhost.trans (ih _ _ _)

theorem adds_enterFrame {contract : String} {inView : Bool} {params : Json} {script : Script}
    {host : Frame → HostCall → Engine → HostRes × Engine} (hh : ∀ f h, Adds (host f h)) :
    Adds (enterFrame C contract inView params script host) := by
  intro e
  unfold enterFrame
  dsimp only
  split
  · exact adds_runFrame (hh _) script (((e.pushFrame contract inView).setContextOpaque contract _).setInterruptHandler contract _)
  · exact List.prefix_refl _

theorem adds_recordReturn {contract : String} {e : Engine} {r : HostRes × Engine} (h : e.events <+: r.2.events) :
    e.events <+: (recordReturn contract e r).2.events :=
  h.trans (List.prefix_append _ _)

theorem adds_viewAnswer (h : HostCall) : Adds (viewAnswer C h) := by
  intro e
  cases h <;> exact List.prefix_refl _

theorem adds_callContractViewFrame (n : Nat) (contract src view : String) (params : Json) :
    Adds (callContractViewFrame Γ C n contract src view params) := by
  intro e
  refine adds_recordReturn ?_
  split
  · exact List.prefix_refl _
  · exact List.prefix_refl _
  · exact adds_enterFrame (fun _ h => adds_viewAnswer h) e

theorem adds_aroundCall {self : Frame} {contract name : String} {call : String → Engine → HostRes × Engine}
    (hc : ∀ src, Adds (call src)) : Adds (aroundCall C self contract name call) := by
  intro e
  unfold aroundCall
  split
  · exact List.prefix_refl _
  · split
    · exact List.prefix_refl _
    · split
      · exact List.prefix_refl _
      · exact hc _ (e.setContextOpaque contract (some self.ctx))

theorem prefix_chargeHost (h : HostCall) (e : Engine) : e.events <+: (chargeHost C h e).events := List.prefix_append _ _

theorem adds_callContractMethodFrame (n : Nat) (contract src method : String) (params : Json) :
    Adds (callContractMethodFrame Γ C n contract src method params) := by
  induction n generalizing contract src method params with
  | zero => exact fun e => adds_recordReturn (List.prefix_refl _)
  | succ n ih =>
    intro e
    refine adds_recordReturn ?_
    split
    · exact List.prefix_refl _
    · refine adds_enterFrame (fun self h e => ?_) e
      split
      · exact (prefix_chargeHost _ e).trans (adds_aroundCall (fun _ => ih _ _ _ _) _)
      · exact adds_aroundCall (fun _ => adds_callContractViewFrame _ _ _ _ _) e
      · exact prefix_chargeHost _ e

/-! ## What is kept -/

/-- A poll while a frame runs under its own handler. -/
theorem kept_pollInterrupt {f : Frame} {e : Engine} (hf : (e.rt f.contract).handler = some f.handler)
    (hd : ∀ ev ∈ (pollInterrupt C f e).2.events, ev.Disciplined C) : Kept C e (pollInterrupt C f e).2 := by
  have hpoll : (Event.poll f (e.rt f.contract).handler e.gasUsed).Disciplined C := by
    refine hd _ ?_
    rw [events_pollInterrupt]
    exact List.mem_append_right _ (List.mem_singleton.2 rfl)
  have hsound : (∀ ev ∈ e.events, ev.Sound) → ∀ ev ∈ (pollInterrupt C f e).2.events, ev.Sound := by
    intro hs ev hev
    rw [events_pollInterrupt] at hev
    rcases List.mem_append.1 hev with hev | hev
    · exact hs ev hev
    · obtain rfl := List.mem_singleton.1 hev
      intro hv
      rw [hf, Frame.handler, hv]
      rfl
  refine ⟨?_, ?_, hsound, fun hg => ?_⟩
  · unfold pollInterrupt
    dsimp only
    split <;> rfl
  · unfold pollInterrupt
    dsimp only
    split <;> rfl
  · obtain ⟨hin, hlim⟩ := hpoll
    unfold pollInterrupt
    dsimp only
    split
    · have hgas : wrap64 (e.gasUsed + C.step) = e.gasUsed + C.step := wrap64_eq hin
      have hmax : C.step ≤ max 0 C.step := le_max_right 0 C.step
      change wrap64 (e.gasUsed + C.step) ≤ C.limit + max 0 C.step
      omega
    · exact hg

theorem kept_chargeHost {h : HostCall} {e : Engine} (hd : ∀ ev ∈ (chargeHost C h e).events, ev.Disciplined C) :
    Kept C e (chargeHost C h e) := by
  obtain ⟨hin, hlim⟩ : (Event.charge (C.cost h) e.gasUsed).Disciplined C :=
    hd _ (List.mem_append_right _ (List.mem_singleton.2 rfl))
  refine ⟨rfl, rfl, fun hs ev hev => ?_, fun _ => ?_⟩
  · rcases List.mem_append.1 hev with hev | hev
    · exact hs ev hev
    · obtain rfl := List.mem_singleton.1 hev
      trivial
  · have hgas : wrap64 (e.gasUsed + C.cost h) = e.gasUsed + C.cost h := wrap64_eq hin
    have hmax : 0 ≤ max 0 C.step := le_max_left 0 C.step
    change wrap64 (e.gasUsed + C.cost h) ≤ C.limit + max 0 C.step
    omega

theorem kept_setHeap (e : Engine) (c : String) (h : Nat) : Kept C e (e.setHeap c h) := ⟨rfl, rfl, id, id⟩

/-- The code of a frame on the stack keeps what it found, if the interface does. -/
theorem keeps_runFrame {f : Frame} {host : HostCall → Engine → HostRes × Engine} (ha : ∀ h, Adds (host h))
    (hh : ∀ h e, f ∈ e.stack → KeepsFrames C (host h) e) (script : Script) (e : Engine) (hf : f ∈ e.stack) :
    KeepsFrames C (runFrame C f host script) e := by
  induction script generalizing e with
  | done r heap => exact fun _ _ => kept_setHeap _ _ _
  | throw text heap => exact fun _ _ => kept_setHeap _ _ _
  | step heap k ih =>
    intro hi hd
    rw [runFrame] at hd ⊢
    split at hd
    · rename_i hstop
      rw [if_pos hstop]
      have hpoll := kept_pollInterrupt (hi.frames f hf) (C := C) hd
      exact hpoll.trans (kept_setHeap _ _ _)
    · rename_i hgo
      rw [if_neg hgo]
      have hpoll := kept_pollInterrupt (hi.frames f hf) (C := C) fun ev hev => hd ev ((adds_runFrame ha k _).subset hev)
      exact hpoll.trans (ih _ (hpoll.stack ▸ hf) (hpoll.installed hi) hd)
  | call heap h k ih =>
    intro hi hd
    set r := host h (e.setHeap f.contract heap) with hr
    have hset : Kept C e (e.setHeap f.contract heap) := kept_setHeap _ _ _
    have hsub : r.2.events <+: (runFrame C f host (k r.1 (r.2.heap f.contract)) r.2).2.events := adds_runFrame ha _ _
    have hhost := hh h _ (hset.stack ▸ hf) (hset.installed hi) fun ev hev => hd ev (hsub.subset hev)
    have hrest := hset.trans hhost
    exact hrest.trans (ih _ _ _ (hrest.stack ▸ hf) (hrest.installed hi) hd)

/-- A frame of a contract that is not on the stack: it is set up, run and taken down. -/
theorem keeps_enterFrame {contract : String} {inView : Bool} {params : Json} {script : Script}
    {host : Frame → HostCall → Engine → HostRes × Engine} (ha : ∀ f h, Adds (host f h))
    (hh : ∀ f h e, f ∈ e.stack → KeepsFrames C (host f h) e) (e : Engine) (hc : contract ∉ e.stack.map (·.contract)) :
    KeepsFrames C (enterFrame C contract inView params script host) e := by
  intro hi hd
  set f : Frame := ⟨e.contexts, contract, inView⟩ with hfdef
  set e₁ := ((e.pushFrame contract inView).setContextOpaque contract (some f.ctx)).setInterruptHandler contract (some f.handler)
    with he₁
  have hfree : (e.rt contract).handler = none := hi.free contract hc
  have hstack : e₁.stack = e.stack ++ [f] := rfl
  have hother : ∀ c, c ≠ contract → e₁.rt c = e.rt c := by
    intro c hne
    simp [he₁, Engine.setInterruptHandler, Engine.setContextOpaque, Engine.pushFrame, hne]
  have hown : (e₁.rt contract).handler = some f.handler := by
    simp [he₁, Engine.setInterruptHandler]
  have hi₁ : Installed e₁ := by
    constructor
    · intro g hg
      rw [hstack] at hg
      rcases List.mem_append.1 hg with hg | hg
      · have hne : g.contract ≠ contract := fun h => hc (h ▸ List.mem_map_of_mem hg)
        rw [hother _ hne]
        exact hi.frames g hg
      · obtain rfl := List.mem_singleton.1 hg
        exact hown
    · intro c hcs
      rw [hstack, List.map_append, List.mem_append, not_or] at hcs
      have hne : c ≠ contract := fun h => hcs.2 (by simp [hfdef, h])
      rw [hother _ hne]
      exact hi.free c hcs.1
  -- taking the frame down after a run that kept the state of the frame
  have hleave : ∀ e₂, Kept C e₁ e₂ →
      Kept C e ((e₂.setInterruptHandler contract none).setContextOpaque contract (e.rt contract).ctxOpaque).popFrame := by
    intro e₂ hk
    refine ⟨funext fun c => ?_, ?_, hk.sound, hk.gas⟩
    · by_cases hcc : c = contract
      · subst hcc
        cases hrt : e.rt c with
        | mk handler op =>
          obtain rfl : handler = none := by simpa [hrt] using hfree
          simp [Engine.popFrame, Engine.setContextOpaque, Engine.setInterruptHandler]
      · simp [Engine.popFrame, Engine.setContextOpaque, Engine.setInterruptHandler, hcc, hk.rt, hother c hcc]
    · simp [Engine.popFrame, Engine.setContextOpaque, Engine.setInterruptHandler, hk.stack, hstack]
  unfold enterFrame at hd ⊢
  dsimp only at hd ⊢
  split at hd
  · rename_i hp
    rw [if_pos hp]
    exact hleave _ (keeps_runFrame (ha f) (hh f) script e₁ (by simp [hstack]) hi₁ hd)
  · rename_i hp
    rw [if_neg hp]
    exact hleave e₁ (.refl e₁)

/-- A return after a call that kept what it found is sound. -/
theorem kept_recordReturn {contract : String} {e : Engine} {r : HostRes × Engine} (h : Kept C e r.2) :
    Kept C e (recordReturn contract e r).2 := by
  refine ⟨h.rt, h.stack, fun hs ev hev => ?_, h.gas⟩
  rcases List.mem_append.1 hev with hev | hev
  · exact h.sound hs ev hev
  · obtain rfl := List.mem_singleton.1 hev
    exact ⟨by rw [h.rt], h.stack⟩

/-- The callee of a disciplined call is not on the stack. -/
theorem notMem_of_recordReturn {contract : String} {e : Engine} {r : HostRes × Engine}
    (hd : ∀ ev ∈ (recordReturn contract e r).2.events, ev.Disciplined C) : contract ∉ e.stack.map (·.contract) :=
  hd _ (List.mem_append_right _ (List.mem_singleton.2 rfl))

theorem disciplined_of_recordReturn {contract : String} {e : Engine} {r : HostRes × Engine}
    (hd : ∀ ev ∈ (recordReturn contract e r).2.events, ev.Disciplined C) : ∀ ev ∈ r.2.events, ev.Disciplined C :=
  fun ev hev => hd ev (List.mem_append_left _ hev)

theorem keeps_viewAnswer (h : HostCall) (e : Engine) : KeepsFrames C (viewAnswer C h) e := by
  intro _ _
  cases h <;> exact .refl e

theorem keeps_callContractViewFrame (n : Nat) (contract src view : String) (params : Json) (e : Engine) :
    KeepsFrames C (callContractViewFrame Γ C n contract src view params) e := by
  intro hi hd
  have hc := notMem_of_recordReturn hd
  have hd' := disciplined_of_recordReturn hd
  refine kept_recordReturn ?_
  split at hd'
  · exact .refl e
  · exact .refl e
  · exact keeps_enterFrame (fun _ h => adds_viewAnswer h) (fun _ h e _ => keeps_viewAnswer h e) e hc hi hd'

theorem rt_setContextOpaque (e : Engine) (c d : String) (o : Option Nat) :
    (e.setContextOpaque c o).rt d = if d = c then { handler := (e.rt c).handler, ctxOpaque := o } else e.rt d := rfl

/-- Setting the context of another contract and putting it back keeps everything, if the call between does. -/
theorem keeps_aroundCall {self : Frame} {contract name : String} {call : String → Engine → HostRes × Engine}
    (hc : ∀ src e, KeepsFrames C (call src) e) (e : Engine) : KeepsFrames C (aroundCall C self contract name call) e := by
  intro hi hd
  unfold aroundCall at hd ⊢
  split
  · exact .refl e
  · rename_i h1
    rw [if_neg h1] at hd
    split
    · exact .refl e
    · rename_i h2
      rw [if_neg h2] at hd
      split
      · exact .refl e
      · rename_i src hsrc
        rw [hsrc] at hd
        dsimp only at hd
        have hhandler : ∀ c, ((e.setContextOpaque contract (some self.ctx)).rt c).handler = (e.rt c).handler := by
          intro c
          by_cases hcc : c = contract <;> simp [Engine.setContextOpaque, hcc]
        have hi' : Installed (e.setContextOpaque contract (some self.ctx)) :=
          ⟨fun f hf => (hhandler _).trans (hi.frames f hf), fun c hcs => (hhandler c).trans (hi.free c hcs)⟩
        have hk := hc src _ hi' hd
        refine ⟨funext fun c => ?_, hk.stack, hk.sound, hk.gas⟩
        rw [rt_setContextOpaque, hk.rt, rt_setContextOpaque, rt_setContextOpaque]
        by_cases hcc : c = contract
        · rw [if_pos hcc, if_pos rfl, hcc]
        · rw [if_neg hcc, if_neg hcc]

theorem keeps_callContractMethodFrame (n : Nat) (contract src method : String) (params : Json) (e : Engine) :
    KeepsFrames C (callContractMethodFrame Γ C n contract src method params) e := by
  induction n generalizing contract src method params e with
  | zero => exact fun _ _ => kept_recordReturn (.refl e)
  | succ n ih =>
    intro hi hd
    have hc := notMem_of_recordReturn hd
    have hd' := disciplined_of_recordReturn hd
    refine kept_recordReturn ?_
    split at hd'
    · exact .refl e
    · refine keeps_enterFrame (fun self h e => ?_) (fun self h e _ => ?_) e hc hi hd'
      · split
        · exact (prefix_chargeHost _ e).trans (adds_aroundCall (fun _ => adds_callContractMethodFrame _ _ _ _ _) _)
        · exact adds_aroundCall (fun _ => adds_callContractViewFrame _ _ _ _ _) e
        · exact prefix_chargeHost _ e
      · intro hi hd
        split at hd
        · have hcharge := kept_chargeHost fun ev hev => hd ev ((adds_aroundCall
            (fun _ => adds_callContractMethodFrame _ _ _ _ _) _).subset hev)
          exact hcharge.trans (keeps_aroundCall (fun _ e => ih _ _ _ _ e) _ (hcharge.installed hi) hd)
        · exact keeps_aroundCall (fun _ e => keeps_callContractViewFrame _ _ _ _ _ e) e hi hd
        · exact kept_chargeHost hd

/-- A call of a contract's method from outside, with any tree of calls below it: if no contract is called while it is on the stack,
and gas is charged only within the limit, then every return of a call leaves the callee's handler, its context and the stack as
the call found them, every method runs under the handler with its own context, and at most one interrupt step is used past the
limit. -/
theorem calls_disciplined (n : Nat) (contract src method : String) (params : Json) (e : Engine)
    (hh : ∀ c, (e.rt c).handler = none) (hs : e.stack = []) (hev : e.events = []) (hg : e.gasUsed ≤ C.limit)
    (hd : ∀ ev ∈ (callContractMethodFrame Γ C n contract src method params e).2.events, ev.Disciplined C) :
    (∀ ev ∈ (callContractMethodFrame Γ C n contract src method params e).2.events, ev.Sound) ∧
    (callContractMethodFrame Γ C n contract src method params e).2.gasUsed ≤ C.limit + max 0 C.step := by
  have hi : Installed e := by
    constructor
    · intro f hf
      rw [hs] at hf
      simp at hf
    · exact fun c _ => hh c
  have hk := keeps_callContractMethodFrame n contract src method params e hi hd
  refine ⟨hk.sound ?_, hk.gas ?_⟩
  · rw [hev]
    simp
  · have hmax : 0 ≤ max 0 C.step := le_max_left 0 C.step
    unfold Calls.bound
    omega

/-! ## Two contracts -/

namespace Sample

/-- The method `m` calls `n` of the contract `B` and goes on; `n` calls back the method `r`, the method `p` does not. -/
def scripts : String → Option Script
  | "m" => some (.call 0 (.callMethod "B" "n" .null) fun _ _ => .step 0 (.done "" 0))
  | "l" => some (.call 0 (.callMethod "B" "p" .null) fun _ _ => .step 0 (.done "" 0))
  | "n" => some (.call 0 (.callMethod "A" "r" .null) fun _ _ => .done "" 0)
  | "p" => some (.step 0 (.done "" 0))
  | "r" => some (.done "" 0)
  | _ => none

/-- The calls of the two contracts: an interrupt step costs 10, a call 5. -/
def calls : Calls where
  src c := some c
  answer _ := .undefined
  cost _ := 5
  paramsOk _ := true
  step := 10
  limit := 1000

end Sample

/-- A contract that is called back goes on without an interrupt handler. -/
theorem calls_disciplined_false :
    ¬ ∀ ev ∈ (callContractMethodFrame (Sample.ctx [] Sample.scripts) Sample.calls maxCallDepth "A" "A" "m" .null {}).2.events,
      ev.Sound := by
  intro h
  have hpoll : Event.poll ⟨0, "A", false⟩ none 10 ∈
      (callContractMethodFrame (Sample.ctx [] Sample.scripts) Sample.calls maxCallDepth "A" "A" "m" .null {}).2.events := by
    decide +kernel
  have hsound := h _ hpoll rfl
  simp at hsound

/-- A method of one contract that calls one of the other. -/
theorem calls_disciplined_sample :
    (∀ ev ∈ (callContractMethodFrame (Sample.ctx [] Sample.scripts) Sample.calls maxCallDepth "A" "A" "l" .null {}).2.events,
      ev.Sound) ∧
    (callContractMethodFrame (Sample.ctx [] Sample.scripts) Sample.calls maxCallDepth "A" "A" "l" .null {}).2.gasUsed ≤
      Sample.calls.limit + max 0 Sample.calls.step :=
  calls_disciplined maxCallDepth "A" "A" "l" .null {} (fun _ => rfl) rfl rfl (by decide) (by decide +kernel)

end Grain
