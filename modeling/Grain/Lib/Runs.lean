import Mathlib.Init

/-!
# Runs

A machine takes steps that are possible in some states and not in others. A run is a list of labels; what every step keeps, where
the steps meet a condition in the states in which they are taken, holds at the end of the run.
-/

namespace Runs

variable {σ ℓ : Type} (step : σ → ℓ → Option σ)

/-- The state after a run, if every step of it is possible. -/
def exec (s : σ) : List ℓ → Option σ
  | [] => some s
  | l :: ls => (step s l).bind fun s' => exec s' ls

/-- Every step meets a condition in the state in which it is taken. -/
def Along (C : σ → ℓ → Prop) (s : σ) : List ℓ → Prop
  | [] => True
  | l :: ls => C s l ∧ ∀ s', step s l = some s' → Along C s' ls

variable {step}

theorem exec_cons {s s' t : σ} {l : ℓ} {ls : List ℓ} (hl : step s l = some s') (hls : exec step s' ls = some t) :
    exec step s (l :: ls) = some t := by
  rw [exec, hl]
  exact hls

theorem along_append {C : σ → ℓ → Prop} {s s' : σ} {ls ms : List ℓ} (h : Along step C s (ls ++ ms))
    (hls : exec step s ls = some s') : Along step C s ls ∧ Along step C s' ms := by
  induction ls generalizing s with
  | nil =>
    cases hls
    exact ⟨trivial, h⟩
  | cons l ls ih =>
    obtain ⟨t, hl, hrest⟩ := Option.bind_eq_some_iff.1 hls
    obtain ⟨h1, h2⟩ := ih (h.2 t hl) hrest
    refine ⟨⟨h.1, ?_⟩, h2⟩
    intro t' hl'
    rw [hl] at hl'
    cases hl'
    exact h1

/-- What every step that meets the condition keeps holds at the end of a run. -/
theorem exec_keeps {C : σ → ℓ → Prop} {P : σ → Prop} (hstep : ∀ s l s', P s → C s l → step s l = some s' → P s') {s s' : σ}
    {ls : List ℓ} (hs : P s) (h : Along step C s ls) (hls : exec step s ls = some s') : P s' := by
  induction ls generalizing s with
  | nil =>
    cases hls
    exact hs
  | cons l ls ih =>
    obtain ⟨t, hl, hrest⟩ := Option.bind_eq_some_iff.1 hls
    exact ih (hstep s l t hs h.1 hl) (h.2 t hl) hrest

theorem along_true (s : σ) (ls : List ℓ) : Along step (fun _ _ => True) s ls := by
  induction ls generalizing s with
  | nil => exact trivial
  | cons l ls ih => exact ⟨trivial, fun s' _ => ih s'⟩

/-- What every step keeps holds at the end of a run. -/
theorem exec_invariant {P : σ → Prop} (hstep : ∀ s l s', P s → step s l = some s' → P s') {s s' : σ} {ls : List ℓ} (hs : P s)
    (hls : exec step s ls = some s') : P s' :=
  exec_keeps (fun s l s' h _ => hstep s l s' h) hs (along_true s ls) hls

end Runs
