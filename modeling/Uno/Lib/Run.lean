/-!
# Runs of a system

A system takes steps that may fail. `Reaches step ok s₀ s`: some finite sequence of successful steps
leads from `s₀` to `s`, each meeting the condition `ok` on the state before it and its action. What
holds at first and is kept by such steps holds in every state reached (`Reaches.invariant`).
-/

namespace Run

variable {σ α ε : Type}

inductive Reaches (step : σ → α → Except ε σ) (ok : σ → α → Prop) (s₀ : σ) : σ → Prop
  | refl : Reaches step ok s₀ s₀
  | step {s s' : σ} (a : α) (hs : Reaches step ok s₀ s) (hok : ok s a) (hstep : step s a = .ok s') :
      Reaches step ok s₀ s'

variable {step : σ → α → Except ε σ} {ok : σ → α → Prop} {s₀ s : σ}

theorem Reaches.invariant {I : σ → Prop} (hinit : I s₀)
    (hkeep : ∀ s a s', I s → ok s a → step s a = .ok s' → I s') (hs : Reaches step ok s₀ s) : I s := by
  induction hs with
  | refl => exact hinit
  | step a _ hok hstep ih => exact hkeep _ a _ ih hok hstep

theorem Reaches.trans {s' : σ} (hs : Reaches step ok s₀ s) (hs' : Reaches step ok s s') : Reaches step ok s₀ s' := by
  induction hs' with
  | refl => exact hs
  | step a _ hok hstep ih => exact .step a ih hok hstep

end Run
