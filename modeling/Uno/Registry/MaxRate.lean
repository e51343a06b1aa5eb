import Uno.Core.Time
import Mathlib.Data.Int.Notation
import Mathlib.Data.List.Basic
import Mathlib.Tactic.Common

/-!
# The rate limiter

`max_rate(seconds)` keeps the time of the last call in an attribute of the object, whether or not it executed the
function, and skips a call when at least `seconds` have passed since the last one. So a first call is skipped unless it
comes right after the epoch, and of any two calls in a row the second does the opposite of what it should: the
decorator limits the rate exactly of the sequences that have no second call (`rateLimits_iff`).
-/

namespace Uno

/-- The difference of two timestamps, in microseconds. -/
def Timestamp.subtract (t u : Timestamp) : ℤ := t.micros - u.micros

namespace MaxRate

/-- The attribute of the decorated object, and the object itself. -/
structure Decorated (σ : Type) where
  lastCallTs : Option Timestamp
  self : σ

section
variable {σ β : Type} (seconds : ℤ) (epoch : Timestamp) (default : β)

/-- `_wrapped`, called at `now`. -/
def maxRate (wrapped : σ → β × σ) (now : Timestamp) (s : Decorated σ) : β × Decorated σ :=
  let lastCallTs := s.lastCallTs.getD epoch
  if now.subtract lastCallTs ≥ seconds * Timestamp.microsPerSecond then (default, ⟨some now, s.self⟩)
  else ((wrapped s.self).1, ⟨some now, (wrapped s.self).2⟩)

/-- Calls at the given times of a function that may depend on the time. -/
def calls (wrapped : Timestamp → σ → β × σ) (s : Decorated σ) (times : List Timestamp) : Decorated σ :=
  times.foldl (fun s now => (maxRate seconds epoch default (wrapped now) now s).2) s

end

/-! ### What is executed -/

/-- The calls at the given times, each with whether the function is executed. -/
def executions (seconds : ℤ) (epoch : Timestamp) : Option Timestamp → List Timestamp → List (Timestamp × Bool)
  | _, [] => []
  | lastCallTs, now :: rest =>
    let (executed, s) := maxRate seconds epoch false (fun self => (true, self)) now ⟨lastCallTs, ()⟩
    (now, executed) :: executions seconds epoch s.lastCallTs rest

section
variable {seconds : ℤ} {epoch : Timestamp}

theorem executions_cons (lastCallTs : Option Timestamp) (now : Timestamp) (rest : List Timestamp) :
    executions seconds epoch lastCallTs (now :: rest) =
      (now, decide (now.subtract (lastCallTs.getD epoch) < seconds * Timestamp.microsPerSecond)) ::
        executions seconds epoch (some now) rest := by
  by_cases hskip : now.subtract (lastCallTs.getD epoch) ≥ seconds * Timestamp.microsPerSecond
  · simp only [executions, maxRate, if_pos hskip, decide_eq_false (Int.not_lt.mpr hskip)]
  · simp only [executions, maxRate, if_neg hskip, decide_eq_true (Int.not_le.mp hskip)]

theorem calls_self {σ β : Type} {default : β} {wrapped : Timestamp → σ → β × σ} (s : Decorated σ)
    (times : List Timestamp) :
    (calls seconds epoch default wrapped s times).self =
      ((executions seconds epoch s.lastCallTs times).filter Prod.snd).foldl
        (fun self call => (wrapped call.1 self).2) s.self := by
  induction times generalizing s with
  | nil => rfl
  | cons now rest ih =>
    rw [calls, List.foldl_cons, ← calls, ih, executions_cons, maxRate]
    by_cases hskip : now.subtract (s.lastCallTs.getD epoch) ≥ seconds * Timestamp.microsPerSecond
    · rw [if_pos hskip, List.filter_cons_of_neg (by simpa using hskip)]
    · rw [if_neg hskip, List.filter_cons_of_pos (by simpa using hskip)]
      rfl

end

/-- What a rate limiter promises of the calls it is given, each with whether it is executed. -/
structure RateLimits (seconds : ℤ) (calls : List (Timestamp × Bool)) : Prop where
  first : ∀ call, calls[0]? = some call → call.2 = true
  apart : ∀ (i j : ℕ) (t u : Timestamp), i < j → calls[i]? = some (t, true) → calls[j]? = some (u, true) →
    u.subtract t ≥ seconds * Timestamp.microsPerSecond
  resumes : ∀ (i j : ℕ) (t : Timestamp) (call : Timestamp × Bool), i < j → calls[i]? = some (t, true) → calls[j]? = some call →
    (∀ (k : ℕ) (u : Timestamp), i < k → k < j → calls[k]? ≠ some (u, true)) →
    call.1.subtract t ≥ seconds * Timestamp.microsPerSecond → call.2 = true

theorem rateLimits_executions_iff (seconds : ℤ) (epoch : Timestamp) (times : List Timestamp) :
    RateLimits seconds (executions seconds epoch none times) ↔
      times = [] ∨ ∃ t, times = [t] ∧ t.subtract epoch < seconds * Timestamp.microsPerSecond := by
  match times with
  | [] =>
    refine iff_of_true ⟨?_, ?_, ?_⟩ (.inl rfl)
    · intro call hcall
      cases hcall
    · intro i j t u _ hi
      cases hi
    · intro i j t call _ hi
      cases hi
  | [t] =>
    constructor
    · intro h
      rw [executions_cons] at h
      exact .inr ⟨t, rfl, of_decide_eq_true (h.first _ rfl)⟩
    · rintro (h | ⟨t', h, hlt⟩)
      · cases h
      · obtain rfl := List.singleton_injective h
        -- there is no second call
        rw [executions_cons]
        have hlast : ∀ (call : Timestamp × Bool) (j : ℕ), 0 < j → [call][j]? = none := fun _ j hj =>
          List.getElem?_eq_none (Nat.succ_le_of_lt hj)
        refine ⟨?_, ?_, ?_⟩
        · intro call hcall
          obtain rfl := Option.some.inj hcall
          exact decide_eq_true hlt
        · intro i j t' u hij _ hj
          rw [executions, hlast _ j (by omega)] at hj
          cases hj
        · intro i j t' call hij _ hj
          rw [executions, hlast _ j (by omega)] at hj
          cases hj
  | t :: u :: rest =>
    refine iff_of_false (fun h => ?_) (by simp)
    rw [executions_cons, executions_cons] at h
    have hfirst := h.first _ rfl
    rw [show decide (t.subtract _ < _) = true from hfirst] at h
    by_cases hlt : u.subtract t < seconds * Timestamp.microsPerSecond
    · -- two executions too close to each other
      have hsecond : decide (u.subtract t < seconds * Timestamp.microsPerSecond) = true := decide_eq_true hlt
      have hapart := h.apart 0 1 t u Nat.zero_lt_one rfl (congrArg (fun b => some (u, b)) hsecond)
      omega
    · -- the second call is late enough, and skipped
      have hskipped := h.resumes 0 1 t _ Nat.zero_lt_one rfl rfl (fun k _ hk hk' => by omega) (Int.not_lt.mp hlt)
      exact hlt (of_decide_eq_true hskipped)

/-- A fresh decorator limits the rate of its calls if and only if there is none, or a single one less than `seconds`
after the epoch. Whatever the function does, it is executed for the calls that are reported, in that order. -/
theorem rateLimits_iff (seconds : ℤ) (epoch : Timestamp) (times : List Timestamp) :
    (RateLimits seconds (executions seconds epoch none times) ↔
      times = [] ∨ ∃ t, times = [t] ∧ t.subtract epoch < seconds * Timestamp.microsPerSecond) ∧
      ∀ (σ β : Type) (default : β) (wrapped : Timestamp → σ → β × σ) (self : σ),
        (calls seconds epoch default wrapped ⟨none, self⟩ times).self =
          ((executions seconds epoch none times).filter Prod.snd).foldl (fun self call => (wrapped call.1 self).2) self :=
  ⟨rateLimits_executions_iff seconds epoch times, fun _ _ _ _ self => calls_self ⟨none, self⟩ times⟩

/-- The agent's first sample of the VPN statistics, `max_rate(2)`, is skipped. -/
theorem rateLimits_first_skipped : ¬ ∀ (seconds : ℤ) (epoch : Timestamp) (times : List Timestamp),
    times.Pairwise (fun t u => t.micros ≤ u.micros) → RateLimits seconds (executions seconds epoch none times) := by
  intro h
  have hfirst := (h 2 ⟨0⟩ [⟨3000000⟩] (List.pairwise_singleton _ _)).first _ rfl
  revert hfirst
  decide

end MaxRate

end Uno
