/-
Runs of a labelled transition system.

`Run step s₀ trace s` says that the labels of `trace`, oldest first, lead from `s₀`
to `s`.  The system is given by its step relation, so a step may be restricted in
any way that depends on the state and the label.

The induction on runs is packaged three times: for a property of states
(`Run.preserves`), for a relation between the trace so far and the state
(`Run.invariant`), and for runs in which each step meets a side condition that is
part of the step relation (`Run.mono` forgets it).
-/
import Mathlib.Data.List.Basic

namespace Runs

variable {State Label : Type}

inductive Run (step : State → Label → State → Prop) (s₀ : State) : List Label → State → Prop
  | nil : Run step s₀ [] s₀
  | snoc {trace : List Label} {s s' : State} {l : Label}
      (run : Run step s₀ trace s) (h : step s l s') : Run step s₀ (trace ++ [l]) s'

namespace Run

variable {step : State → Label → State → Prop} {s₀ : State}

/-- What holds at the start and is kept by every step holds along a run. -/
theorem preserves {P : State → Prop} (h₀ : P s₀)
    (hstep : ∀ s l s', P s → step s l s' → P s') {trace : List Label} {s : State}
    (run : Run step s₀ trace s) : P s := by
  induction run with
  | nil => exact h₀
  | snoc _ h ih => exact hstep _ _ _ ih h

/-- The same for a relation between the trace and the state it leads to. -/
theorem invariant {P : List Label → State → Prop} (h₀ : P [] s₀)
    (hstep : ∀ trace s l s', Run step s₀ trace s → P trace s → step s l s' →
      P (trace ++ [l]) s')
    {trace : List Label} {s : State} (run : Run step s₀ trace s) : P trace s := by
  induction run with
  | nil => exact h₀
  | snoc run h ih => exact hstep _ _ _ _ run ih h

/-- A run of a system is a run of any system with more steps. -/
theorem mono {step' : State → Label → State → Prop}
    (hle : ∀ s l s', step s l s' → step' s l s') {trace : List Label} {s : State}
    (run : Run step s₀ trace s) : Run step' s₀ trace s := by
  induction run with
  | nil => exact nil
  | snoc _ h ih => exact ih.snoc (hle _ _ _ h)

/-- Runs compose. -/
theorem append {trace trace' : List Label} {s s' : State} (run : Run step s₀ trace s)
    (run' : Run step s trace' s') : Run step s₀ (trace ++ trace') s' := by
  induction run' with
  | nil => simpa using run
  | snoc _ h ih => rw [← List.append_assoc]; exact ih.snoc h

end Run

end Runs
