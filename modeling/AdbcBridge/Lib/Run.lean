import Mathlib.Order.Basic

/-!
# Runs of a labelled transition system

A run from a state is the list of its labels together with the state it has
reached.  A property of trace and state that holds at the start and is kept by
every step from a state the run can be in holds at the end of every run.
-/

namespace AdbcBridge.Lib

variable {σ ε : Type*}

inductive Run (step : σ → ε → σ → Prop) (start : σ) : List ε → σ → Prop
  | nil : Run step start [] start
  | snoc {trace : List ε} {s s' : σ} {e : ε} (run : Run step start trace s)
      (h : step s e s') : Run step start (trace ++ [e]) s'

namespace Run

variable {step : σ → ε → σ → Prop} {start : σ}

/-- The invariant rule, over the trace and the state. -/
theorem invariant {I : List ε → σ → Prop} (hstart : I [] start)
    (hstep : ∀ trace s e s', I trace s → step s e s' → I (trace ++ [e]) s')
    {trace : List ε} {s : σ} (run : Run step start trace s) : I trace s := by
  induction run with
  | nil => exact hstart
  | snoc _ h ih => exact hstep _ _ _ _ ih h

/-- The invariant rule for a property of the state alone. -/
theorem state_invariant {I : σ → Prop} (hstart : I start)
    (hstep : ∀ s e s', I s → step s e s' → I s')
    {trace : List ε} {s : σ} (run : Run step start trace s) : I s :=
  run.invariant (I := fun _ s => I s) hstart fun _ s e s' => hstep s e s'

end Run

end AdbcBridge.Lib
