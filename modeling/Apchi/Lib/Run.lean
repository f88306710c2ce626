import Mathlib.Logic.Basic

/-!
# Runs of a labelled transition system

A run takes steps, each of which must be admitted.  What holds at the start and is kept by every
admitted step holds wherever a run leads.
-/

namespace Lib

universe u v

variable {S : Type u} {E : Type v}

/-- The states a run leads to, when only some steps are admitted. -/
inductive Run (step admits : S → E → S → Prop) (start : S) : S → Prop where
  | nil : Run step admits start start
  | snoc {s s' : S} {e : E} (hrun : Run step admits start s) (hadmits : admits s e s')
      (hstep : step s e s') : Run step admits start s'

namespace Run

variable {step admits : S → E → S → Prop} {start s s' : S}

/-- What every admitted step keeps holds along every run. -/
theorem invariant {I : S → Prop} (h : Run step admits start s) (hstart : I start)
    (hstep : ∀ s e s', I s → admits s e s' → step s e s' → I s') : I s := by
  induction h with
  | nil => exact hstart
  | snoc _ hadmits hs ih => exact hstep _ _ _ ih hadmits hs

/-- One run after another. -/
theorem trans (h : Run step admits start s) (h' : Run step admits s s') :
    Run step admits start s' := by
  induction h' with
  | nil => exact h
  | snoc _ hadmits hs ih => exact ih.snoc hadmits hs

/-- What one condition admits, a weaker one admits. -/
theorem mono {admits' : S → E → S → Prop} (h : Run step admits start s)
    (hadmits : ∀ s e s', admits s e s' → admits' s e s') : Run step admits' start s := by
  induction h with
  | nil => exact .nil
  | snoc _ hs hstep ih => exact ih.snoc (hadmits _ _ _ hs) hstep

end Run

/-! ### History

Something kept beside the states of a system, and brought up to date at every step. -/

universe w

variable {H : Type w}

/-- A step of a system with its history. -/
def Recording (step : S → E → S → Prop) (update : H → S → E → S → H) (before : H × S) (event : E)
    (after : H × S) : Prop :=
  step before.2 event after.2 ∧ after.1 = update before.1 before.2 event after.2

/-- A run with its history, its history forgotten. -/
theorem Run.of_recording {step admits : S → E → S → Prop} {update : H → S → E → S → H}
    {start state : H × S}
    (h : Run (Recording step update) (fun before event after => admits before.2 event after.2) start
      state) : Run step admits start.2 state.2 := by
  induction h with
  | nil => exact .nil
  | snoc _ hadmits hstep ih => exact ih.snoc hadmits hstep.1

end Lib
