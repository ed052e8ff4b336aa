/-
# Runs of a system that takes one step after another

A step leads from a state by an event to a state.  A run is a list of events, the first
one first, with the state that they lead to.  What holds at the start and is kept by every
step holds after every run (`Run.invariant`); the rule lets the invariant speak about
the events so far.
-/

import Mathlib.Tactic.Common

namespace Trace

variable {σ ε : Type*} {Step : σ → ε → σ → Prop} {s s' s'' : σ} {es es' : List ε} {e : ε}

/-- The events lead from one state to the other. -/
inductive Run (Step : σ → ε → σ → Prop) (s : σ) : List ε → σ → Prop
  | nil : Run Step s [] s
  | concat {es : List ε} {e : ε} {s' s'' : σ} :
      Run Step s es s' → Step s' e s'' → Run Step s (es ++ [e]) s''

/-- **Invariants.**  What holds at the start and is kept by every step holds at the end. -/
theorem Run.invariant {Inv : List ε → σ → Prop} (h : Run Step s es s') (start : Inv [] s)
    (step : ∀ es s' e s'', Run Step s es s' → Inv es s' → Step s' e s'' → Inv (es ++ [e]) s'') :
    Inv es s' := by
  induction h with
  | nil => exact start
  | concat hrun hstep ih => exact step _ _ _ _ hrun ih hstep

/-- What every step of one system is in another is a run of the other. -/
theorem Run.mono {Step' : σ → ε → σ → Prop} (h : Run Step s es s')
    (hstep : ∀ s e s', Step s e s' → Step' s e s') : Run Step' s es s' := by
  induction h with
  | nil => exact .nil
  | concat _ h ih => exact ih.concat (hstep _ _ _ h)

/-- One step is a run with one event. -/
theorem Run.single (h : Step s e s') : Run Step s [e] s' := .concat .nil h

/-- Runs that meet can be put together, and their events one after the other. -/
theorem Run.append (h : Run Step s es s') (h' : Run Step s' es' s'') :
    Run Step s (es ++ es') s'' := by
  induction h' with
  | nil => rwa [List.append_nil]
  | concat _ hstep ih => exact (List.append_assoc ..) ▸ .concat ih hstep

/-- A run that starts with a step: though runs are built from their last step, they can be taken
apart at the first. -/
theorem Run.cons (h : Step s e s') (h' : Run Step s' es s'') : Run Step s (e :: es) s'' :=
  (Run.single h).append h'

end Trace
