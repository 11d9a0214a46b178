import Mathlib.Data.List.Basic

/-!
Machines whose steps, where they are allowed, are seen as the steps of another machine. A step
of the first may be any number of steps of the second, named by its labels. What holds of one
step holds of the runs that are allowed all along.
-/
namespace Simulation
variable {State Action Abstract Label : Type*}

/-- Every action of the run is allowed where it is taken. -/
def Allowed (step : State → Action → State) (allow : State → Action → Prop) (s : State) :
    List Action → Prop
  | [] => True
  | action :: actions => allow s action ∧ Allowed step allow (step s action) actions

/-- The labels of a run. -/
def trace (step : State → Action → State) (labels : State → Action → List Label) (s : State) :
    List Action → List Label
  | [] => []
  | action :: actions => labels s action ++ trace step labels (step s action) actions

section Runs
variable {step : State → Action → State} {allow : State → Action → Prop}
  {labels : State → Action → List Label}

theorem allowed_append {s : State} {before after : List Action} :
    Allowed step allow s (before ++ after) ↔
      Allowed step allow s before ∧ Allowed step allow (before.foldl step s) after := by
  induction before generalizing s with
  | nil => exact (and_iff_right trivial).symm
  | cons action before ih =>
      rw [List.cons_append, Allowed, Allowed, List.foldl_cons, ih, and_assoc]

/-- What every allowed step keeps, every allowed run keeps. -/
theorem kept {inv : State → Prop} (hstep : ∀ s action, inv s → allow s action →
    inv (step s action)) {s : State} {actions : List Action} (h : inv s)
    (hallowed : Allowed step allow s actions) : inv (actions.foldl step s) := by
  induction actions generalizing s with
  | nil => exact h
  | cons action actions ih => exact ih (hstep s action h hallowed.1) hallowed.2

end Runs

/-- Where it is allowed, a step keeps the invariant and shows as the steps of its labels. -/
structure Simulates (step : State → Action → State) (allow : State → Action → Prop)
    (labels : State → Action → List Label) (act : Abstract → Label → Abstract)
    (observe : State → Abstract) (inv : State → Prop) : Prop where
  keeps : ∀ s action, inv s → allow s action → inv (step s action)
  shows : ∀ s action, inv s → allow s action →
    observe (step s action) = (labels s action).foldl act (observe s)

section Simulates
variable {step : State → Action → State} {allow : State → Action → Prop}
  {labels : State → Action → List Label} {act : Abstract → Label → Abstract}
  {observe : State → Abstract} {inv : State → Prop}

/-- A run shows as the run over its trace. -/
theorem Simulates.run (hsim : Simulates step allow labels act observe inv) {s : State}
    {actions : List Action} (h : inv s) (hallowed : Allowed step allow s actions) :
    observe (actions.foldl step s) = (trace step labels s actions).foldl act (observe s) := by
  induction actions generalizing s with
  | nil => rfl
  | cons action actions ih =>
      rw [List.foldl_cons, ih (hsim.keeps s action h hallowed.1) hallowed.2, trace,
        List.foldl_append, hsim.shows s action h hallowed.1]

end Simulates

end Simulation
