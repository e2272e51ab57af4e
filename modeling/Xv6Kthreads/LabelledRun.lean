import Mathlib.Algebra.GroupWithZero.Nat
import Mathlib.Algebra.Ring.Int.Defs
import Mathlib.Logic.Relation

/-!
# Runs of labelled step functions

A concurrent program is given by a partial step function: a label names who
acts and which nondeterministic choices are made, and the function computes
the next state, or `none` when the label is not enabled.  This file fixes the
notions of run used for every such program.  A *guarded* run takes only steps
whose label meets a condition on the state before the step.
-/

namespace Xv6Kthreads

namespace LabelledRun

variable {State Label : Type*}

/-- One enabled step whose label meets `guard` in the state before it. -/
def GuardedStep (step : State → Label → Option State)
    (guard : State → Label → Prop) (before after : State) : Prop :=
  ∃ label, guard before label ∧ step before label = some after

/-- States joined by a run all of whose steps meet `guard`. -/
def GuardedReaches (step : State → Label → Option State)
    (guard : State → Label → Prop) : State → State → Prop :=
  Relation.ReflTransGen (GuardedStep step guard)

def Reaches (step : State → Label → Option State) : State → State → Prop :=
  GuardedReaches step fun _ _ => True

def runLabels (step : State → Label → Option State) : State → List Label → Option State
  | state, [] => some state
  | state, label :: labels =>
    match step state label with
    | none => none
    | some next => runLabels step next labels

variable {step : State → Label → Option State}
variable {guard : State → Label → Prop}

/-- A property that every guarded step preserves holds along every guarded
run. -/
theorem GuardedReaches.invariant {first last : State}
    (reaches : GuardedReaches step guard first last)
    (invariant : State → Prop)
    (initially : invariant first)
    (preserved : ∀ before label after, invariant before →
      guard before label → step before label = some after → invariant after) :
    invariant last := by
  induction reaches with
  | refl => exact initially
  | tail _ edge ih =>
    obtain ⟨label, allowed, stepTo⟩ := edge
    exact preserved _ label _ ih allowed stepTo

theorem Reaches.invariant {first last : State}
    (reaches : Reaches step first last) (invariant : State → Prop)
    (initially : invariant first)
    (preserved : ∀ before label after, invariant before →
      step before label = some after → invariant after) :
    invariant last :=
  GuardedReaches.invariant reaches invariant initially fun before label after holds _ stepTo =>
      preserved before label after holds stepTo

/-- The step function that refuses labels outside `guard`. -/
def restrict (step : State → Label → Option State)
    (guard : State → Label → Prop) [∀ state, DecidablePred (guard state)]
    (state : State) (label : Label) : Option State :=
  if guard state label then step state label else none

/-- Executing a list of labels that all meet the guard is a guarded run. -/
theorem guardedReaches_of_runLabels [∀ state, DecidablePred (guard state)] {first last : State}
    (labels : List Label) (run : runLabels (restrict step guard) first labels = some last) :
    GuardedReaches step guard first last := by
  induction labels generalizing first with
  | nil =>
    cases run
    exact Relation.ReflTransGen.refl
  | cons label labels ih =>
    simp only [runLabels, restrict] at run
    split at run
    next => simp at run
    next next stepTo =>
      split at stepTo
      next allowed => exact Relation.ReflTransGen.head ⟨label, allowed, stepTo⟩ (ih run)
      next => simp at stepTo

theorem reaches_of_runLabels {first last : State} (labels : List Label)
    (run : runLabels step first labels = some last) : Reaches step first last := by
  have unrestricted : restrict step (fun _ _ => True) = step := by
    funext state label
    exact if_pos trivial
  exact guardedReaches_of_runLabels labels (by rwa [unrestricted])

theorem exists_reaches {first : State} {holds : State → Prop} (labels : List Label)
    (run : ∃ last ∈ runLabels step first labels, holds last) :
    ∃ last, Reaches step first last ∧ holds last := by
  obtain ⟨last, run, holds⟩ := run
  exact ⟨last, reaches_of_runLabels labels run, holds⟩

end LabelledRun

end Xv6Kthreads
