import Mathlib.Logic.Function.Basic

/-!
# Thread tables and processors

A kernel spreads what a thread is doing over several places: a state field, a
saved context, and the processor that runs it.  While threads are switched in
and out correctly, these agree with a single status for each thread.  This
file states the agreement for any type of statuses and shows how it survives
the elementary changes of which a kernel's sections are made.
-/

namespace Xv6Kthreads

namespace ThreadTable

variable {Cpu Thread Place State Status : Type*}

/-- How a status shows in the tables: the state field, the saved context if it
counts, and the processor with the place where the thread stands. -/
structure Reading (Cpu Place State Status : Type*) where
  state : Status → State
  saved : Status → Option Place
  place : Status → Option (Cpu × Place)

structure View (reading : Reading Cpu Place State Status)
    (state : Thread → State) (context : Thread → Option Place)
    (current : Cpu → Option (Thread × Place)) (status : Thread → Status) : Prop where
  state_eq : ∀ thread, state thread = reading.state (status thread)
  context_eq : ∀ thread place, reading.saved (status thread) = some place →
      context thread = some place
  running_iff : ∀ cpu thread place, current cpu = some (thread, place) ↔
    reading.place (status thread) = some (cpu, place)

namespace View

variable {reading : Reading Cpu Place State Status}
variable {state state' : Thread → State}
variable {context context' : Thread → Option Place}
variable {current current' : Cpu → Option (Thread × Place)}
variable {status changed : Thread → Status}

section

variable (view : View reading state context current status)
include view

theorem cpu_unique {first second : Cpu} {thread : Thread} {firstPlace secondPlace : Place}
    (firstRuns : current first = some (thread, firstPlace))
    (secondRuns : current second = some (thread, secondPlace)) :
    first = second := by
  rw [view.running_iff] at firstRuns secondRuns
  have equal := firstRuns.symm.trans secondRuns
  simp only [Option.some.injEq, Prod.mk.injEq] at equal
  exact equal.1

theorem congr (states : ∀ thread, state' thread = state thread)
    (contexts : ∀ thread, context' thread = context thread) (running : current' = current) :
    View reading state' context' current' status where
  state_eq thread := (states thread).trans (view.state_eq thread)
  context_eq thread place saved := by
    rw [contexts]
    exact view.context_eq thread place saved
  running_iff cpu thread place := by
    rw [running]
    exact view.running_iff cpu thread place

/-- Any number of threads change their status without entering or leaving a
processor. -/
theorem pointwise (running : current' = current)
    (places : ∀ thread, reading.place (changed thread) = reading.place (status thread))
    (states : ∀ thread, state' thread = reading.state (changed thread))
    (contexts : ∀ thread place, reading.saved (changed thread) = some place →
        context' thread = some place) :
    View reading state' context' current' changed where
  state_eq := states
  context_eq := contexts
  running_iff cpu thread place := by
    rw [running, places, view.running_iff]

end

variable [DecidableEq Thread] {thread : Thread} {new : Status}

/-- The status of one thread changes; everything else stays. -/
theorem update (view : View reading state context current status)
    (others : ∀ other, other ≠ thread → state' other = state other ∧ context' other = context other)
    (stateEq : state' thread = reading.state new)
    (contextEq : ∀ place, reading.saved new = some place → context' thread = some place)
    (runningSelf : ∀ cpu place, current' cpu = some (thread, place) ↔
        reading.place new = some (cpu, place))
    (runningOther : ∀ cpu other place, other ≠ thread → (current' cpu = some (other, place) ↔
        current cpu = some (other, place))) :
    View reading state' context' current' (Function.update status thread new) where
  state_eq other := by
    rcases eq_or_ne other thread with rfl | same
    · rw [Function.update_self, stateEq]
    · rw [Function.update_of_ne same, (others other same).1, view.state_eq]
  context_eq other place saved := by
    rcases eq_or_ne other thread with rfl | same
    · rw [Function.update_self] at saved
      exact contextEq place saved
    · rw [Function.update_of_ne same] at saved
      rw [(others other same).2]
      exact view.context_eq other place saved
  running_iff cpu other place := by
    rcases eq_or_ne other thread with rfl | same
    · rw [Function.update_self, runningSelf]
    · rw [Function.update_of_ne same, runningOther cpu other place same, view.running_iff]

/-- A thread off every processor changes its status and stays off. -/
theorem change (view : View reading state context current status)
    (offCpu : reading.place (status thread) = none) (stillOff : reading.place new = none)
    (others : ∀ other, other ≠ thread → state' other = state other ∧ context' other = context other)
    (stateEq : state' thread = reading.state new)
    (contextEq : ∀ place, reading.saved new = some place → context' thread = some place)
    (running : current' = current) :
    View reading state' context' current' (Function.update status thread new) := by
  apply view.update others stateEq contextEq
  · intro cpu place
    rw [running, view.running_iff, offCpu, stillOff]
  · intro cpu other place _
    rw [running]

variable [DecidableEq Cpu] {cpu : Cpu}

section

variable (view : View reading state context current status)
include view

theorem leave {place : Place} (runs : current cpu = some (thread, place))
    (offCpu : reading.place new = none)
    (others : ∀ other, other ≠ thread → state' other = state other ∧ context' other = context other)
    (stateEq : state' thread = reading.state new)
    (contextEq : ∀ place, reading.saved new = some place → context' thread = some place)
    (running : current' = Function.update current cpu none) :
    View reading state' context' current' (Function.update status thread new) := by
  apply view.update others stateEq contextEq
  · intro other spot
    rw [running, offCpu]
    rcases eq_or_ne other cpu with rfl | same
    · simp
    · rw [Function.update_of_ne same]
      simp only [reduceCtorEq, iff_false]
      exact fun otherRuns => same (view.cpu_unique otherRuns runs)
  · intro other item spot differs
    rw [running]
    rcases eq_or_ne other cpu with rfl | same
    · simp [runs, Ne.symm differs]
    · rw [Function.update_of_ne same]

theorem stay {place target : Place} (runs : current cpu = some (thread, place))
    (onCpu : reading.place new = some (cpu, target)) (notSaved : reading.saved new = none)
    (others : ∀ other, other ≠ thread → state' other = state other ∧ context' other = context other)
    (stateEq : state' thread = reading.state new)
    (running : current' = Function.update current cpu (some (thread, target))) :
    View reading state' context' current' (Function.update status thread new) := by
  apply view.update others stateEq
  · simp [notSaved]
  · intro other spot
    rw [running, onCpu]
    rcases eq_or_ne other cpu with rfl | same
    · simp
    · rw [Function.update_of_ne same]
      simp only [Option.some.injEq, Prod.mk.injEq, Ne.symm same, false_and, iff_false]
      exact fun otherRuns => same (view.cpu_unique otherRuns runs)
  · intro other item spot differs
    rw [running]
    rcases eq_or_ne other cpu with rfl | same
    · simp [runs, Ne.symm differs]
    · rw [Function.update_of_ne same]

theorem enter {target : Place} (idle : current cpu = none)
    (offCpu : reading.place (status thread) = none) (onCpu : reading.place new = some (cpu, target))
    (notSaved : reading.saved new = none)
    (others : ∀ other, other ≠ thread → state' other = state other ∧ context' other = context other)
    (stateEq : state' thread = reading.state new)
    (running : current' = Function.update current cpu (some (thread, target))) :
    View reading state' context' current' (Function.update status thread new) := by
  apply view.update others stateEq
  · simp [notSaved]
  · intro other spot
    rw [running, onCpu]
    rcases eq_or_ne other cpu with rfl | same
    · simp
    · rw [Function.update_of_ne same, view.running_iff, offCpu]
      simp [Ne.symm same]
  · intro other item spot differs
    rw [running]
    rcases eq_or_ne other cpu with rfl | same
    · simp [idle, Ne.symm differs]
    · rw [Function.update_of_ne same]

end

end View

end ThreadTable

end Xv6Kthreads
