import Xv6Kthreads.KernelStep
import Xv6Kthreads.ThreadTable

/-!
# One status for each thread

The kernel spreads what is known about a thread over the thread table and the
processors: its state, its saved context, and the processor that runs it.
While the dispatching discipline is intact these agree, and each thread has a
single status.  This file defines the statuses, the agreement of a kernel with
an assignment of statuses, and how the agreement survives the elementary
changes of which the kernel's sections are made.
-/

namespace Xv6Kthreads

namespace Kernel

/-- What a thread is doing.  A thread on a processor is `RUNNING`, except the
last thread of a process that runs `exit` from `kthread_exit`, which is already
a `ZOMBIE`.  A thread under construction may have its context prepared. -/
inductive Status (Cpu : Type*) where
  | onCpu (cpu : Cpu) (location : Location)
  | lastExit (cpu : Cpu)
  | runnable (location : Location)
  | sleeping (location : Location)
  | blocked (location : Location)
  | embryo (prepared : Option Location)
  | zombie
  | unused

namespace Status

variable {Cpu : Type*}

def state : Status Cpu → RunState
  | .onCpu _ _ => .running
  | .lastExit _ => .zombie
  | .runnable _ => .runnable
  | .sleeping _ => .sleeping
  | .blocked _ => .blocked
  | .embryo _ => .embryo
  | .zombie => .zombie
  | .unused => .unused

/-- Where `swtch` resumes a thread that is not on a processor. -/
def saved : Status Cpu → Option Location
  | .runnable location => some location
  | .sleeping location => some location
  | .blocked location => some location
  | .embryo prepared => prepared
  | _ => none

def place : Status Cpu → Option (Cpu × Location)
  | .onCpu cpu location => some (cpu, location)
  | .lastExit cpu => some (cpu, .exiting)
  | _ => none

def location : Status Cpu → Option Location
  | .onCpu _ location => some location
  | .lastExit _ => some .exiting
  | .runnable location => some location
  | .sleeping location => some location
  | .blocked location => some location
  | _ => none

/-- The thread waits in the queue of the mutex: it is blocked there, or it has
queued itself and has not reached the section that blocks it. -/
inductive QueuedOn (index : MutexId) : Status Cpu → Prop where
  | lock : QueuedOn index (.blocked (.lockResumed index))
  | yieldlock : QueuedOn index (.blocked (.yieldlockResumed index))
  | onCpu (cpu : Cpu) : QueuedOn index (.onCpu cpu (.lockQueued index))
  | preempted : QueuedOn index (.runnable (.lockQueued index))

end Status

variable {Cpu : Type*}

def reading : ThreadTable.Reading Cpu Location RunState (Status Cpu) where
  state := Status.state
  saved := Status.saved
  place := Status.place

variable (status : Status Cpu)

@[simp]
theorem reading_state : reading.state status = status.state :=
  rfl

@[simp]
theorem reading_saved : reading.saved status = status.saved :=
  rfl

@[simp]
theorem reading_place : reading.place status = status.place :=
  rfl

abbrev View (kernel : Kernel Cpu) (status : Slot → Status Cpu) : Prop :=
  ThreadTable.View reading (fun slot => (kernel.thread slot).state)
    (fun slot => (kernel.thread slot).context) kernel.running status

namespace View

variable {kernel after : Kernel Cpu} {status : Slot → Status Cpu}

section

variable (view : View kernel status)

include view

theorem state_eq (slot : Slot) : (kernel.thread slot).state = (status slot).state :=
  ThreadTable.View.state_eq view slot

theorem context_eq (slot : Slot)
    (location : Location) (saved : (status slot).saved = some location) :
    (kernel.thread slot).context = some location :=
  ThreadTable.View.context_eq view slot location saved

theorem running_iff (cpu : Cpu) (slot : Slot) (location : Location) :
    kernel.running cpu = some (slot, location) ↔ (status slot).place = some (cpu, location) :=
  ThreadTable.View.running_iff view cpu slot location

section

variable {cpu : Cpu} {slot : Slot} {location : Location}
  (runs : kernel.running cpu = some (slot, location))
include runs

/-- A thread on a processor runs, or it is the zombie that finishes `exit`. -/
theorem status_of_running :
    status slot = .onCpu cpu location ∨ (status slot = .lastExit cpu ∧ location = .exiting) := by
  rw [view.running_iff] at runs
  cases current : status slot <;>
    simp only [current, Status.place, Option.some.injEq, Prod.mk.injEq, reduceCtorEq] at runs
  · exact Or.inl (by rw [runs.1, runs.2])
  · exact Or.inr ⟨by rw [runs.1], runs.2.symm⟩

theorem onCpu_of_running (notExiting : location ≠ .exiting) :
    status slot = .onCpu cpu location := by
  rcases view.status_of_running runs with onCpu | lastExit
  · exact onCpu
  · exact absurd lastExit.2 notExiting

end

theorem status_of_runnable {slot : Slot} (runnable : (kernel.thread slot).state = .runnable) :
    ∃ location, status slot = .runnable location := by
  rw [view.state_eq] at runnable
  cases current : status slot <;> simp [current, Status.state] at runnable
  exact ⟨_, rfl⟩

end

variable [DecidableEq Cpu] {cpu : Cpu} {slot : Slot}

theorem move (view : View kernel status) {location target : Location}
    (onCpu : status slot = .onCpu cpu location)
    (states : ∀ other, (after.thread other).state = (kernel.thread other).state)
    (contexts : ∀ other, other ≠ slot →
      (after.thread other).context = (kernel.thread other).context)
    (running : after.running = Function.update kernel.running cpu (some (slot, target))) :
    View after (Function.update status slot (.onCpu cpu target)) := by
  have runs : kernel.running cpu = some (slot, location) := by
    rw [view.running_iff, onCpu]
    rfl
  apply view.stay runs rfl rfl
  · exact fun other differs => ⟨states other, contexts other differs⟩
  · rw [states, view.state_eq, onCpu]
    rfl
  · exact running

end View

end Kernel

end Xv6Kthreads
