import Xv6Kthreads.KernelQueues

/-!
# Scheduling sections

This file computes, for each section of the scheduler, of `sleep` and of the
calls that wake threads, the change of thread statuses.  None of them touches
a mutex queue, and a thread that waits in one keeps waiting there.
-/

namespace Xv6Kthreads

open Function

namespace Kernel

variable {Cpu : Type*}

theorem Status.QueuedOn.unique {status : Status Cpu} {first second : MutexId}
    (onFirst : status.QueuedOn first) (onSecond : status.QueuedOn second) :
    first = second := by
  cases onFirst <;> cases onSecond <;> rfl

/-- A waiting thread that does not run is blocked at its resumption point, or
has been preempted before it could block. -/
theorem Status.QueuedOn.off_cpu {status : Status Cpu} {index : MutexId}
    (queued : status.QueuedOn index) (notRunning : status.state ≠ .running) :
    ∃ location, status.saved = some location ∧ ((status = .blocked location ∧
          location ≠ .lockQueued index) ∨
        status = .runnable location) := by
  cases queued with
  | lock | yieldlock => exact ⟨_, rfl, Or.inl ⟨rfl, by simp⟩⟩
  | onCpu cpu => exact absurd rfl notRunning
  | preempted => exact ⟨_, rfl, Or.inr rfl⟩

/-- The change of statuses and queues by one section.  The last field holds
when the thread taken out of a queue, if there is one, is blocked. -/
structure Effect (kernel after : Kernel Cpu) (status changed : Slot → Status Cpu)
    (waiters updated : MutexId → List QueueEntry) (takesBlocked : Prop) : Prop where
  view : View after changed
  queues : Queues after changed updated
  tame : ∀ slot, (status slot).Tame (changed slot)
  procs : ∀ process, (after.proc process).state = (kernel.proc process).state
  incarnations : ∀ slot, (after.thread slot).incarnation = (kernel.thread slot).incarnation
  attached : takesBlocked → Attached status waiters → Attached changed updated

variable {new : Status Cpu}

section QuietSections

variable {kernel after : Kernel Cpu} {status changed : Slot → Status Cpu}
variable {waiters : MutexId → List QueueEntry} {takesBlocked : Prop}

/-- The effect of a section that changes no mutex and makes only quiet
changes. -/
theorem Effect.of_quiet (queues : Queues kernel status waiters) (view : View after changed)
    (quiet : ∀ slot, (status slot).Quiet (changed slot)) (mutexes : after.mutex = kernel.mutex)
    (procs : ∀ process, (after.proc process).state = (kernel.proc process).state)
    (incarnations : ∀ slot, (after.thread slot).incarnation = (kernel.thread slot).incarnation) :
    Effect kernel after status changed waiters waiters takesBlocked where
  view := view
  queues := queues.quiet quiet mutexes incarnations
  tame slot := .quiet (quiet slot)
  procs := procs
  incarnations := incarnations
  attached _ attached := attached.quiet quiet

theorem quiet_update {slot : Slot} (quiet : (status slot).Quiet new) (other : Slot) :
    (status other).Quiet (update status slot new other) := by
  rcases eq_or_ne other slot with rfl | same
  · simpa using quiet
  · rw [update_of_ne same]
    exact .refl _

def Status.wake : Status Cpu → Status Cpu
  | .sleeping location => .runnable location
  | status => status

theorem Status.wake_quiet (status : Status Cpu) : status.Quiet status.wake := by
  cases status <;> first | exact .refl _ | exact .wake _

theorem View.wakeAll (view : View kernel status) (woken : Slot → Prop) [DecidablePred woken]
    (sleeping : ∀ slot, woken slot → (kernel.thread slot).state = .sleeping)
    (states : ∀ slot, (after.thread slot).state =
      if woken slot then .runnable else (kernel.thread slot).state)
    (contexts : ∀ slot, (after.thread slot).context = (kernel.thread slot).context)
    (running : after.running = kernel.running) :
    View after fun slot =>
      if woken slot then (status slot).wake else status slot where
  state_eq slot := by
    rw [states]
    split
    next isWoken =>
      have asleep := sleeping slot isWoken
      rw [view.state_eq] at asleep
      cases current : status slot <;>
        simp [current, Status.state, Status.wake] at asleep ⊢
    next => exact view.state_eq slot
  context_eq slot location saved := by
    rw [contexts]
    apply view.context_eq slot location
    split at saved
    next =>
      cases current : status slot <;>
        simp_all [Status.saved, Status.wake]
    next => exact saved
  running_iff cpu slot location := by
    rw [running, view.running_iff]
    split
    next => cases current : status slot <;> simp [Status.place, Status.wake]
    next => rfl

theorem wakeup1_effect (view : View kernel status)
    (queues : Queues kernel status waiters) (chan : Option Chan) :
    ∃ changed, Effect kernel (kernel.wakeup1 chan) status changed waiters
      waiters takesBlocked := by
  refine ⟨_, Effect.of_quiet queues (view.wakeAll
    (fun slot => (kernel.thread slot).state = .sleeping ∧
      (kernel.thread slot).chan = chan) ?_ ?_ ?_ rfl) ?_ rfl ?_ ?_⟩
  · exact fun slot woken => woken.1
  · intro slot
    simp only [wakeup1]
    split <;> rfl
  · intro slot
    simp only [wakeup1]
    split <;> rfl
  · intro slot
    split
    · exact Status.wake_quiet _
    · exact .refl _
  · exact fun process => rfl
  · intro slot
    simp only [wakeup1]
    split <;> rfl

theorem kill_effect (view : View kernel status)
    (queues : Queues kernel status waiters) (pid : Int) :
    ∃ changed, Effect kernel (kernel.kill pid) status changed waiters
      waiters takesBlocked := by
  unfold kill
  split
  next =>
    exact ⟨status, Effect.of_quiet queues view (fun slot => .refl _) rfl
      (fun process => rfl) (fun slot => rfl)⟩
  next process _ =>
    refine ⟨_, Effect.of_quiet queues (view.wakeAll (fun slot => slot.1 = process ∧
        (kernel.thread slot).state = .sleeping) ?_ ?_ ?_ rfl) ?_ rfl ?_ ?_⟩
    · exact fun slot woken => woken.2
    · intro slot
      dsimp only
      split <;> rfl
    · intro slot
      dsimp only
      split <;> rfl
    · intro slot
      split
      · exact Status.wake_quiet _
      · exact .refl _
    · exact kernel.setKilled_proc_state process
    · intro slot
      dsimp only
      split <;> rfl

end QuietSections

theorem nextRunnable_state {kernel : Kernel Cpu} {slot : Slot}
    {position : Nat} (found : kernel.nextRunnable position = some slot) :
    (kernel.thread slot).state = .runnable := by
  have eligible := List.find?_some found
  simp only [Kernel.eligible, Bool.and_eq_true, beq_iff_eq] at eligible
  exact eligible.2

section ProcessorSections

variable [DecidableEq Cpu]
variable {kernel after : Kernel Cpu} {status : Slot → Status Cpu}
variable {waiters : MutexId → List QueueEntry} {takesBlocked : Prop}
variable {cpu : Cpu} {slot : Slot}

theorem scheduler_effect (view : View kernel status) (queues : Queues kernel status waiters)
    (result : kernel.scheduler cpu = some after) :
    ∃ changed, Effect kernel after status changed waiters waiters
      takesBlocked := by
  unfold scheduler at result
  split at result
  · simp at result
  rename_i idle
  split at result
  next =>
    cases result
    exact ⟨status, Effect.of_quiet queues (view.congr (fun slot => rfl) (fun slot => rfl) rfl)
      (fun slot => .refl _) rfl (fun process => rfl) (fun slot => rfl)⟩
  next found slot foundEq =>
    obtain ⟨location, runnable⟩ := view.status_of_runnable (nextRunnable_state foundEq)
    have context : (kernel.thread slot).context = some location :=
      view.context_eq slot location (by simp [runnable, Status.saved])
    simp only [context] at result
    cases result
    refine ⟨_, Effect.of_quiet queues (view.enter idle ?_ rfl rfl ?_ ?_ rfl)
      (quiet_update (by rw [runnable]; exact .dispatch cpu location)) rfl
      (fun process => rfl) ?_⟩
    · rw [runnable]
      rfl
    · intro other differs
      simp [goTo, setState, setThread, update_of_ne differs]
    · simp [goTo, setState, setThread, Status.state]
    · exact fun other => by simp

variable {location : Location}

theorem scheduler_takes_idle (view : View kernel status)
    (result : kernel.scheduler cpu = some after) (taken : after.running cpu = some (slot, location))
    (other : Cpu) (place : Location) : kernel.running other ≠ some (slot, place) := by
  unfold scheduler at result
  split at result
  · simp at result
  rename_i idle
  split at result
  next =>
    cases result
    simp [idle] at taken
  next found foundEq =>
    split at result <;> cases result
    simp only [goTo, update_self, Option.some.injEq, Prod.mk.injEq] at taken
    obtain ⟨location, runnable⟩ := view.status_of_runnable (nextRunnable_state foundEq)
    rw [taken.1] at runnable
    intro runs
    rw [view.running_iff, runnable] at runs
    simp [Status.place] at runs

variable {target : Location}

section

variable (view : View kernel status)

include view

theorem View.leaveTo {thread : Thread} (runs : kernel.running cpu = some (slot, location))
    (offCpu : new.place = none) (saved : ∀ place, new.saved = some place → place = target)
    (stateEq : thread.state = new.state) :
    View ((kernel.setThread slot thread).sched cpu slot target) (update status slot new) := by
  apply view.leave runs offCpu
  · intro other differs
    simp [sched, setThread, update_of_ne differs]
  · simpa [sched, setThread] using stateEq
  · intro place savedThere
    rw [saved place savedThere]
    simp [sched, setThread]
  · rfl

section

variable (queues : Queues kernel status waiters)
include queues

/-- A section that ends in `sched` and makes a quiet change. -/
theorem sched_effect {thread : Thread} (runs : kernel.running cpu = some (slot, location))
    (offCpu : new.place = none) (saved : new.saved = some target) (quiet : (status slot).Quiet new)
    (stateEq : thread.state = new.state)
    (incarnation : thread.incarnation = (kernel.thread slot).incarnation) :
    Effect kernel ((kernel.setThread slot thread).sched cpu slot target)
      status (update status slot new) waiters waiters
        takesBlocked := by
  refine Effect.of_quiet queues (view.leaveTo runs offCpu ?_ stateEq)
    (quiet_update quiet) rfl (fun process => rfl) ?_
  · intro place savedThere
    rw [saved] at savedThere
    exact (Option.some.inj savedThere).symm
  · intro other
    rw [sched_incarnation]
    exact kernel.setThread_incarnation incarnation other

theorem yield_effect (result : kernel.yield cpu = some after) :
    ∃ changed, Effect kernel after status changed waiters waiters
      takesBlocked := by
  unfold yield at result
  split at result
  next => simp at result
  next slot location runs =>
    split at result <;> cases result
    rename_i running
    rcases view.status_of_running runs with onCpu | ⟨lastExit, -⟩
    · exact ⟨_, sched_effect view queues runs rfl rfl
        (by rw [onCpu]; exact .preempt cpu location) rfl rfl⟩
    · rw [view.state_eq, lastExit] at running
      simp [Status.state] at running

/-- Falling asleep at any of the places from which `sleep` is called. -/
theorem fallAsleep_effect (onCpu : status slot = .onCpu cpu location) (plain : location.Plain)
    (chan : Chan) (call : SleepCall) :
    Effect kernel (kernel.fallAsleep cpu slot chan call) status
      (update status slot (.sleeping (.asleep call))) waiters waiters
        takesBlocked := by
  have runs : kernel.running cpu = some (slot, location) := by
    rw [view.running_iff, onCpu]
    rfl
  exact sched_effect view queues runs rfl rfl
    (by rw [onCpu]; exact .fallAsleep cpu call plain) rfl rfl

theorem sleep_effect {chan : Chan}
    (alive : ∀ slot location, kernel.running cpu = some (slot, location) →
      (kernel.thread slot).state ≠ .zombie) (result : kernel.sleep cpu chan = some after) :
    ∃ changed, Effect kernel after status changed waiters waiters
      takesBlocked := by
  unfold sleep at result
  split at result <;> cases result
  next slot runs =>
    exact ⟨_, fallAsleep_effect view queues
      (view.onCpu_of_running runs (by simp)) trivial chan .other⟩
  next slot runs =>
    rcases view.status_of_running runs with onCpu | ⟨lastExit, -⟩
    · exact ⟨_, fallAsleep_effect view queues onCpu trivial chan .exiting⟩
    · exact absurd (by simp [view.state_eq, lastExit, Status.state]) (alive slot _ runs)

/-- A section after which its thread goes on at another plain place. -/
theorem goTo_effect (onCpu : status slot = .onCpu cpu location) (plain : location.Plain)
    (targetPlain : target.Plain) :
    Effect kernel (kernel.goTo cpu slot target) status
      (update status slot (.onCpu cpu target)) waiters waiters
        takesBlocked := by
  refine Effect.of_quiet queues ?_
    (quiet_update (by rw [onCpu]; exact .move cpu plain targetPlain)) rfl
    (fun process => rfl) (fun slot => rfl)
  exact view.move onCpu (fun other => rfl) (fun other _ => rfl) rfl

theorem sleepReturn_effect (result : kernel.sleepReturn cpu = some after) :
    ∃ changed, Effect kernel after status changed waiters waiters
      takesBlocked := by
  unfold sleepReturn at result
  split at result <;> cases result
  rename_i slot call runs
  have onCpu := view.onCpu_of_running runs (by simp)
  refine ⟨_, Effect.of_quiet queues (view.move onCpu ?_ ?_ rfl) (quiet_update (by
      rw [onCpu]
      exact .move cpu trivial call.resume_plain))
    rfl (fun process => rfl) ?_⟩
  · intro other
    rcases eq_or_ne other slot with rfl | same
    · simp [goTo, setThread]
    · simp [goTo, setThread, update_of_ne same]
  · intro other differs
    simp [goTo, setThread, update_of_ne differs]
  · exact fun other => by simp

theorem lockBlock_effect (result : kernel.lockBlock cpu = some after) :
    ∃ changed, Effect kernel after status changed waiters waiters
      takesBlocked := by
  unfold lockBlock at result
  split at result <;> cases result
  next slot index runs =>
    have onCpu := view.onCpu_of_running runs (by simp)
    exact ⟨_, sched_effect view queues runs rfl rfl (by rw [onCpu]; exact .block cpu index) rfl rfl⟩

theorem yieldlock_effect {first second : MutexId}
    (result : kernel.yieldlock cpu first second = some after) :
    ∃ changed, Effect kernel after status changed waiters waiters
      takesBlocked := by
  unfold yieldlock at result
  split at result
  next slot runs =>
    have onCpu := view.onCpu_of_running runs (by simp)
    split at result <;> cases result
    next => exact ⟨_, goTo_effect view queues onCpu trivial trivial⟩
    next =>
      exact ⟨status, Effect.of_quiet queues view (fun slot => .refl _) rfl
        (fun process => rfl) (fun slot => rfl)⟩
  next => simp at result

theorem yieldlockReturn_effect (result : kernel.yieldlockReturn cpu = some after) :
    ∃ changed, Effect kernel after status changed waiters waiters
      takesBlocked := by
  unfold yieldlockReturn at result
  split at result <;> cases result
  next slot index runs =>
    exact ⟨_, goTo_effect view queues (view.onCpu_of_running runs (by simp)) trivial trivial⟩

end

end

end ProcessorSections

end Kernel

end Xv6Kthreads
