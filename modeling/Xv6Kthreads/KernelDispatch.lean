import Xv6Kthreads.KernelMutexes

/-!
# Runs of the scheduler and the mutex calls

A thread that queues itself on a mutex keeps running until it reaches the
section under `ptable.lock` that blocks it.  If an unlock takes it out of the
queue in between, the thread is marked `RUNNABLE` while a processor runs it,
and its own store of `BLOCKED` then overwrites the wakeup.  This file shows
what holds in the runs in which that does not happen: a thread is on at most
one processor, and a blocked thread can be found in a queue.
-/

namespace Xv6Kthreads

namespace Kernel

open LabelledRun

variable {Cpu : Type*}

/-- The sections of the scheduler, of `sleep`, `wakeup` and `kill`, and of the
mutex calls. -/
def Label.Scheduling : Label Cpu → Prop
  | .scheduler _ => True
  | .yield _ => True
  | .sleep _ _ => True
  | .sleepReturn _ => True
  | .wakeup _ => True
  | .kill _ => True
  | .lockEnter _ _ => True
  | .lockBlock _ => True
  | .lockFinish _ => True
  | .unlock _ _ => True
  | .yieldlock _ _ _ => True
  | .yieldlockSection _ => True
  | .yieldlockUnlockSecond _ => True
  | .yieldlockUnlockFirst _ => True
  | .yieldlockReturn _ => True
  | _ => False

instance (label : Label Cpu) : Decidable label.Scheduling := by
  cases label <;> unfold Label.Scheduling <;> infer_instance

variable (kernel : Kernel Cpu)

/-- The thread that the labelled section puts to sleep from code that is not
embedded or from `exit`. -/
def sleeper : Label Cpu → Option Slot
  | .sleep cpu _ => (kernel.running cpu).map Prod.fst
  | _ => none

def SleepsAlive (label : Label Cpu) : Prop :=
  ∀ slot, kernel.sleeper label = some slot → (kernel.thread slot).state ≠ .zombie

instance (kernel : Kernel Cpu) (label : Label Cpu) : Decidable (kernel.SleepsAlive label) :=
  decidable_of_iff ((kernel.sleeper label).all fun slot =>
      (kernel.thread slot).state != .zombie)
    (by simp [SleepsAlive, Option.all_eq_true])

instance (kernel : Kernel Cpu) (label : Label Cpu) : Decidable (kernel.TakesStopped label) :=
  decidable_of_iff ((kernel.takenEntry label).all fun entry =>
      (kernel.thread entry.slot).state != .running)
    (by simp [TakesStopped, Option.all_eq_true])

instance (kernel : Kernel Cpu) (label : Label Cpu) : Decidable (kernel.TakesBlocked label) :=
  decidable_of_iff ((kernel.takenEntry label).all fun entry =>
      (kernel.thread entry.slot).state == .blocked)
    (by simp [TakesBlocked, Option.all_eq_true])

variable {kernel : Kernel Cpu} {label : Label Cpu}

theorem TakesBlocked.stopped (takesBlocked : kernel.TakesBlocked label) :
    kernel.TakesStopped label := by
  intro entry taken running
  simp [takesBlocked entry taken] at running

/-- No processor runs a thread, every thread that can run stands outside the
mutex calls, and nobody waits for a mutex. -/
structure Quiescent (kernel : Kernel Cpu) : Prop where
  idle : ∀ cpu, kernel.running cpu = none
  states : ∀ slot, (kernel.thread slot).state ∉
      [RunState.running, RunState.blocked, RunState.unblocked]
  contexts : ∀ slot, (kernel.thread slot).state ∈ [RunState.runnable, RunState.sleeping] →
      (kernel.thread slot).context = some .user ∨
        ∃ call, (kernel.thread slot).context = some (.asleep call)
  queues : ∀ index, (kernel.mutex index).Waiting []

def restingStatus (thread : Thread) : Status Cpu :=
  match thread.state with
  | .runnable => .runnable (thread.context.getD .user)
  | .sleeping => .sleeping (thread.context.getD .user)
  | .embryo => .embryo none
  | .zombie => .zombie
  | _ => .unused

section QuiescentStatus

variable {kernel : Kernel Cpu}

theorem Quiescent.view (quiescent : kernel.Quiescent) :
    View kernel fun slot => restingStatus (kernel.thread slot) where
  state_eq slot := by
    have states := quiescent.states slot
    unfold restingStatus
    cases state : (kernel.thread slot).state <;>
      simp [state, Status.state] at states ⊢
  context_eq slot location saved := by
    have contexts := quiescent.contexts slot
    unfold restingStatus at saved
    cases state : (kernel.thread slot).state <;>
      simp only [state, reading_saved, Status.saved, Option.some.injEq, reduceCtorEq] at saved
    all_goals
      subst saved
      rcases contexts (by simp [state]) with context | ⟨call, context⟩ <;>
        simp [context]
  running_iff cpu slot location := by
    rw [quiescent.idle]
    unfold restingStatus
    cases (kernel.thread slot).state <;> simp [Status.place]

theorem Quiescent.queues_nil (quiescent : kernel.Quiescent) (status : Slot → Status Cpu) :
    Queues kernel status fun _ => [] where
  waiting := quiescent.queues
  nodup _ := List.nodup_nil
  queuedOn := by simp
  incarnation := by simp
  unlocked _ _ := rfl
  unused _ _ := rfl

theorem Quiescent.attached (quiescent : kernel.Quiescent) :
    Attached (fun slot => (restingStatus (kernel.thread slot) : Status Cpu)) fun _ => [] where
  blocked slot location isBlocked := by
    unfold restingStatus at isBlocked
    split at isBlocked <;> simp at isBlocked
  queued slot index located := by
    have contexts := quiescent.contexts slot
    unfold restingStatus at located
    cases state : (kernel.thread slot).state <;>
      simp only [state, Status.location, Option.some.injEq, reduceCtorEq] at located
    all_goals
      rcases contexts (by simp [state]) with context | ⟨call, context⟩ <;>
        simp [context] at located

end QuiescentStatus

variable {status : Slot → Status Cpu}

/-- While no thread finishes `exit` as a zombie, none falls asleep as one. -/
theorem View.sleepsAlive (view : View kernel status)
    (noLastExit : ∀ slot cpu, status slot ≠ .lastExit cpu) (label : Label Cpu) :
    kernel.SleepsAlive label := by
  intro slot asleep zombie
  cases label with
  | sleep cpu chan =>
    obtain ⟨⟨thread, location⟩, runs, rfl⟩ := Option.map_eq_some_iff.mp asleep
    rcases view.status_of_running runs with onCpu | ⟨lastExit, -⟩
    · simp [view.state_eq, onCpu, Status.state] at zombie
    · exact noLastExit thread cpu lastExit
  | _ => simp [sleeper] at asleep

/-- The kernel between two sections of a run of scheduling and mutex
sections. -/
structure Ordered (kernel : Kernel Cpu) (status : Slot → Status Cpu)
    (waiters : MutexId → List QueueEntry) : Prop where
  view : View kernel status
  queues : Queues kernel status waiters
  noLastExit : ∀ slot cpu, status slot ≠ .lastExit cpu

theorem Quiescent.ordered (quiescent : kernel.Quiescent) :
    Ordered kernel (fun slot => restingStatus (kernel.thread slot)) fun _ => [] where
  view := quiescent.view
  queues := quiescent.queues_nil _
  noLastExit slot cpu lastExit := by
    unfold restingStatus at lastExit
    split at lastExit <;> simp at lastExit

/-- Three threads of one process, about to run, and one allocated mutex. -/
def workers : Kernel (Fin 3) :=
  { boot with
    thread := fun slot =>
      if slot.1 = initproc ∧ slot.2.val < 3 then
        { kstack := some slot.2.val, state := .runnable,
          pid := 2 + slot.2.val, context := some .user, chan := none,
          incarnation := 1 }
      else
        { kstack := none, state := .unused, pid := 0, context := none,
          chan := none, incarnation := 0 }
    mutex := fun index =>
      if index.val = 0 then KthreadMutex.zeroed.allocate 0 else .zeroed }

theorem workers_quiescent : workers.Quiescent where
  idle _ := rfl
  states slot := by
    simp only [workers]
    split <;> simp
  contexts slot runs := by
    simp only [workers] at runs ⊢
    split at runs
    next isWorker => simp [isWorker]
    next => simp at runs
  queues index := by
    simp only [workers]
    split
    · exact KthreadMutex.zeroed_waiting.allocate 0
    · exact KthreadMutex.zeroed_waiting

def sharedMutex : MutexId := ⟨0, maxMutexes_pos⟩

def secondWorker : Slot := (initproc, ⟨1, one_lt_nthread⟩)

/-- The second thread blocks first, is taken out of the queue by the unlock and
dispatched again. -/
def timelyUnlock (first second third : Fin 3) : List (Label (Fin 3)) :=
  [.scheduler first, .scheduler second, .lockEnter first sharedMutex,
    .lockEnter second sharedMutex, .lockBlock second, .unlock first sharedMutex,
    .scheduler second, .scheduler third]

/-- The second thread finds the mutex locked and queues itself; the first one
unlocks before the second has blocked. -/
def earlyUnlock (first second : Fin 3) : List (Label (Fin 3)) :=
  [.scheduler first, .scheduler second, .lockEnter first sharedMutex,
    .lockEnter second sharedMutex, .unlock first sharedMutex]

variable [DecidableEq Cpu]

/-- Every scheduling or mutex section that takes no running thread out of a
queue has its effect. -/
theorem step_effect {after : Kernel Cpu} {waiters : MutexId → List QueueEntry}
    (view : View kernel status) (queues : Queues kernel status waiters)
    (scheduling : label.Scheduling) (stopped : kernel.TakesStopped label)
    (alive : kernel.SleepsAlive label) (stepTo : kernel.step label = some after) :
    ∃ changed updated, Effect kernel after status changed waiters updated
      (kernel.TakesBlocked label) := by
  cases label with
  | scheduler cpu =>
    obtain ⟨changed, effect⟩ := scheduler_effect view queues stepTo
    exact ⟨changed, waiters, effect⟩
  | yield cpu =>
    obtain ⟨changed, effect⟩ := yield_effect view queues stepTo
    exact ⟨changed, waiters, effect⟩
  | sleep cpu chan =>
    obtain ⟨changed, effect⟩ := sleep_effect view queues
      (fun slot location runs => alive slot (by simp [sleeper, runs]))
      stepTo
    exact ⟨changed, waiters, effect⟩
  | sleepReturn cpu =>
    obtain ⟨changed, effect⟩ := sleepReturn_effect view queues stepTo
    exact ⟨changed, waiters, effect⟩
  | wakeup chan =>
    cases stepTo
    obtain ⟨changed, effect⟩ := wakeup1_effect view queues (some chan)
    exact ⟨changed, waiters, effect⟩
  | kill pid =>
    cases stepTo
    obtain ⟨changed, effect⟩ := kill_effect view queues pid
    exact ⟨changed, waiters, effect⟩
  | lockEnter cpu index => exact lockEnter_effect view queues stepTo
  | lockBlock cpu =>
    obtain ⟨changed, effect⟩ := lockBlock_effect view queues stepTo
    exact ⟨changed, waiters, effect⟩
  | lockFinish cpu =>
    obtain ⟨changed, effect⟩ := lockFinish_effect view queues stepTo
    exact ⟨changed, waiters, effect⟩
  | unlock cpu index =>
    simp only [step] at stepTo
    split at stepTo
    next =>
      obtain ⟨changed, updated, effect, -⟩ := unlockSection_effect view queues stopped stepTo
      exact ⟨changed, updated, effect⟩
    next => simp at stepTo
  | yieldlock cpu first second =>
    obtain ⟨changed, effect⟩ := yieldlock_effect view queues stepTo
    exact ⟨changed, waiters, effect⟩
  | yieldlockSection cpu => exact yieldlockSection_effect view queues stopped stepTo
  | yieldlockUnlockSecond cpu => exact yieldlockUnlockSecond_effect view queues stopped stepTo
  | yieldlockUnlockFirst cpu => exact yieldlockUnlockFirst_effect view queues stopped stepTo
  | yieldlockReturn cpu =>
    obtain ⟨changed, effect⟩ := yieldlockReturn_effect view queues stepTo
    exact ⟨changed, waiters, effect⟩
  | _ => exact scheduling.elim

theorem Ordered.step {after : Kernel Cpu} {waiters : MutexId → List QueueEntry}
    (ordered : Ordered kernel status waiters) (scheduling : label.Scheduling)
    (stopped : kernel.TakesStopped label) (stepTo : kernel.step label = some after) :
    ∃ changed updated, Ordered after changed updated ∧
      (kernel.TakesBlocked label → Attached status waiters → Attached changed updated) := by
  have alive := ordered.view.sleepsAlive ordered.noLastExit label
  obtain ⟨changed, updated, effect⟩ :=
    step_effect ordered.view ordered.queues scheduling stopped alive stepTo
  refine ⟨changed, updated, ⟨effect.view, effect.queues, ?_⟩, effect.attached⟩
  intro slot cpu lastExit
  have tame := effect.tame slot
  rw [lastExit] at tame
  exact ordered.noLastExit slot cpu tame.lastExit_inv

/-- If no running thread is taken out of a mutex queue, a thread runs on at most
one processor, and `scheduler` selects no thread that a processor runs. -/
theorem one_processor_per_thread {kernel after : Kernel Cpu} (quiescent : kernel.Quiescent)
    (reaches : GuardedReaches step
      (fun kernel label => label.Scheduling ∧ kernel.TakesStopped label)
      kernel after) :
    (∀ first second slot firstLocation secondLocation,
        after.running first = some (slot, firstLocation) →
          after.running second = some (slot, secondLocation) → first = second) ∧
      ∀ cpu next slot location, after.scheduler cpu = some next →
        next.running cpu = some (slot, location) →
          ∀ other place, after.running other ≠ some (slot, place) := by
  obtain ⟨status, waiters, ordered⟩ := reaches.invariant
    (fun kernel => ∃ status waiters, Ordered kernel status waiters)
    ⟨_, _, quiescent.ordered⟩ (by
      rintro before label next ⟨status, waiters, ordered⟩ ⟨scheduling, stopped⟩ stepTo
      obtain ⟨changed, updated, orderedNext, -⟩ := ordered.step scheduling stopped stepTo
      exact ⟨changed, updated, orderedNext⟩)
  constructor
  · exact fun first second slot firstLocation secondLocation =>
      ordered.view.cpu_unique
  · exact fun cpu next slot location scheduled taken =>
      scheduler_takes_idle ordered.view scheduled taken

theorem one_processor_per_thread_timelyUnlock : ∃ after : Kernel (Fin 3),
      runLabels step workers (timelyUnlock 0 1 2) = some after ∧
      after.running 2 = some (secondWorker, .lockResumed sharedMutex) ∧
      ∀ first second slot firstLocation secondLocation,
        after.running first = some (slot, firstLocation) →
          after.running second = some (slot, secondLocation) → first = second :=
  ⟨_, rfl, by decide, (one_processor_per_thread workers_quiescent
    (guardedReaches_of_runLabels (timelyUnlock 0 1 2) rfl)).1⟩

/-- After an unlock that comes too early, a third processor dispatches the
thread that the second one still runs. -/
theorem earlyUnlock_runs_thread_twice : ∃ after, workers.Quiescent ∧
      GuardedReaches step (fun _ label => label.Scheduling) workers after ∧
      after.running 1 = some (secondWorker, .lockQueued sharedMutex) ∧
      after.running 2 = some (secondWorker, .user) := by
  refine ⟨_, workers_quiescent,
    guardedReaches_of_runLabels (earlyUnlock 0 1 ++ [.scheduler 2]) rfl, ?_⟩
  decide

/-- If only blocked threads are taken out of mutex queues, a blocked thread is
in the queue of some mutex. -/
theorem blocked_thread_is_queued {kernel after : Kernel Cpu} (quiescent : kernel.Quiescent)
    (reaches : GuardedReaches step
      (fun kernel label => label.Scheduling ∧ kernel.TakesBlocked label)
      kernel after)
    (slot : Slot) (blocked : (after.thread slot).state = .blocked) :
    after.InQueue slot := by
  obtain ⟨status, waiters, ordered, attached⟩ := reaches.invariant
    (fun kernel => ∃ status waiters, Ordered kernel status waiters ∧
      Attached status waiters)
    ⟨_, _, quiescent.ordered, quiescent.attached⟩ (by
      rintro before label next ⟨status, waiters, ordered, attached⟩
        ⟨scheduling, takesBlocked⟩ stepTo
      obtain ⟨changed, updated, orderedNext, keeps⟩ :=
        ordered.step scheduling takesBlocked.stopped stepTo
      exact ⟨changed, updated, orderedNext, keeps takesBlocked attached⟩)
  rw [ordered.view.state_eq] at blocked
  cases current : status slot with
  | blocked location =>
    rw [ordered.queues.inQueue_iff]
    exact attached.blocked slot location current
  | _ => simp [current, Status.state] at blocked

theorem blocked_thread_is_queued_blockedSecond : ∃ after : Kernel (Fin 3),
      runLabels step workers ((timelyUnlock 0 1 2).take 5) = some after ∧
      (after.thread secondWorker).state = .blocked ∧
      after.InQueue secondWorker :=
  ⟨_, rfl, by decide, blocked_thread_is_queued workers_quiescent
    (guardedReaches_of_runLabels ((timelyUnlock 0 1 2).take 5) rfl) secondWorker
    (by decide)⟩

/-- After an unlock that comes too early, the second thread blocks and is in no
queue. -/
theorem earlyUnlock_loses_wakeup : ∃ after, workers.Quiescent ∧
      GuardedReaches step (fun _ label => label.Scheduling) workers after ∧
      (after.thread secondWorker).state = .blocked ∧
      ¬ after.InQueue secondWorker := by
  refine ⟨_, workers_quiescent,
    guardedReaches_of_runLabels (earlyUnlock 0 1 ++ [.lockBlock 1]) rfl, ?_⟩
  decide

end Kernel

end Xv6Kthreads
