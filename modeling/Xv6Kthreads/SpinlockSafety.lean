import Mathlib.Data.Fintype.Basic
import Xv6Kthreads.SpinlockOrder

/-!
# Runs without a deadlock among the spinlocks

Every operation of the mutex calls keeps the lock order, provided that a waiter
is taken out of a queue only when it has blocked and the waiters taken out
before it have come back to the `queueLock`.  Without this condition two
processors can block each other for ever.
-/

namespace Xv6Kthreads

namespace MutexSpinlocks

open LabelledRun

variable {Cpu Thread : Type*}

namespace Machine

variable (machine : Machine Cpu Thread)

/-- The mutex whose first waiter the step takes out of the queue. -/
def takesFrom : Label Cpu Thread → Option MutexId
  | .run cpu =>
    match machine.cpu cpu with
    | .running _ (.unlockTest mutex _) =>
      if (machine.mutex mutex).locked && !(machine.mutex mutex).emptyQueue then
        some mutex
      else
        none
    | .running _ (.yieldlockTest _ second) =>
      if !(machine.mutex second).emptyQueue then some second else none
    | _ => none
  | _ => none

/-- The first waiter of the mutex is `BLOCKED`, and no thread is on its way back
to the `queueLock` inside `kthread_mutex_lock`. -/
def Settled (mutex : MutexId) : Prop :=
  (∀ item, (machine.mutex mutex).threadsQueue (machine.mutex mutex).first =
      some item → machine.state item = .blocked) ∧
    (∀ cpu thread, machine.cpu cpu ≠ .running thread (.lockReacquire mutex)) ∧
    ∀ thread, machine.state thread = .runnable →
      machine.context thread ≠ some (.lockReacquire mutex)

/-- The step takes a waiter out of a queue only when that is settled. -/
def TakesSettled (label : Label Cpu Thread) : Prop :=
  match machine.takesFrom label with
  | none => True
  | some mutex => machine.Settled mutex

instance [DecidableEq Cpu] [DecidableEq Thread] [Fintype Cpu]
    [Fintype Thread] (machine : Machine Cpu Thread) (mutex : MutexId) :
    Decidable (machine.Settled mutex) := by
  unfold Settled
  infer_instance

instance [DecidableEq Cpu] [DecidableEq Thread] [Fintype Cpu]
    [Fintype Thread] (machine : Machine Cpu Thread) : DecidablePred machine.TakesSettled := by
  intro label
  unfold TakesSettled
  split <;> infer_instance

/-- No call of a mutex function is in progress. -/
structure Resting (machine : Machine Cpu Thread) : Prop where
  idle : ∀ cpu, machine.cpu cpu = .idle
  free : ∀ lock, machine.holder lock = none
  queues : ∀ mutex, (machine.mutex mutex).Waiting []
  threads : ∀ thread, machine.state thread = .runnable ∧
        machine.context thread = some (.yieldResume .user) ∨
      machine.state thread ≠ .runnable ∧ machine.state thread ≠ .blocked

end Machine

variable (machine : Machine Cpu Thread)

def restingStatus (thread : Thread) : Status Cpu Thread :=
  if machine.state thread = .runnable then .runnable (.yieldResume .user)
  else .inactive (machine.state thread)

theorem resting_sound {machine : Machine Cpu Thread} (resting : machine.Resting) :
    Sound machine (restingStatus machine) fun _ => [] where
  view := by
    refine ⟨?_, ?_, ?_⟩
    · intro thread
      unfold restingStatus
      split
      next runnable => exact runnable
      next => rfl
    · intro thread place saved
      unfold restingStatus at saved
      split at saved
      next runnable =>
        rcases resting.threads thread with ⟨-, context⟩ | ⟨other, -⟩
        · rw [context]
          exact saved
        · exact absurd runnable other
      next => simp [reading, Status.saved] at saved
    · intro cpu thread place
      unfold restingStatus
      split <;> simp [resting.idle, Activity.current, reading, Status.place]
  locks := by
    intro lock cpu
    simp [resting.free, resting.idle, Activity.holds]
  waiting := resting.queues
  order := by
    refine ⟨?_, fun _ => List.nodup_nil, by simp, ?_⟩
    · intro thread
      unfold restingStatus
      split
      next => exact ⟨.yield .user, rfl⟩
      next other =>
        rcases resting.threads thread with ⟨runnable, -⟩ | neither
        · exact absurd runnable other
        · exact neither
    · intro thread mutex item popped
      unfold restingStatus at popped
      split at popped <;> simp [Status.popped] at popped

/-- Storing the state that a thread already has changes nothing. -/
theorem setState_self [DecidableEq Thread] (machine : Machine Cpu Thread) (thread : Thread) :
    machine.setState thread (machine.state thread) = machine := by
  simp [Machine.setState]

def Orderly : Prop :=
  ∃ status waiters, Sound machine status waiters

section Steps

variable {machine after : Machine Cpu Thread}
variable {status : Thread → Status Cpu Thread}
variable {waiters : MutexId → List Thread}
variable {cpu : Cpu} {thread : Thread}

section

variable (sound : Sound machine status waiters)
include sound

theorem Sound.orderly :
    Orderly machine :=
  ⟨status, waiters, sound⟩

theorem Sound.settled {mutex : MutexId} (settled : machine.Settled mutex) (other : Thread) :
    ¬ (status other).Returning mutex := by
  intro returns
  cases current : status other with
  | onCpu otherCpu pc =>
    rw [current] at returns
    have place : pc = .lockReacquire mutex := returns
    subst place
    exact settled.2.1 otherCpu other (sound.runs_of_status current)
  | runnable pc =>
    rw [current] at returns
    have place : pc = .lockReacquire mutex := returns
    subst place
    apply settled.2.2 other
    · rw [sound.view.state_eq, current]
      rfl
    · apply sound.view.context_eq
      rw [current]
      rfl
  | blocked pc | inactive state => simp [current, Status.Returning] at returns

theorem Sound.first_waiter {mutex : MutexId} (nonempty : !(machine.mutex mutex).emptyQueue)
    (settled : machine.Settled mutex) :
    ∃ item rest, waiters mutex = item :: rest ∧ machine.state item = .blocked ∧
      (machine.mutex mutex).popThreadToMutexQueue =
        some (item, (machine.mutex mutex).dropFirstThread) := by
  have waiting := sound.waiting mutex
  cases first : waiters mutex with
  | nil =>
    rw [first] at waiting
    rw [waiting.emptyQueue_iff.mpr rfl] at nonempty
    simp at nonempty
  | cons item rest =>
    rw [first] at waiting
    refine ⟨item, rest, rfl, ?_, waiting.pop.1⟩
    apply settled.1
    rw [waiting.first_eq, waiting.stored.2]
    rfl

/-- A thread that `scheduler` finds runnable has no other status. -/
theorem Sound.status_of_runnable {pc : Pc Thread} (runnable : machine.state thread = .runnable)
    (context : machine.context thread = some pc) :
    status thread = .runnable pc := by
  have wellFormed := sound.order.wellFormed thread
  rw [sound.view.state_eq] at runnable
  cases current : status thread with
  | onCpu other place =>
    rw [current] at runnable
    simp only [reading, Status.state] at runnable
    split at runnable <;> simp at runnable
  | runnable place =>
    have saved := sound.view.context_eq thread place (by rw [current]; rfl)
    rw [context] at saved
    rw [Option.some.inj saved]
  | blocked place => simp [current, reading, Status.state] at runnable
  | inactive state =>
    rw [current] at wellFormed runnable
    exact absurd runnable wellFormed.1

end

variable [DecidableEq Cpu] [DecidableEq Thread]

section

variable (sound : Sound machine status waiters)

include sound

theorem Sound.lockTest {mutex : MutexId}
    (runs : machine.cpu cpu = .running thread (.lockTest mutex))
    (stepTo : machine.lockTest cpu thread mutex = some after) :
    Orderly after := by
  unfold Machine.lockTest at stepTo
  split at stepTo
  next locked =>
    obtain ⟨pushed, result, rfl⟩ := Option.map_eq_some_iff.mp stepTo
    exact Sound.orderly (sound.push runs {} result)
  next =>
    cases stepTo
    exact Sound.orderly (sound.goTo runs {})

theorem Sound.yieldlockPush {second : MutexId}
    (runs : machine.cpu cpu = .running thread (.yieldlockPush second))
    (stepTo : machine.yieldlockPush cpu thread second = some after) :
    Orderly after := by
  obtain ⟨pushed, result, rfl⟩ := Option.map_eq_some_iff.mp stepTo
  exact Sound.orderly (sound.push runs {} result)

theorem Sound.unlockTest {mutex : MutexId} {next : Option MutexId}
    (runs : machine.cpu cpu = .running thread (.unlockTest mutex next))
    (settled : machine.TakesSettled (.run cpu))
    (stepTo : machine.unlockTest cpu thread mutex next = some after) :
    Orderly after := by
  unfold Machine.unlockTest at stepTo
  split at stepTo
  next =>
    cases stepTo
    exact Sound.orderly (sound.goTo runs {})
  next locked =>
    split at stepTo
    next nonempty =>
      have takes : machine.takesFrom (.run cpu) = some mutex := by
        simp_all [Machine.takesFrom]
      simp only [Machine.TakesSettled, takes] at settled
      obtain ⟨item, rest, first, blocked, popped⟩ := sound.first_waiter nonempty settled
      rw [popped] at stepTo
      cases stepTo
      exact Sound.orderly (sound.take runs first blocked (sound.settled settled) {})
    next =>
      cases stepTo
      exact Sound.orderly ((sound.setMutex ((sound.waiting mutex).with_locked false)).goTo runs {})

theorem Sound.yieldlockTest {first second : MutexId}
    (runs : machine.cpu cpu = .running thread (.yieldlockTest first second))
    (settled : machine.TakesSettled (.run cpu))
    (stepTo : machine.yieldlockTest cpu thread first second = some after) :
    Orderly after := by
  unfold Machine.yieldlockTest at stepTo
  split at stepTo
  next nonempty =>
    have takes : machine.takesFrom (.run cpu) = some second := by
      simp_all [Machine.takesFrom]
    simp only [Machine.TakesSettled, takes] at settled
    obtain ⟨item, rest, isFirst, blocked, popped⟩ := sound.first_waiter nonempty settled
    rw [popped] at stepTo
    cases stepTo
    exact Sound.orderly (sound.take runs isFirst blocked (sound.settled settled) {})
  next =>
    cases stepTo
    exact Sound.orderly (sound.goTo runs {})

theorem Sound.unlockEnter {mutex : MutexId} {next : Option MutexId}
    (runs : machine.cpu cpu = .running thread (.unlockEnter mutex next))
    (stepTo : machine.unlockEnter cpu thread mutex next = some after) :
    Orderly after := by
  unfold Machine.unlockEnter at stepTo
  split at stepTo
  next => simp at stepTo
  next target _ =>
    split at stepTo <;> cases stepTo
    next => exact Sound.orderly (sound.goTo runs (Pc.stays_afterUnlock mutex next))
    next => exact Sound.orderly (sound.goTo runs {})

theorem Sound.runThread {pc : Pc Thread} (runs : machine.cpu cpu = .running thread pc)
    (settled : machine.TakesSettled (.run cpu))
    (stepTo : machine.runThread cpu thread pc = some after) :
    Orderly after := by
  have valid := sound.order.wellFormed thread
  have current := sound.status_of_runs runs
  rw [current] at valid
  cases pc with
  | user => simp [Machine.runThread] at stepTo
  | lockAcquire mutex | lockAcquirePtable mutex | lockReacquire mutex
  | unlockAcquire mutex next | unlockAcquirePtable mutex popped next
  | yieldlockAcquire first second | yieldlockAcquirePtable second popped =>
    exact Sound.orderly (sound.acquire runs {} stepTo)
  | lockTest mutex => exact sound.lockTest runs stepTo
  | lockReleasePushed mutex | lockReleasePtable mutex
  | unlockReleasePtable mutex next | yieldlockReleaseEmpty first second
  | yieldlockRelease second | yieldlockResume second =>
    cases stepTo
    exact Sound.orderly (sound.release runs {})
  | lockBlock mutex =>
    cases stepTo
    have follows : Status.Follows (.onCpu cpu (.lockBlock mutex))
        (.blocked (.lockReacquire mutex) : Status Cpu Thread) :=
      ⟨⟨mutex, rfl⟩, Or.inr rfl, Or.inl rfl, fun _ => False.elim⟩
    exact Sound.orderly (sound.sched runs rfl rfl rfl follows rfl)
  | lockSet mutex =>
    cases stepTo
    exact Sound.orderly ((sound.setMutex ((sound.waiting mutex).with_locked true)).release runs {})
  | unlockEnter mutex next => exact sound.unlockEnter runs stepTo
  | unlockTest mutex next => exact sound.unlockTest runs settled stepTo
  | unlockWake mutex popped next =>
    cases stepTo
    have running : machine.state thread = .running := by
      rw [sound.view.state_eq, current]
      rfl
    obtain ⟨changed, woken⟩ := sound.wake runs
      ({} : Pc.Wakes _ (.unlockReleasePtable mutex next) _ _) running
    rw [setState_self] at woken
    exact woken.orderly
  | unlockRelease mutex next =>
    cases stepTo
    exact Sound.orderly (sound.release runs (Pc.leaves_afterUnlock mutex next))
  | yieldlockTest first second => exact sound.yieldlockTest runs settled stepTo
  | yieldlockBlock second popped =>
    cases stepTo
    obtain ⟨changed, woken⟩ := sound.wake runs ({} : Pc.Wakes _ (.yieldlockPush second) _ _) rfl
    exact woken.orderly
  | yieldlockPush second => exact sound.yieldlockPush runs stepTo
  | yieldlockSched second =>
    cases stepTo
    have blocked : machine.state thread = .blocked := by
      rw [sound.view.state_eq, current]
      rfl
    have follows : Status.Follows (.onCpu cpu (.yieldlockSched second))
        (.blocked (.yieldlockResume second) : Status Cpu Thread) :=
      ⟨⟨second, rfl⟩, Or.inr rfl, Or.inr rfl, fun _ => False.elim⟩
    rw [blocked]
    exact Sound.orderly (sound.sched runs rfl rfl rfl follows rfl)
  | yieldAcquire place =>
    have enters : Pc.Enters .ptable (.yieldAcquire place) (.yieldSched place) := { valid := valid }
    exact Sound.orderly (sound.acquire runs enters stepTo)
  | yieldSched place =>
    cases stepTo
    have follows : Status.Follows (.onCpu cpu (.yieldSched place))
        (.runnable (.yieldResume place) : Status Cpu Thread) :=
      ⟨⟨.yield place, valid⟩, Or.inr rfl, Or.inl rfl, fun _ returns => by cases returns⟩
    exact Sound.orderly (sound.sched runs rfl rfl rfl follows rfl)
  | yieldResume place =>
    cases stepTo
    exact Sound.orderly (sound.release runs (Pc.leaves_yieldResume valid))

theorem Sound.run (settled : machine.TakesSettled (.run cpu))
    (stepTo : machine.run cpu = some after) : Orderly after := by
  unfold Machine.run at stepTo
  split at stepTo
  next idle =>
    obtain ⟨cpus, states, contexts, mutexes⟩ := acquire_fields stepTo
    have locks : Locks after := by
      apply sound.locks.acquire _ stepTo
      simp [idle, Activity.holds]
    exact Sound.orderly (sound.schedule (by rw [idle]; rfl) rfl cpus states contexts mutexes locks)
  next scanning =>
    cases stepTo
    have locks : Locks (machine.release cpu .ptable .idle) := by
      apply sound.locks.release <;> simp [scanning, Activity.holds]
    exact Sound.orderly (sound.schedule (by rw [scanning]; rfl) rfl rfl rfl rfl rfl locks)
  next thread pc runs => exact sound.runThread runs settled stepTo

theorem Sound.dispatch_orderly (stepTo : machine.dispatch cpu thread = some after) :
    Orderly after := by
  unfold Machine.dispatch at stepTo
  split at stepTo <;> cases stepTo
  next pc scanning runnable context =>
    exact Sound.orderly (sound.dispatch scanning (sound.status_of_runnable runnable context))

theorem Sound.call {call : Call} (stepTo : machine.call cpu call = some after) : Orderly after := by
  unfold Machine.call at stepTo
  split at stepTo
  swap
  · simp at stepTo
  rename_i thread runs
  cases call with
  | lock mutex | unlock mutex =>
    simp only at stepTo
    split at stepTo <;> cases stepTo
    · exact sound.orderly
    · exact Sound.orderly (sound.goTo runs {})
  | yieldlock first second =>
    simp only at stepTo
    split at stepTo <;> cases stepTo
    · exact Sound.orderly (sound.goTo runs {})
    · exact sound.orderly

theorem Sound.tick (stepTo : machine.tick cpu = some after) : Orderly after := by
  unfold Machine.tick at stepTo
  split at stepTo
  next thread pc runs =>
    split at stepTo <;> cases stepTo
    next interruptible =>
      exact Sound.orderly (sound.goTo runs (Pc.stays_yieldAcquire interruptible))
  next => simp at stepTo

end

/-- Every step that takes waiters out of queues only when that is settled
keeps the lock order. -/
theorem Orderly.step {label : Label Cpu Thread} (orderly : Orderly machine)
    (settled : machine.TakesSettled label) (stepTo : machine.step label = some after) :
    Orderly after := by
  obtain ⟨status, waiters, sound⟩ := orderly
  cases label with
  | run cpu => exact sound.run settled stepTo
  | dispatch cpu thread => exact sound.dispatch_orderly stepTo
  | call cpu call => exact sound.call stepTo
  | tick cpu => exact sound.tick stepTo

end Steps

/-- If waiters are taken out of queues only when blocked, one at a time, no
processor holds `ptable.lock` and waits for a `queueLock` whose holder waits for
`ptable.lock`. -/
theorem no_spinlock_deadlock [DecidableEq Cpu] [DecidableEq Thread]
    {machine after : Machine Cpu Thread} (resting : machine.Resting)
    (reaches : GuardedReaches Machine.step Machine.TakesSettled machine after) :
    ¬ after.Deadlock := by
  obtain ⟨status, waiters, sound⟩ := reaches.invariant Orderly ⟨_, _, resting_sound resting⟩
    fun _ _ _ orderly settled stepTo => orderly.step settled stepTo
  exact sound.no_deadlock

def fourThreads : Machine (Fin 3) (Fin 4) where
  holder _ := none
  cpu _ := .idle
  state _ := .runnable
  context _ := some (.yieldResume .user)
  mutex index := KthreadMutex.zeroed.allocate index.val

theorem fourThreads_resting : fourThreads.Resting where
  idle _ := rfl
  free _ := rfl
  queues index := KthreadMutex.zeroed_waiting.allocate index.val
  threads _ := Or.inl ⟨rfl, rfl⟩

/-- A processor enters the section of `scheduler`, switches into the thread,
and the thread releases `ptable.lock`. -/
def switchTo (cpu : Fin 3) (thread : Fin 4) : List (Label (Fin 3) (Fin 4)) :=
  [.run cpu, .dispatch cpu thread, .run cpu]

/-- The mutex for which the threads of `fourThreads` wait. -/
def contended : MutexId := ⟨0, maxMutexes_pos⟩

/-- A mutex that only the last thread of `fourThreads` uses. -/
def spare : MutexId := ⟨1, one_lt_maxMutexes⟩

/-- Threads 1 and 2 block in the queue of the contended mutex, and thread 0
unlocks it: thread 1 is runnable and has not come back. -/
def returningWaiter (cpu other : Fin 3) (thread : Nat → Fin 4) : List (Label (Fin 3) (Fin 4)) :=
  switchTo cpu (thread 0) ++ .call cpu (.lock contended) :: List.replicate 3 (.run cpu) ++
    switchTo other (thread 1) ++ .call other (.lock contended) :: List.replicate 5 (.run other) ++
    [.dispatch other (thread 2), .run other, .call other (.lock contended)] ++
    List.replicate 5 (.run other) ++
    [.dispatch other (thread 3), .run other, .call other (.lock spare)] ++
    List.replicate 3 (.run other) ++
    .call cpu (.unlock contended) :: List.replicate 6 (.run cpu)

/-- Thread 3 takes thread 2 out of the queue while thread 1 is on its way
back, and a third processor resumes thread 1. -/
def hastyYieldlock (cpu other third : Fin 3) (thread : Nat → Fin 4) :
    List (Label (Fin 3) (Fin 4)) :=
  returningWaiter cpu other thread ++ [.call other (.yieldlock spare contended),
    .run other, .run other, .run third, .dispatch third (thread 1)]

/-- Thread 3 holds `queueLock` and waits for `ptable.lock`, which the processor
that resumes thread 1 holds while it waits for `queueLock`. -/
theorem hastyYieldlock_deadlocks : ∃ after, fourThreads.Resting ∧
      Reaches Machine.step fourThreads after ∧ after.Deadlock := by
  obtain ⟨after, run, deadlock⟩ :
      ∃ after ∈ runLabels Machine.step fourThreads (hastyYieldlock 0 1 2 (Fin.ofNat 4)),
      after.holder .ptable = some 2 ∧
      (after.cpu 2).wants = some (.queue contended) ∧
      after.holder (.queue contended) = some 1 ∧
      (after.cpu 1).wants = some .ptable := by
    decide +kernel
  exact ⟨after, fourThreads_resting, reaches_of_runLabels _ run, 2, 1, contended, deadlock⟩

theorem no_spinlock_deadlock_returningWaiter : ∃ after : Machine (Fin 3) (Fin 4),
      runLabels (restrict Machine.step Machine.TakesSettled) fourThreads
        (returningWaiter 0 1 (Fin.ofNat 4)) = some after ∧
      after.state 1 = .runnable ∧
      after.context 1 = some (.lockReacquire contended) ∧
      ¬ after.Deadlock := by
  obtain ⟨after, run, state, context⟩ :
      ∃ after ∈ runLabels (restrict Machine.step Machine.TakesSettled) fourThreads
        (returningWaiter 0 1 (Fin.ofNat 4)),
      after.state 1 = .runnable ∧
      after.context 1 = some (.lockReacquire contended) := by
    decide +kernel
  exact ⟨after, run, state, context, no_spinlock_deadlock
    fourThreads_resting (guardedReaches_of_runLabels (returningWaiter 0 1 (Fin.ofNat 4)) run)⟩

end MutexSpinlocks

end Xv6Kthreads
