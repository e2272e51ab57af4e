import Xv6Kthreads.MutexCalls
import Xv6Kthreads.LabelledRun

/-!
# Mutex calls on hand-over locks

The meaning of the mutex calls when every allocated mutex is replaced by the
hand-over lock that it implements.  The machine on the kernel's table is
simulated by the machine on the locks, for all user code that calls the mutex
functions on allocated mutexes only, whoever owns them.
-/

namespace Xv6Kthreads

namespace KthreadMutex

variable {Thread : Type*}

variable {thread : Thread}

theorem pushThreadToMutexQueue_kept {mutex pushed : KthreadMutex Thread}
    (result : mutex.pushThreadToMutexQueue thread = some pushed) :
    pushed.state = mutex.state ∧ pushed.id = mutex.id := by
  unfold pushThreadToMutexQueue at result
  split at result <;> cases result
  exact ⟨rfl, rfl⟩

theorem popThreadToMutexQueue_kept {mutex popped : KthreadMutex Thread}
    (result : mutex.popThreadToMutexQueue = some (thread, popped)) :
    popped.state = mutex.state ∧ popped.id = mutex.id := by
  unfold popThreadToMutexQueue at result
  split at result <;> cases result
  exact ⟨rfl, rfl⟩

theorem kthreadMutexLockEnter_kept {mutex entered : KthreadMutex Thread} {outcome : LockOutcome}
    (result : mutex.kthreadMutexLockEnter thread = some (outcome, entered)) :
    entered.state = mutex.state ∧ entered.id = mutex.id := by
  unfold kthreadMutexLockEnter at result
  split at result
  next =>
    cases result
    exact ⟨rfl, rfl⟩
  next =>
    split at result
    next =>
      simp only [Option.map_eq_some_iff, Prod.mk.injEq] at result
      obtain ⟨pushed, pushResult, -, rfl⟩ := result
      exact pushThreadToMutexQueue_kept pushResult
    next =>
      cases result
      exact ⟨rfl, rfl⟩

theorem kthreadMutexUnlock_kept {mutex released : KthreadMutex Thread} {value : Int}
    {woken : Option Thread} (result : mutex.kthreadMutexUnlock = some (value, woken, released)) :
    released.state = mutex.state ∧ released.id = mutex.id := by
  unfold kthreadMutexUnlock at result
  split at result
  next =>
    cases result
    exact ⟨rfl, rfl⟩
  next =>
    split at result
    next =>
      cases result
      exact ⟨rfl, rfl⟩
    next =>
      split at result
      next =>
        simp only [Option.map_eq_some_iff, Prod.mk.injEq] at result
        obtain ⟨⟨thread, popped⟩, popResult, -, -, rfl⟩ := result
        exact popThreadToMutexQueue_kept popResult
      next =>
        cases result
        exact ⟨rfl, rfl⟩

/-- The last section of a waiting lock call makes a mutex of nobody the
caller's own. -/
theorem Refines.claim {mutex : KthreadMutex Thread} {lock : FifoLock Thread}
    (refines : mutex.Refines lock) (thread : Thread) :
    mutex.kthreadMutexLockResume.Refines (lock.claim thread) := by
  cases owned : lock.owner with
  | none =>
    rw [FifoLock.claim_of_owner_none owned]
    refine ⟨refines.used, rfl, ?_⟩
    have waiting := refines.waiting.with_locked true
    rw [lock.waiters_eq_nil owned] at waiting
    exact waiting
  | some owner =>
    rw [FifoLock.claim_of_owner_some owned]
    exact refines.lockResume owned

/-- `kthread_mutex_yieldlock` hands a mutex over and queues its caller on it. -/
theorem Refines.yieldTo {mutex pushed : KthreadMutex Thread} {lock : FifoLock Thread}
    (refines : mutex.Refines lock) {next : Thread} {waiters : List Thread}
    (waiting : lock.waiters = next :: waiters)
    (result : mutex.dropFirstThread.pushThreadToMutexQueue thread = some pushed) :
    pushed.Refines (lock.yieldTo thread) := by
  have listed := refines.waiting
  rw [waiting] at listed
  obtain ⟨queue, stateEq, -, lockedEq⟩ := listed.pop.2.push result
  have owned : lock.owner.isSome := by
    by_contra unowned
    simp only [Option.not_isSome_iff_eq_none] at unowned
    simp [lock.waiters_eq_nil unowned] at waiting
  rw [FifoLock.yieldTo_of_waiters_cons waiting]
  exact ⟨stateEq.trans refines.used, by simp [lockedEq, refines.locked_eq, owned], queue⟩

end KthreadMutex

namespace MutexCalls

open LabelledRun

variable {Thread : Type*}

/-- A release of a lock, followed by `result`; a lock of nobody stays. -/
def releaseSection (locks : MutexId → FifoLock Thread) (index : MutexId)
    (result : Int → Result) : Outcome (FifoLock Thread) Thread :=
  if (locks index).owner.isNone then
    ⟨locks, none, result (-1)⟩
  else
    ⟨Function.update locks index (locks index).release, (locks index).waiters.head?, result 0⟩

def lockSection (locks : MutexId → FifoLock Thread) (thread : Thread) :
    Progress → Option (Outcome (FifoLock Thread) Thread)
  | .lockEnter index =>
    some ⟨Function.update locks index ((locks index).request thread), none,
      if (locks index).owner.isNone then .returned 0
      else .continues (.lockQueued index)⟩
  | .lockQueued _ => none
  | .lockPopped index =>
    some ⟨Function.update locks index ((locks index).claim thread), none, .returned 0⟩
  | .unlock index => some (releaseSection locks index .returned)
  | .yieldlockTest first second =>
    some ⟨locks, none, if (locks first).owner.isSome then
        .continues (.yieldlockSection first second)
      else .returned (-1)⟩
  | .yieldlockSection first second =>
    match (locks second).waiters with
    | [] => some ⟨locks, none, .continues (.yieldlockUnlockSecond first second)⟩
    | next :: _ =>
      some ⟨Function.update locks second ((locks second).yieldTo thread), some next,
          .continues (.yieldlockQueued second)⟩
  | .yieldlockQueued _ => none
  | .yieldlockPopped _ => some ⟨locks, none, .returned 0⟩
  | .yieldlockUnlockSecond first second =>
    some (releaseSection locks second fun _ =>
      .continues (.yieldlockUnlockFirst first))
  | .yieldlockUnlockFirst first => some (releaseSection locks first fun _ => .returned 0)

structure Implements (allocated : MutexId → Prop) (table : MutexId → KthreadMutex Thread)
    (locks : MutexId → FifoLock Thread) : Prop where
  refines : ∀ index, allocated index → (table index).Refines (locks index)
  id_eq : ∀ index, allocated index → (table index).id = index.val

structure Outcome.Matches (allocated : MutexId → Prop)
    (outcome : Outcome (KthreadMutex Thread) Thread)
    (meaning : Outcome (FifoLock Thread) Thread) : Prop where
  implements : Implements allocated outcome.mutex meaning.mutex
  woken : outcome.woken = meaning.woken
  result : outcome.result = meaning.result

theorem mutexIndex_val (index : MutexId) : Kernel.mutexIndex (index.val : Int) = some index := by
  simp [Kernel.mutexIndex]

section Simulation

variable {allocated : MutexId → Prop}
variable {table : MutexId → KthreadMutex Thread}
variable {locks : MutexId → FifoLock Thread} {index : MutexId}

theorem Implements.update (implements : Implements allocated table locks)
    {mutex : KthreadMutex Thread} {lock : FifoLock Thread}
    (refines : mutex.Refines lock) (id_eq : mutex.id = (table index).id) :
    Implements allocated (Function.update table index mutex)
      (Function.update locks index lock) := by
  constructor
  · intro other isAllocated
    rcases eq_or_ne other index with rfl | same
    · simpa using refines
    · simpa [same] using implements.refines other isAllocated
  · intro other isAllocated
    rcases eq_or_ne other index with rfl | same
    · simpa [id_eq] using implements.id_eq other isAllocated
    · simpa [same] using implements.id_eq other isAllocated

variable {outcome : Outcome (KthreadMutex Thread) Thread}

section

variable (implements : Implements allocated table locks)

include implements

theorem unlockSection_matches (isAllocated : allocated index) {result : Int → Result}
    (runs : unlockSection table index result = some outcome) :
    outcome.Matches allocated (releaseSection locks index result) := by
  have refines := implements.refines index isAllocated
  unfold unlockSection at runs
  split at runs <;> cases runs
  rename_i value woken mutex unlocked
  have id_eq := (KthreadMutex.kthreadMutexUnlock_kept unlocked).2
  unfold releaseSection
  cases owned : (locks index).owner with
  | none =>
    rw [refines.unlock_of_free owned] at unlocked
    cases unlocked
    refine ⟨?_, rfl, rfl⟩
    simpa using implements
  | some owner =>
    cases waiting : (locks index).waiters with
    | nil =>
      obtain ⟨released, unlockResult, releasedRefines⟩ := refines.unlock_of_alone owned waiting
      rw [unlockResult] at unlocked
      cases unlocked
      exact ⟨implements.update releasedRefines id_eq, rfl, rfl⟩
    | cons next waiters =>
      obtain ⟨released, unlockResult, releasedRefines⟩ := refines.unlock_of_waiter owned waiting
      rw [unlockResult] at unlocked
      cases unlocked
      exact ⟨implements.update releasedRefines id_eq, rfl, rfl⟩

theorem unlockId_matches (isAllocated : allocated index) {result : Result}
    (runs : unlockId table (table index).id result = some outcome) :
    outcome.Matches allocated (releaseSection locks index fun _ => result) := by
  rw [unlockId, implements.id_eq index isAllocated, mutexIndex_val] at runs
  exact unlockSection_matches implements isAllocated runs

variable {thread : Thread}

theorem lockEnter_matches (isAllocated : allocated index)
    (runs : callSection table thread (.lockEnter index) = some outcome) :
    ∃ meaning, lockSection locks thread (.lockEnter index) = some meaning ∧
      outcome.Matches allocated meaning := by
  have refines := implements.refines index isAllocated
  refine ⟨_, rfl, ?_⟩
  cases owned : (locks index).owner with
  | none =>
    obtain ⟨entered, result, enteredRefines⟩ := refines.lockEnter_of_free owned thread
    simp only [callSection, result] at runs
    cases runs
    exact ⟨implements.update enteredRefines
      (KthreadMutex.kthreadMutexLockEnter_kept result).2, rfl, rfl⟩
  | some owner =>
    cases result : (table index).kthreadMutexLockEnter thread with
    | none => simp [callSection, result] at runs
    | some entry =>
      obtain ⟨entered, mutex⟩ := entry
      obtain ⟨rfl, enteredRefines⟩ := refines.lockEnter_of_owned owned result
      simp only [callSection, result] at runs
      cases runs
      exact ⟨implements.update enteredRefines
        (KthreadMutex.kthreadMutexLockEnter_kept result).2, rfl, rfl⟩

theorem yieldlockSection_matches {first second : MutexId} (isAllocated : allocated second)
    (runs : callSection table thread (.yieldlockSection first second) = some outcome) :
    ∃ meaning, lockSection locks thread (.yieldlockSection first second) = some meaning ∧
      outcome.Matches allocated meaning := by
  have refines := implements.refines second isAllocated
  have listed := refines.waiting
  cases waiting : (locks second).waiters with
  | nil =>
    rw [waiting] at listed
    simp only [callSection, listed.emptyQueue_iff.mpr rfl] at runs
    cases runs
    refine ⟨⟨locks, none, .continues (.yieldlockUnlockSecond first second)⟩,
      ?_, implements, rfl, rfl⟩
    simp [lockSection, waiting]
  | cons next waiters =>
    rw [waiting] at listed
    have notEmpty : (table second).emptyQueue = false := by
      rw [Bool.eq_false_iff]
      intro empty
      simpa using listed.emptyQueue_iff.mp empty
    simp only [callSection, notEmpty, Bool.not_false, if_true, listed.pop.1] at runs
    split at runs <;> cases runs
    rename_i pushed pushResult
    refine ⟨⟨Function.update locks second ((locks second).yieldTo thread), some next,
        .continues (.yieldlockQueued second)⟩, ?_, ?_, rfl, rfl⟩
    · simp [lockSection, waiting]
    · apply implements.update (refines.yieldTo waiting pushResult)
      rw [(KthreadMutex.pushThreadToMutexQueue_kept pushResult).2, KthreadMutex.dropFirstThread_id]

/-- Every section of a mutex call on allocated mutexes has the meaning of the
same section on the locks. -/
theorem callSection_matches {progress : Progress}
    (within : ∀ index ∈ progress.mutexes, allocated index)
    (runs : callSection table thread progress = some outcome) :
    ∃ meaning, lockSection locks thread progress = some meaning ∧
      outcome.Matches allocated meaning := by
  cases progress with
  | lockEnter index =>
    exact lockEnter_matches implements (within index (by
      simp [Progress.mutexes])) runs
  | lockQueued index => simp [callSection] at runs
  | lockPopped index =>
    cases runs
    have refines := implements.refines index (within index (by simp [Progress.mutexes]))
    exact ⟨_, rfl, implements.update (refines.claim thread) rfl, rfl, rfl⟩
  | unlock index =>
    exact ⟨_, rfl, unlockSection_matches implements
      (within index (by simp [Progress.mutexes])) runs⟩
  | yieldlockTest first second =>
    have refines := implements.refines first (within first (by simp [Progress.mutexes]))
    refine ⟨_, rfl, ?_⟩
    simp only [callSection, refines.locked_eq] at runs
    split at runs <;> cases runs
    next owned => exact ⟨implements, rfl, by simp [owned]⟩
    next unowned => exact ⟨implements, rfl, by simp [unowned]⟩
  | yieldlockSection first second =>
    exact yieldlockSection_matches implements (within second (by simp [Progress.mutexes])) runs
  | yieldlockQueued index => simp [callSection] at runs
  | yieldlockPopped index =>
    cases runs
    exact ⟨_, rfl, implements, rfl, rfl⟩
  | yieldlockUnlockSecond first second =>
    exact ⟨_, rfl, unlockId_matches implements (within second (by simp [Progress.mutexes])) runs⟩
  | yieldlockUnlockFirst first =>
    exact ⟨_, rfl, unlockId_matches implements (within first (by simp [Progress.mutexes])) runs⟩

end

variable {Memory Point Choice : Type*}

def Machine.Within (allocated : MutexId → Prop)
    (model : Machine (FifoLock Thread) Thread Memory Point) : Prop :=
  ∀ thread point progress, model.activity thread = .calling point progress →
    ∀ index ∈ progress.mutexes, allocated index

structure Simulates (allocated : MutexId → Prop)
    (machine : Machine (KthreadMutex Thread) Thread Memory Point)
    (model : Machine (FifoLock Thread) Thread Memory Point) : Prop where
  implements : Implements allocated machine.mutex model.mutex
  activity : machine.activity = model.activity
  memory : machine.memory = model.memory

def Machine.withFreeLocks (machine : Machine (KthreadMutex Thread) Thread Memory Point) :
    Machine (FifoLock Thread) Thread Memory Point :=
  { machine with mutex := fun _ => FifoLock.free }

theorem simulates_withFreeLocks {machine : Machine (KthreadMutex Thread) Thread Memory Point}
    (free : ∀ index, allocated index → (machine.mutex index).Refines FifoLock.free ∧
        (machine.mutex index).id = index.val) :
    Simulates allocated machine machine.withFreeLocks where
  implements := ⟨fun index isAllocated => (free index isAllocated).1,
    fun index isAllocated => (free index isAllocated).2⟩
  activity := rfl
  memory := rfl

variable [DecidableEq Thread]
variable {program : Program Thread Memory Point Choice}
variable {machine after : Machine (KthreadMutex Thread) Thread Memory Point}
variable {model : Machine (FifoLock Thread) Thread Memory Point}

theorem Simulates.step (simulates : Simulates allocated machine model)
    (within : model.Within allocated) {label : Thread × Choice}
    (stepTo : machine.step callSection program label = some after) :
    ∃ next, model.step lockSection program label = some next ∧
      Simulates allocated after next := by
  unfold Machine.step at stepTo ⊢
  rw [simulates.activity, simulates.memory] at stepTo
  cases activity : model.activity label.1 with
  | user point =>
    simp only [activity] at stepTo ⊢
    split at stepTo <;> cases stepTo
    next memory following accessed => exact ⟨_, rfl, simulates.implements, rfl, rfl⟩
  | calling point progress =>
    simp only [activity] at stepTo ⊢
    split at stepTo <;> cases stepTo
    rename_i outcome runs
    obtain ⟨meaning, performs, same⟩ := callSection_matches
      simulates.implements (within label.1 point progress activity) runs
    rw [performs]
    refine ⟨_, rfl, same.implements, ?_, ?_⟩
    · simp only [same.woken, same.result]
    · simp only [same.result]

/-- An invariant of the model that keeps the calls on allocated mutexes holds,
for some model, along every run of the machine. -/
theorem Simulates.reaches {guard : Machine (KthreadMutex Thread) Thread Memory Point →
      Thread × Choice → Prop}
    (simulates : Simulates allocated machine model)
    (invariant : Machine (FifoLock Thread) Thread Memory Point → Prop)
    (initially : invariant model)
    (within : ∀ model, invariant model → model.Within allocated)
    (preserved : ∀ machine model label next, Simulates allocated machine model → invariant model →
        guard machine label → model.step lockSection program label = some next → invariant next)
    (reaches : GuardedReaches (Machine.step callSection program) guard machine after) :
    ∃ model, Simulates allocated after model ∧ invariant model := by
  refine reaches.invariant (fun state => ∃ model, Simulates allocated state model ∧ invariant model)
    ⟨model, simulates, initially⟩ ?_
  rintro before label after ⟨model, simulates, holds⟩ allowed stepTo
  obtain ⟨next, modelStep, nextSimulates⟩ := simulates.step (within model holds) stepTo
  exact ⟨next, nextSimulates, preserved before model label next simulates holds allowed modelStep⟩

end Simulation

end MutexCalls

end Xv6Kthreads
