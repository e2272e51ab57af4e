import Xv6Kthreads.FifoLock
import Xv6Kthreads.LabelledRun
import Xv6Kthreads.MutexQueue
import Mathlib.Data.List.Nodup
import Mathlib.Data.Fintype.Card

/-!
# Ownership hand-over of kthread mutexes

`kthread_mutex_lock` and `kthread_mutex_unlock` do their work in sections under
the mutex's `queueLock`.  A thread that finds the mutex locked queues itself in
one section and, once `kthread_mutex_unlock` has popped it, finishes in a
second one; the mutex stays locked in between.  This file embeds the sections,
shows that they refine the abstract hand-over lock, and derives mutual
exclusion and first-come first-served hand-over for every interleaving.
-/

namespace Xv6Kthreads

open Function Option

namespace KthreadMutex

variable {Thread : Type*}

/-- How the first section of `kthread_mutex_lock` leaves its caller. -/
inductive LockOutcome where
  | returned (value : Int)
  | queued
  deriving DecidableEq, Repr

/-- `kthread_mutex_lock` up to its return, or up to the release of `queueLock`
after the push; `none` is a kernel panic. -/
def kthreadMutexLockEnter (thread : Thread) (mutex : KthreadMutex Thread) :
    Option (LockOutcome × KthreadMutex Thread) :=
  if mutex.state = .unusedMutex then
    some (.returned (-1), mutex)
  else if mutex.locked then
    (mutex.pushThreadToMutexQueue thread).map fun pushed => (.queued, pushed)
  else
    some (.returned 0, { mutex with locked := true })

/-- The last section of `kthread_mutex_lock`, run by a thread that waited. -/
def kthreadMutexLockResume (mutex : KthreadMutex Thread) : KthreadMutex Thread :=
  { mutex with locked := true }

/-- `kthread_mutex_unlock`: the returned value, the thread made runnable and
the mutex after it; `none` is a kernel panic. -/
def kthreadMutexUnlock (mutex : KthreadMutex Thread) :
    Option (Int × Option Thread × KthreadMutex Thread) :=
  if mutex.state = .unusedMutex then
    some (-1, none, mutex)
  else if !mutex.locked then
    some (-1, none, mutex)
  else if !mutex.emptyQueue then
    (mutex.popThreadToMutexQueue).map fun (thread, popped) =>
      (0, some thread, popped)
  else
    some (0, none, { mutex with locked := false })

variable {waiters : List Thread}

variable {mutex : KthreadMutex Thread}

/-- What the first section of a lock call can do to a mutex with a well-formed
queue. -/
theorem Waiting.lockEnter_cases {entered : KthreadMutex Thread}
    {thread : Thread} {outcome : LockOutcome} (waiting : mutex.Waiting waiters)
    (result : mutex.kthreadMutexLockEnter thread = some (outcome, entered)) :
    (∃ value, outcome = .returned value ∧ entered.Waiting waiters ∧ entered.state = mutex.state ∧
          (entered.locked = false → mutex.locked = false)) ∨
      (outcome = .queued ∧ mutex.state = .usedMutex ∧ mutex.locked = true ∧
        entered.Waiting (waiters ++ [thread]) ∧
          entered.state = mutex.state ∧ entered.locked = true) := by
  unfold kthreadMutexLockEnter at result
  split at result
  next =>
    cases result
    exact Or.inl ⟨-1, rfl, waiting, rfl, fun unlocked => unlocked⟩
  next used =>
    split at result
    next locked =>
      simp only [map_eq_some_iff, Prod.mk.injEq] at result
      obtain ⟨pushed, pushResult, rfl, rfl⟩ := result
      obtain ⟨pushedWaiting, stateEq, -, lockedEq⟩ := waiting.push pushResult
      have isUsed : mutex.state = .usedMutex := by
        cases stateIs : mutex.state with
        | unusedMutex => exact absurd stateIs used
        | usedMutex => rfl
      exact Or.inr ⟨rfl, isUsed, locked, pushedWaiting, stateEq, lockedEq.trans locked⟩
    next =>
      cases result
      exact Or.inl ⟨0, rfl, waiting.with_locked true, rfl, by simp⟩

/-- What an unlock call can do to a mutex with a well-formed queue. -/
theorem Waiting.unlock_cases {released : KthreadMutex Thread}
    {value : Int} {woken : Option Thread} (waiting : mutex.Waiting waiters)
    (result : mutex.kthreadMutexUnlock = some (value, woken, released)) :
    (woken = none ∧ released.Waiting waiters ∧ released.state = mutex.state ∧
          (released.locked = false → mutex.locked = false ∨ waiters = [])) ∨
      (∃ next rest, waiters = next :: rest ∧ woken = some next ∧
        mutex.state = .usedMutex ∧ mutex.locked = true ∧
          released = mutex.dropFirstThread ∧ released.Waiting rest) := by
  unfold kthreadMutexUnlock at result
  split at result
  next =>
    obtain ⟨-, rfl, rfl⟩ := result
    exact Or.inl ⟨rfl, waiting, rfl, Or.inl⟩
  next used =>
    split at result
    next =>
      obtain ⟨-, rfl, rfl⟩ := result
      exact Or.inl ⟨rfl, waiting, rfl, Or.inl⟩
    next locked =>
      have isLocked : mutex.locked = true := by simpa using locked
      split at result
      next notEmpty =>
        cases waiters with
        | nil => simp [waiting.emptyQueue_iff.mpr rfl] at notEmpty
        | cons next rest =>
          obtain ⟨popResult, popped⟩ := waiting.pop
          simp only [popResult, map_some, some.injEq, Prod.mk.injEq] at result
          obtain ⟨-, rfl, rfl⟩ := result
          have isUsed : mutex.state = .usedMutex := by
            cases stateIs : mutex.state with
            | unusedMutex => exact absurd stateIs used
            | usedMutex => rfl
          exact Or.inr ⟨next, rest, rfl, rfl, isUsed, isLocked, rfl, popped⟩
      next empty =>
        obtain ⟨-, rfl, rfl⟩ := result
        have alone : waiters = [] := waiting.emptyQueue_iff.mp (by simpa using empty)
        exact Or.inl ⟨rfl, waiting.with_locked false, rfl, fun _ => Or.inr alone⟩

structure Refines (mutex : KthreadMutex Thread) (lock : FifoLock Thread) : Prop where
  used : mutex.state = .usedMutex
  locked_eq : mutex.locked = lock.owner.isSome
  waiting : mutex.Waiting lock.waiters

/-- A mutex whose last owner released it is free again once reallocated. -/
theorem refines_free_allocate (waiting : mutex.Waiting []) (unlocked : mutex.locked = false)
    (index : Int) : (mutex.allocate index).Refines FifoLock.free :=
  ⟨rfl, unlocked, waiting.allocate index⟩

variable {lock : FifoLock Thread}

theorem Refines.lockEnter_of_free (refines : mutex.Refines lock)
    (unowned : lock.owner = none) (thread : Thread) :
    ∃ entered, mutex.kthreadMutexLockEnter thread = some (.returned 0, entered) ∧
        entered.Refines (lock.request thread) := by
  have notLocked : mutex.locked = false := by
    simp [refines.locked_eq, unowned]
  refine ⟨{ mutex with locked := true }, ?_, ?_⟩
  · simp [kthreadMutexLockEnter, refines.used, notLocked]
  · rw [FifoLock.request_of_owner_none unowned]
    refine ⟨refines.used, rfl, ?_⟩
    have waiting := refines.waiting.with_locked true
    rw [lock.waiters_eq_nil unowned] at waiting
    exact waiting

variable {owner : Thread}

section

variable {mutex : KthreadMutex Thread} (refines : mutex.Refines lock)
  (owned : lock.owner = some owner)
include refines owned

theorem Refines.lockEnter_of_owned {thread : Thread} {outcome : LockOutcome}
    {entered : KthreadMutex Thread}
    (result : mutex.kthreadMutexLockEnter thread = some (outcome, entered)) :
    outcome = .queued ∧ entered.Refines (lock.request thread) := by
  have locked : mutex.locked = true := by
    simp [refines.locked_eq, owned]
  simp only [kthreadMutexLockEnter, refines.used, reduceCtorEq, if_false,
    locked, if_true, map_eq_some_iff, Prod.mk.injEq] at result
  obtain ⟨pushed, pushResult, rfl, rfl⟩ := result
  obtain ⟨waiting, stateEq, -, lockedEq⟩ := refines.waiting.push pushResult
  refine ⟨rfl, ?_⟩
  rw [FifoLock.request_of_owner_some owned]
  exact ⟨stateEq.trans refines.used, by simp [lockedEq, locked], waiting⟩

/-- The last section of a waiting lock call changes nothing: its caller already
owns the mutex. -/
theorem Refines.lockResume :
    mutex.kthreadMutexLockResume.Refines lock :=
  ⟨refines.used, by simp [kthreadMutexLockResume, owned], refines.waiting.with_locked true⟩

theorem Refines.unlock_of_alone (alone : lock.waiters = []) :
    ∃ released, mutex.kthreadMutexUnlock = some (0, none, released) ∧
      released.Refines lock.release := by
  have locked : mutex.locked = true := by
    simp [refines.locked_eq, owned]
  have empty : mutex.emptyQueue = true := refines.waiting.emptyQueue_iff.mpr alone
  refine ⟨{ mutex with locked := false }, ?_, ?_⟩
  · simp [kthreadMutexUnlock, refines.used, locked, empty]
  · rw [FifoLock.release_of_waiters_nil alone]
    refine ⟨refines.used, rfl, ?_⟩
    have waiting := refines.waiting.with_locked false
    rw [alone] at waiting
    exact waiting

theorem Refines.unlock_of_waiter {next : Thread} (waiting : lock.waiters = next :: waiters) :
    ∃ released, mutex.kthreadMutexUnlock = some (0, some next, released) ∧
      released.Refines lock.release := by
  have locked : mutex.locked = true := by
    simp [refines.locked_eq, owned]
  have listed := refines.waiting
  rw [waiting] at listed
  have notEmpty : mutex.emptyQueue = false := by
    rw [Bool.eq_false_iff]
    intro empty
    simpa using listed.emptyQueue_iff.mp empty
  obtain ⟨popResult, popped⟩ := listed.pop
  refine ⟨mutex.dropFirstThread, ?_, ?_⟩
  · simp [kthreadMutexUnlock, refines.used, locked, notEmpty, popResult]
  · rw [FifoLock.release_of_waiters_cons waiting]
    exact ⟨refines.used, by simpa using locked, popped⟩

end

/-- Unlocking a mutex that nobody owns fails without effect. -/
theorem Refines.unlock_of_free (refines : mutex.Refines lock) (unowned : lock.owner = none) :
    mutex.kthreadMutexUnlock = some (-1, none, mutex) := by
  have notLocked : mutex.locked = false := by
    simp [refines.locked_eq, unowned]
  simp [kthreadMutexUnlock, refines.used, notLocked]

end KthreadMutex

namespace MutexHandoff

open LabelledRun

variable {Thread : Type*}

/-- Where a thread stands with respect to the mutex. -/
inductive Phase where
  | outside
  | queued
  | popped
  deriving DecidableEq, Repr

/-- Threads calling `kthread_mutex_lock` and `kthread_mutex_unlock` on one
mutex.  `holds` marks the threads to which a lock call has returned zero and
that have not unlocked since; `pushes` and `handovers` record, for the
statements only, every thread queued so far and every thread popped so far. -/
structure State (Thread : Type*) where
  mutex : KthreadMutex Thread
  phase : Thread → Phase
  holds : Thread → Bool
  pushes : List Thread
  handovers : List Thread

/-- The sections that a thread can run under `queueLock`. -/
inductive Label (Thread : Type*) where
  | lockEnter (thread : Thread)
  | lockResume (thread : Thread)
  | unlock (thread : Thread)

def initial (mutex : KthreadMutex Thread) : State Thread where
  mutex := mutex
  phase _ := .outside
  holds _ := false
  pushes := []
  handovers := []

/-- One section.  A queued thread resumes only after it has been popped, and
only a thread that holds the mutex unlocks it. -/
def step [DecidableEq Thread] (state : State Thread) : Label Thread → Option (State Thread)
  | .lockEnter thread =>
    if state.phase thread = .outside then
      match state.mutex.kthreadMutexLockEnter thread with
      | none => none
      | some (.returned value, mutex) =>
        some { state with
          mutex := mutex
          holds := update state.holds thread (state.holds thread || value == 0) }
      | some (.queued, mutex) =>
        some { state with
          mutex := mutex
          phase := update state.phase thread .queued
          pushes := state.pushes ++ [thread] }
    else
      none
  | .lockResume thread =>
    if state.phase thread = .popped then
      some { state with
        mutex := state.mutex.kthreadMutexLockResume
        phase := update state.phase thread .outside
        holds := update state.holds thread true }
    else
      none
  | .unlock thread =>
    if state.phase thread = .outside ∧ state.holds thread then
      match state.mutex.kthreadMutexUnlock with
      | none => none
      | some (_, none, mutex) =>
        some { state with
          mutex := mutex
          holds := update state.holds thread false }
      | some (_, some next, mutex) =>
        some { state with
          mutex := mutex
          phase := update state.phase next .popped
          holds := update state.holds thread false
          handovers := state.handovers ++ [next] }
    else
      none

/-- The thread has returned from a lock call without having unlocked, or it
has been popped and not yet returned. -/
def State.Owner (state : State Thread) (thread : Thread) : Prop :=
  state.holds thread = true ∨ state.phase thread = .popped

structure Agrees (state : State Thread) (lock : FifoLock Thread) : Prop where
  refines : state.mutex.Refines lock
  owner_iff : ∀ thread, state.Owner thread ↔ lock.owner = some thread
  queued_iff : ∀ thread, state.phase thread = .queued ↔ thread ∈ lock.waiters
  nodup : lock.waiters.Nodup
  history : state.pushes = state.handovers ++ lock.waiters

theorem agrees_initial {mutex : KthreadMutex Thread} (refines : mutex.Refines FifoLock.free) :
    Agrees (initial mutex) FifoLock.free where
  refines := refines
  owner_iff := by simp [State.Owner, initial]
  queued_iff := by simp [initial]
  nodup := List.nodup_nil
  history := rfl

section Steps

variable [DecidableEq Thread] {state after : State Thread}
variable {lock : FifoLock Thread} {thread : Thread}

theorem agrees_lockEnter (agrees : Agrees state lock)
    (stepTo : step state (.lockEnter thread) = some after) :
    Agrees after (lock.request thread) := by
  simp only [step] at stepTo
  split at stepTo
  case isFalse => simp at stepTo
  case isTrue outside =>
    have notListed : thread ∉ lock.waiters := by
      rw [← agrees.queued_iff, outside]
      simp
    cases owned : lock.owner with
    | none =>
      obtain ⟨entered, result, refines⟩ := agrees.refines.lockEnter_of_free owned thread
      rw [result] at stepTo
      cases stepTo
      have noOwner : ∀ other, ¬ state.Owner other := by
        intro other
        rw [agrees.owner_iff, owned]
        simp
      have alone := lock.waiters_eq_nil owned
      rw [FifoLock.request_of_owner_none owned] at refines ⊢
      refine ⟨refines, ?_, ?_, List.nodup_nil, ?_⟩
      · intro other
        rcases eq_or_ne other thread with rfl | same
        · simp [State.Owner]
        · have := noOwner other
          simp only [State.Owner, not_or] at this
          simp [State.Owner, this, same, Ne.symm same]
      · intro other
        rw [agrees.queued_iff, alone]
        rfl
      · rw [agrees.history, alone]
        rfl
    | some owner =>
      cases result : state.mutex.kthreadMutexLockEnter thread with
      | none => simp [result] at stepTo
      | some entry =>
        obtain ⟨outcome, entered⟩ := entry
        obtain ⟨rfl, refines⟩ := agrees.refines.lockEnter_of_owned owned result
        rw [result] at stepTo
        cases stepTo
        rw [FifoLock.request_of_owner_some owned] at refines ⊢
        refine ⟨refines, ?_, ?_, ?_, ?_⟩
        · intro other
          rw [FifoLock.ownedBy_owner, ← owned, ← agrees.owner_iff]
          rcases eq_or_ne other thread with rfl | same
          · simp [State.Owner, outside]
          · simp [State.Owner, update_of_ne same]
        · intro other
          rcases eq_or_ne other thread with rfl | same
          · simp
          · simp [same, agrees.queued_iff]
        · rw [FifoLock.ownedBy_waiters, ← List.concat_eq_append]
          exact List.Nodup.concat notListed agrees.nodup
        · simp [agrees.history]

theorem agrees_lockResume (agrees : Agrees state lock)
    (stepTo : step state (.lockResume thread) = some after) :
    Agrees after lock := by
  simp only [step] at stepTo
  split at stepTo
  case isFalse => simp at stepTo
  case isTrue popped =>
    cases stepTo
    have owned : lock.owner = some thread := (agrees.owner_iff thread).mp (Or.inr popped)
    refine ⟨agrees.refines.lockResume owned, ?_, ?_, agrees.nodup, agrees.history⟩
    · intro other
      rcases eq_or_ne other thread with rfl | same
      · simp [State.Owner, owned]
      · rw [← agrees.owner_iff]
        simp [State.Owner, update_of_ne same]
    · intro other
      rw [← agrees.queued_iff]
      rcases eq_or_ne other thread with rfl | same
      · simp [popped]
      · simp [update_of_ne same]

theorem agrees_unlock (agrees : Agrees state lock)
    (stepTo : step state (.unlock thread) = some after) :
    Agrees after lock.release := by
  simp only [step] at stepTo
  split at stepTo
  case isFalse => simp at stepTo
  case isTrue allowed =>
    obtain ⟨outside, holds⟩ := allowed
    have owned : lock.owner = some thread := (agrees.owner_iff thread).mp (Or.inl holds)
    have othersDisown : ∀ other, other ≠ thread →
        state.holds other = false ∧ state.phase other ≠ .popped := by
      intro other differs
      have disowns : ¬ state.Owner other := by
        rw [agrees.owner_iff, owned]
        simpa using Ne.symm differs
      simpa [State.Owner] using disowns
    cases waiting : lock.waiters with
    | nil =>
      obtain ⟨released, result, refines⟩ := agrees.refines.unlock_of_alone owned waiting
      rw [result] at stepTo
      cases stepTo
      rw [FifoLock.release_of_waiters_nil waiting] at refines ⊢
      refine ⟨refines, ?_, ?_, List.nodup_nil, ?_⟩
      · intro other
        rcases eq_or_ne other thread with rfl | same
        · simp [State.Owner, outside]
        · simp [State.Owner, update_of_ne same, othersDisown other same]
      · intro other
        rw [agrees.queued_iff, waiting]
        rfl
      · rw [agrees.history, waiting]
        rfl
    | cons next waiters =>
      obtain ⟨released, result, refines⟩ := agrees.refines.unlock_of_waiter owned waiting
      rw [result] at stepTo
      cases stepTo
      have nodup := agrees.nodup
      rw [waiting, List.nodup_cons] at nodup
      have nextQueued : state.phase next = .queued :=
        (agrees.queued_iff next).mpr (by simp [waiting])
      have nextNe : next ≠ thread := by
        rintro rfl
        simp [outside] at nextQueued
      rw [FifoLock.release_of_waiters_cons waiting] at refines ⊢
      refine ⟨refines, ?_, ?_, nodup.2, ?_⟩
      · intro other
        rcases eq_or_ne other next with rfl | notNext
        · simp [State.Owner]
        · rcases eq_or_ne other thread with rfl | notThread
          · simp [State.Owner, update_of_ne notNext, outside, nextNe]
          · simp [State.Owner, update_of_ne notNext, update_of_ne notThread,
              othersDisown other notThread, Ne.symm notNext]
      · intro other
        rcases eq_or_ne other next with rfl | notNext
        · simp [nodup.1]
        · simp [notNext, agrees.queued_iff, waiting]
      · simp [agrees.history, waiting]

/-- Every section keeps the threads in agreement with a hand-over lock. -/
theorem exists_agrees_of_step {label : Label Thread} (agrees : ∃ lock, Agrees state lock)
    (stepTo : step state label = some after) : ∃ lock, Agrees after lock := by
  obtain ⟨lock, agrees⟩ := agrees
  cases label with
  | lockEnter thread => exact ⟨_, agrees_lockEnter agrees stepTo⟩
  | lockResume thread => exact ⟨_, agrees_lockResume agrees stepTo⟩
  | unlock thread => exact ⟨_, agrees_unlock agrees stepTo⟩

end Steps

/-- At most one thread owns the mutex, it is locked exactly while somebody owns
it, and it passes to waiters in the order of their pushes. -/
theorem mutual_exclusion_and_fifo_handover [DecidableEq Thread]
    {mutex : KthreadMutex Thread} {state : State Thread}
    (allocated : mutex.Refines FifoLock.free)
    (reaches : Reaches step (initial mutex) state) :
    (∀ first second, state.Owner first → state.Owner second → first = second) ∧
      (state.mutex.locked = true ↔ ∃ thread, state.Owner thread) ∧
      ∃ waiters, state.mutex.Waiting waiters ∧ state.pushes = state.handovers ++ waiters := by
  obtain ⟨lock, agrees⟩ := reaches.invariant
    (fun state => ∃ lock, Agrees state lock) ⟨_, agrees_initial allocated⟩
    fun _ _ _ agrees stepTo => exists_agrees_of_step agrees stepTo
  refine ⟨?_, ?_, lock.waiters, agrees.refines.waiting, agrees.history⟩
  · intro first second firstOwns secondOwns
    rw [agrees.owner_iff] at firstOwns secondOwns
    exact some.inj (firstOwns.symm.trans secondOwns)
  · rw [agrees.refines.locked_eq, isSome_iff_exists]
    simp only [agrees.owner_iff]

theorem mutual_exclusion_and_fifo_handover_two_threads : ∃ state : State Bool,
      runLabels step (initial (KthreadMutex.zeroed.allocate 0))
        [.lockEnter false, .lockEnter true, .unlock false] = some state ∧
      state.handovers = [true] ∧
      (∀ first second, state.Owner first → state.Owner second → first = second) ∧
      (state.mutex.locked = true ↔ ∃ thread, state.Owner thread) ∧
      ∃ waiters, state.mutex.Waiting waiters ∧ state.pushes = state.handovers ++ waiters :=
  ⟨_, rfl, rfl, mutual_exclusion_and_fifo_handover
    (KthreadMutex.refines_free_allocate KthreadMutex.zeroed_waiting rfl 0)
    (guardedReaches_of_runLabels [.lockEnter false, .lockEnter true, .unlock false] rfl)⟩

end MutexHandoff

end Xv6Kthreads
