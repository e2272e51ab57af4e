import Xv6Kthreads.BoundedQueue

/-!
# The waiter queue of a kthread mutex

A kernel mutex keeps its waiting threads in an array of `NTHREAD` pointers.
`pushThreadToMutexQueue` writes behind the last entry; `popThreadToMutexQueue`
takes the first entry and shifts the others down until it meets a null one.
This file embeds the mutex record with these functions and relates the array
to the list of threads it holds.
-/

namespace Xv6Kthreads

open Function

/-- Size of a process's thread table and of a mutex's waiter array. -/
def NTHREAD : Nat := 16

theorem nthread_pos : 0 < NTHREAD := by decide

theorem one_lt_nthread : 1 < NTHREAD := by decide

inductive MutexState where
  | unusedMutex
  | usedMutex
  deriving DecidableEq, Repr

/-- `struct kthread_mutex_t`, without the pointer to `queueLock`. -/
structure KthreadMutex (Thread : Type*) where
  state : MutexState
  id : Int
  locked : Bool
  threadsQueue : Fin NTHREAD → Option Thread
  first : Fin NTHREAD
  last : Nat

namespace KthreadMutex

variable {Thread : Type*} (mutex : KthreadMutex Thread)

def emptyQueue : Bool :=
  (mutex.threadsQueue ⟨0, nthread_pos⟩).isNone

/-- `pushThreadToMutexQueue`; `none` is the panic on a full array. -/
def pushThreadToMutexQueue (thread : Thread) (mutex : KthreadMutex Thread) :
    Option (KthreadMutex Thread) :=
  if room : mutex.last < NTHREAD then
    some { mutex with
      threadsQueue := update mutex.threadsQueue ⟨mutex.last, room⟩ (some thread)
      last := mutex.last + 1 }
  else
    none

theorem loopIndex_lt (remaining : Nat) : NTHREAD - (remaining + 1) < NTHREAD := by
  unfold NTHREAD
  omega

theorem previousIndex_lt (remaining : Nat) : NTHREAD - (remaining + 1) - 1 < NTHREAD := by
  unfold NTHREAD
  omega

/-- The loop of `popThreadToMutexQueue` with `remaining` iterations to go, so
that the loop variable is `NTHREAD - remaining`. -/
def shiftThreadsQueue (queue : Fin NTHREAD → Option Thread) : Nat → Fin NTHREAD → Option Thread
  | 0 => queue
  | remaining + 1 =>
    let index : Fin NTHREAD := ⟨NTHREAD - (remaining + 1), loopIndex_lt remaining⟩
    let previous : Fin NTHREAD := ⟨NTHREAD - (remaining + 1) - 1, previousIndex_lt remaining⟩
    let shifted := update queue previous (queue index)
    if (shifted index).isNone then
      shifted
    else
      shiftThreadsQueue shifted remaining

/-- The mutex that `popThreadToMutexQueue` leaves behind. -/
def dropFirstThread : KthreadMutex Thread :=
  { mutex with
    threadsQueue :=
      update (shiftThreadsQueue mutex.threadsQueue (NTHREAD - 1)) ⟨NTHREAD - 1, by decide⟩ none
    last := mutex.last - 1 }

/-- `popThreadToMutexQueue`; `none` is the panic on a null first entry. -/
def popThreadToMutexQueue : Option (Thread × KthreadMutex Thread) :=
  match mutex.threadsQueue mutex.first with
  | none => none
  | some thread => some (thread, mutex.dropFirstThread)

def zeroed : KthreadMutex Thread where
  state := .unusedMutex
  id := 0
  locked := false
  threadsQueue _ := none
  first := ⟨0, by decide⟩
  last := 0

/-- What `kthread_mutex_alloc` stores into the unused entry it takes. -/
def allocate (index : Int) (mutex : KthreadMutex Thread) : KthreadMutex Thread :=
  { mutex with
    state := .usedMutex
    id := index
    last := 0
    first := ⟨0, by decide⟩ }

/-- The mutex's array and its two indices describe the waiter list
`waiters`. -/
structure Waiting (mutex : KthreadMutex Thread) (waiters : List Thread) : Prop where
  stored : BoundedQueue.Represents mutex.threadsQueue waiters
  first_eq : mutex.first = ⟨0, by decide⟩
  last_eq : mutex.last = waiters.length

variable {mutex : KthreadMutex Thread}

theorem zeroed_waiting : (zeroed : KthreadMutex Thread).Waiting [] :=
  ⟨BoundedQueue.represents_nil, rfl, rfl⟩

theorem Waiting.allocate (waiting : mutex.Waiting []) (index : Int) :
    (mutex.allocate index).Waiting [] :=
  ⟨waiting.stored, rfl, rfl⟩

variable {waiters : List Thread}

theorem Waiting.emptyQueue_iff (waiting : mutex.Waiting waiters) :
    mutex.emptyQueue = true ↔ waiters = [] := by
  rw [emptyQueue, Option.isNone_iff_eq_none]
  exact waiting.stored.front_eq_none_iff (by decide)

theorem Waiting.with_locked (waiting : mutex.Waiting waiters) (locked : Bool) :
    Waiting { mutex with locked } waiters :=
  { waiting with }

/-- A push that does not panic appends the thread and changes nothing else of
the mutex. -/
theorem Waiting.push {pushed : KthreadMutex Thread} {thread : Thread}
    (waiting : mutex.Waiting waiters) (result : mutex.pushThreadToMutexQueue thread = some pushed) :
    pushed.Waiting (waiters ++ [thread]) ∧ pushed.state = mutex.state ∧
      pushed.id = mutex.id ∧ pushed.locked = mutex.locked := by
  unfold pushThreadToMutexQueue at result
  split at result <;> cases result
  rename_i room
  have roomForItem : waiters.length < NTHREAD := by
    rw [← waiting.last_eq]
    exact room
  have sameEnd : (⟨mutex.last, room⟩ : Fin NTHREAD) =
      ⟨waiters.length, roomForItem⟩ := Fin.ext waiting.last_eq
  refine ⟨⟨?_, waiting.first_eq, by simp [waiting.last_eq]⟩, rfl, rfl, rfl⟩
  simpa only [sameEnd] using waiting.stored.push roomForItem thread

/-- Before the iteration with loop variable `NTHREAD - remaining`, the entries
below it have been shifted and the others are as at the start. -/
private theorem shiftThreadsQueue_apply (thread : Thread)
    (waiters : List Thread) (remaining : Nat) (positive : remaining < NTHREAD)
    (queue : Fin NTHREAD → Option Thread)
    (partlyShifted : ∀ index : Fin NTHREAD, queue index =
        if index.val + 1 < NTHREAD - remaining then waiters[index.val]?
        else (thread :: waiters)[index.val]?)
    (index : Fin NTHREAD) (beforeLast : index.val < NTHREAD - 1) :
    shiftThreadsQueue queue remaining index = waiters[index.val]? := by
  induction remaining generalizing queue with
  | zero => rw [shiftThreadsQueue, partlyShifted, if_pos (by omega)]
  | succ remaining ih =>
    have current : queue ⟨NTHREAD - (remaining + 1), by omega⟩ =
        waiters[NTHREAD - (remaining + 1) - 1]? := by
      rw [partlyShifted, if_neg (by simp)]
      have successor : NTHREAD - (remaining + 1) = (NTHREAD - (remaining + 1) - 1) + 1 := by omega
      change (thread :: waiters)[NTHREAD - (remaining + 1)]? = _
      rw [successor, List.getElem?_cons_succ, ← successor]
    have shifted : ∀ other : Fin NTHREAD, update queue ⟨NTHREAD - (remaining + 1) - 1, by omega⟩
            (queue ⟨NTHREAD - (remaining + 1), by omega⟩) other =
          if other.val + 1 < NTHREAD - remaining then waiters[other.val]?
          else (thread :: waiters)[other.val]? := by
      intro other
      rcases eq_or_ne other (⟨NTHREAD - (remaining + 1) - 1, by omega⟩) with rfl | written
      · rw [update_self, current, if_pos (by simp; omega)]
      · have otherNe : other.val ≠ NTHREAD - (remaining + 1) - 1 :=
          fun equal => written (Fin.ext equal)
        rw [update_of_ne written, partlyShifted]
        by_cases below : other.val + 1 < NTHREAD - (remaining + 1)
        · rw [if_pos below, if_pos (by omega)]
        · rw [if_neg below, if_neg (by omega)]
    simp only [shiftThreadsQueue]
    split
    next reachedNull =>
      rw [Option.isNone_iff_eq_none, update_of_ne (by simp [Fin.ext_iff]; omega),
        current] at reachedNull
      have short : waiters.length ≤ NTHREAD - (remaining + 1) - 1 :=
        List.getElem?_eq_none_iff.mp reachedNull
      rw [shifted]
      split
      · rfl
      next beyond => rw [List.getElem?_eq_none (by simp; omega), List.getElem?_eq_none (by omega)]
    next => exact ih (by omega) _ shifted

@[simp]
theorem dropFirstThread_state (mutex : KthreadMutex Thread) :
    mutex.dropFirstThread.state = mutex.state :=
  rfl

@[simp]
theorem dropFirstThread_id (mutex : KthreadMutex Thread) : mutex.dropFirstThread.id = mutex.id :=
  rfl

@[simp]
theorem dropFirstThread_locked (mutex : KthreadMutex Thread) :
    mutex.dropFirstThread.locked = mutex.locked :=
  rfl

theorem Waiting.pop {thread : Thread} (waiting : mutex.Waiting (thread :: waiters)) :
    mutex.popThreadToMutexQueue = some (thread, mutex.dropFirstThread) ∧
      mutex.dropFirstThread.Waiting waiters := by
  have oldest : mutex.threadsQueue mutex.first = some thread := by
    rw [waiting.first_eq, waiting.stored.2]
    rfl
  have bounded : waiters.length < NTHREAD := by
    simpa [Nat.succ_le_iff] using waiting.stored.1
  refine ⟨by simp only [popThreadToMutexQueue, oldest], ?_⟩
  refine ⟨⟨Nat.le_of_lt bounded, ?_⟩, waiting.first_eq, by simp [dropFirstThread, waiting.last_eq]⟩
  intro index
  simp only [dropFirstThread]
  rcases eq_or_ne index ⟨NTHREAD - 1, by decide⟩ with rfl | atEnd
  · rw [update_self, List.getElem?_eq_none (by simp; omega)]
  · have indexNe : index.val ≠ NTHREAD - 1 := fun equal =>
      atEnd (Fin.ext equal)
    rw [update_of_ne atEnd]
    apply shiftThreadsQueue_apply thread waiters (NTHREAD - 1) (by decide)
    · intro other
      rw [if_neg (by omega), waiting.stored.2]
    · omega

theorem Waiting.front (waiting : mutex.Waiting waiters) :
    mutex.popThreadToMutexQueue.map Prod.fst = waiters.head? := by
  cases waiters with
  | nil => simp [popThreadToMutexQueue, waiting.first_eq, waiting.stored.2]
  | cons thread rest => simp [waiting.pop.1]

/-- A call on the waiter queue. -/
inductive QueueCall (Thread : Type*) where
  | push (thread : Thread)
  | pop

namespace QueueCall

def pushed : QueueCall Thread → Option Thread
  | push thread => some thread
  | pop => none

/-- A call that is allowed, with the list of the threads popped so far. -/
def run (state : List Thread × KthreadMutex Thread) :
    QueueCall Thread → Option (List Thread × KthreadMutex Thread)
  | push thread =>
    if state.2.last < NTHREAD then
      (state.2.pushThreadToMutexQueue thread).map (state.1, ·)
    else
      none
  | pop =>
    if state.2.emptyQueue then
      none
    else
      state.2.popThreadToMutexQueue.map fun (thread, after) => (state.1 ++ [thread], after)

end QueueCall

/-- The threads popped before and those still waiting are the pushed ones. -/
theorem Waiting.run {state after : List Thread × KthreadMutex Thread}
    {calls : List (QueueCall Thread)} (waiting : state.2.Waiting waiters)
    (result : calls.foldlM QueueCall.run state = some after) :
    ∃ left, after.2.Waiting left ∧
      state.1 ++ waiters ++ calls.filterMap QueueCall.pushed = after.1 ++ left := by
  induction calls generalizing state waiters with
  | nil =>
    cases result
    exact ⟨waiters, waiting, List.append_nil _⟩
  | cons call calls induction =>
    obtain ⟨middle, ran, result⟩ := Option.bind_eq_some_iff.mp result
    cases call with
    | push thread =>
      obtain ⟨-, pushes⟩ := Option.ite_none_right_eq_some.mp ran
      obtain ⟨pushed, isPushed, rfl⟩ := Option.map_eq_some_iff.mp pushes
      obtain ⟨left, leftWaiting, all⟩ := induction (waiting.push isPushed).1 result
      exact ⟨left, leftWaiting, by simpa [QueueCall.pushed] using all⟩
    | pop =>
      obtain ⟨notEmpty, pops⟩ := Option.ite_none_left_eq_some.mp ran
      rw [waiting.emptyQueue_iff] at notEmpty
      obtain ⟨thread, rest, rfl⟩ := List.exists_cons_of_ne_nil notEmpty
      rw [waiting.pop.1] at pops
      cases pops
      obtain ⟨left, leftWaiting, all⟩ := induction waiting.pop.2 result
      exact ⟨left, leftWaiting, by simpa [List.filterMap_cons, QueueCall.pushed] using all⟩

/-- Allowed calls on an empty queue leave the threads that are pushed and not
yet popped, in order; they do not panic, and a pop returns the oldest. -/
theorem waiterQueue_fifo {start after : KthreadMutex Thread} {calls : List (QueueCall Thread)}
    {popped : List Thread} (empty : start.Waiting [])
    (result : calls.foldlM QueueCall.run ([], start) = some (popped, after)) :
    ∃ waiters, calls.filterMap QueueCall.pushed = popped ++ waiters ∧
      (∀ index, after.threadsQueue index = waiters[index.val]?) ∧
      after.last = waiters.length ∧ after.first = ⟨0, nthread_pos⟩ ∧
      (after.emptyQueue = true ↔ after.last = 0) ∧
      (after.last < NTHREAD → ∀ thread, (after.pushThreadToMutexQueue thread).isSome) ∧
      after.popThreadToMutexQueue.map Prod.fst = waiters.head? := by
  obtain ⟨waiters, waiting, all⟩ := Waiting.run empty result
  dsimp only at waiting
  refine ⟨waiters, all, waiting.stored.2, waiting.last_eq, waiting.first_eq, ?_, ?_, ?_⟩
  · rw [waiting.emptyQueue_iff, waiting.last_eq, List.length_eq_zero_iff]
  · intro room thread
    simp [pushThreadToMutexQueue, room]
  · exact waiting.front

theorem waiterQueue_fifo_full : ∃ popped after, ((List.range 16).map QueueCall.push ++
      [QueueCall.pop]).foldlM QueueCall.run ([], zeroed) = some (popped, after) ∧
    ∃ waiters, List.range 16 = popped ++ waiters ∧ after.last = waiters.length := by
  obtain ⟨⟨popped, after⟩, result⟩ := Option.isSome_iff_exists.mp (show (((List.range 16).map
    QueueCall.push ++ [QueueCall.pop]).foldlM QueueCall.run ([], zeroed)).isSome by decide +kernel)
  obtain ⟨waiters, all, -, length, -⟩ := waiterQueue_fifo zeroed_waiting result
  exact ⟨popped, after, result, waiters, all, length⟩

end KthreadMutex

end Xv6Kthreads
