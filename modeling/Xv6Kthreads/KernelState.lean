import Xv6Kthreads.MutexHandoff
import Mathlib.Data.List.FinRange

/-!
# Process, thread and mutex tables

This file embeds the data that the scheduler, the process calls and the mutex
calls share: the process table with its thread slots, the mutex table, and for
each processor the thread it runs together with the place in the kernel where
that thread stands.  The functions that only rearrange these tables
(`wakeup1`, `procIsAlive`, `sched` and the scans of `scheduler`, `wait` and
`kthread_join`) are embedded here as well.
-/

namespace Xv6Kthreads

open Function

def NPROC : Nat := 64

def MAX_MUTEXES : Nat := 64

theorem one_lt_nproc : 1 < NPROC := by decide

theorem maxMutexes_pos : 0 < MAX_MUTEXES := by decide

theorem one_lt_maxMutexes : 1 < MAX_MUTEXES := by decide

theorem two_lt_maxMutexes : 2 < MAX_MUTEXES := by decide

/-- `enum state`, used for processes and threads. -/
inductive RunState where
  | unused
  | embryo
  | sleeping
  | runnable
  | running
  | zombie
  | blocked
  | unblocked
  deriving DecidableEq, Repr

abbrev ProcId := Fin NPROC

/-- A pointer to a thread: an entry of some process's `threads` array. -/
abbrev Slot := Fin NPROC × Fin NTHREAD

abbrev MutexId := Fin MAX_MUTEXES

inductive Chan where
  | proc (process : ProcId)
  | thread (slot : Slot)
  | address (value : Nat)
  deriving DecidableEq, Repr

/-- The calls of `sleep`: `other` stands for all kernel code that is not
embedded. -/
inductive SleepCall where
  | other
  | exiting
  | joining (id : Int)
  | waiting
  deriving DecidableEq, Repr

/-- Where the code of a thread stands between two sections under a spinlock.
`user` stands for everything outside the embedded functions. -/
inductive Location where
  | user
  | asleep (call : SleepCall)
  | lockQueued (mutex : MutexId)
  | lockResumed (mutex : MutexId)
  | yieldlockChecked (first second : MutexId)
  | yieldlockNoWaiter (first second : MutexId)
  | yieldlockUnlockFirst (first : MutexId)
  | yieldlockResumed (second : MutexId)
  | createAllocated (slot : Slot)
  | forkAllocated (process : ProcId)
  | forkCopied (process : ProcId)
  | exiting
  | joining (id : Int)
  | waiting
  | zombieExit
  deriving DecidableEq, Repr

def SleepCall.resume : SleepCall → Location
  | .other => .user
  | .exiting => .exiting
  | .joining id => .joining id
  | .waiting => .waiting

/-- `struct thread`.  The `proc` pointer of a thread in use is the process
whose array holds it; the trap frame is not read by the embedded functions.
`incarnation` counts, for the statements only, the allocations of the slot. -/
structure Thread where
  kstack : Option Nat
  state : RunState
  pid : Int
  context : Option Location
  chan : Option Chan
  incarnation : Nat

structure Proc where
  state : RunState
  pid : Int
  parent : Option ProcId
  killed : Bool
  numOfThreads : Int

/-- An entry of a mutex's waiter array: the thread pointer and, for the
statements only, the incarnation of the slot at the push. -/
structure QueueEntry where
  slot : Slot
  incarnation : Nat
  deriving DecidableEq, Repr

/-- The kernel between two sections.  `running` gives for each processor its
current thread and where that thread stands, or `none` inside `scheduler`;
`cursor` is the position of the scheduler's loop. -/
structure Kernel (Cpu : Type*) where
  proc : ProcId → Proc
  thread : Slot → Thread
  nextpid : Int
  mutex : MutexId → KthreadMutex QueueEntry
  running : Cpu → Option (Slot × Location)
  cursor : Cpu → Nat

def initproc : ProcId := ⟨0, by decide⟩

def mainThread (process : ProcId) : Slot :=
  (process, ⟨0, nthread_pos⟩)

def RunState.Dead (state : RunState) : Prop :=
  state = .zombie ∨ state = .unused

instance (state : RunState) : Decidable state.Dead :=
  inferInstanceAs (Decidable (_ ∨ _))

namespace Kernel

variable {Cpu : Type*}

section Tables

variable (kernel : Kernel Cpu)

def setThread (slot : Slot) (thread : Thread) : Kernel Cpu :=
  { kernel with thread := update kernel.thread slot thread }

def setState (slot : Slot) (state : RunState) : Kernel Cpu :=
  kernel.setThread slot { kernel.thread slot with state := state }

variable (process : ProcId)

def setProc (entry : Proc) : Kernel Cpu :=
  { kernel with proc := update kernel.proc process entry }

def setKilled : Kernel Cpu :=
  kernel.setProc process { kernel.proc process with killed := true }

def setMutex (index : MutexId) (mutex : KthreadMutex QueueEntry) : Kernel Cpu :=
  { kernel with mutex := update kernel.mutex index mutex }

def wakeup1 (chan : Option Chan) : Kernel Cpu :=
  { kernel with
    thread := fun slot =>
      if (kernel.thread slot).state = .sleeping ∧ (kernel.thread slot).chan = chan then
        { kernel.thread slot with state := .runnable }
      else
        kernel.thread slot }

def procIsAlive : Bool :=
  (List.finRange NTHREAD).any fun index =>
    decide (¬ (kernel.thread (process, index)).state.Dead)

/-- The tests of `scheduler`'s two loops.  The test of a process is not made
again for a process inside whose loop the position lies. -/
def eligible (position : Nat) (slot : Slot) : Bool :=
  (decide (slot.1.val * NTHREAD < position) || !(decide ((kernel.proc slot.1).numOfThreads > 0) &&
      (kernel.proc slot.1).state != .runnable)) &&
    (kernel.thread slot).state == .runnable

/-- The next thread that `scheduler` finds from the given position of its
loops on. -/
def nextRunnable (position : Nat) : Option Slot :=
  (((List.finRange NPROC).flatMap fun process =>
    (List.finRange NTHREAD).map fun index => (process, index)).drop
      position).find? (kernel.eligible position)

def unusedThread : Option Slot :=
  ((List.finRange NTHREAD).find? fun index =>
    (kernel.thread (process, index)).state == .unused).map fun index =>
      (process, index)

def unusedProc : Option ProcId :=
  (List.finRange NPROC).find? fun process =>
    (kernel.proc process).state == .unused

def joinable (id : Int) : Option Slot :=
  ((List.finRange NTHREAD).find? fun index =>
    (kernel.thread (process, index)).pid == id &&
      (kernel.thread (process, index)).state == .zombie).map fun index =>
        (process, index)

/-- The thread on which `kthread_join` sleeps: the last one with the id. -/
def joinTarget (id : Int) : Option Slot :=
  ((List.finRange NTHREAD).reverse.find? fun index =>
    (kernel.thread (process, index)).pid == id).map fun index =>
      (process, index)

def zombieChild : Option ProcId :=
  (List.finRange NPROC).find? fun child =>
    (kernel.proc child).parent == some process && (kernel.proc child).state == .zombie

def haveKids : Bool :=
  (List.finRange NPROC).any fun child =>
    (kernel.proc child).parent == some process

end Tables

section Fields

variable (kernel : Kernel Cpu) (slot : Slot)

@[simp]
theorem setMutex_thread (index : MutexId) (mutex : KthreadMutex QueueEntry) :
    (kernel.setMutex index mutex).thread = kernel.thread :=
  rfl

@[simp]
theorem setProc_thread (process : ProcId) (entry : Proc) :
    (kernel.setProc process entry).thread = kernel.thread :=
  rfl

@[simp]
theorem setKilled_thread (process : ProcId) : (kernel.setKilled process).thread = kernel.thread :=
  rfl

theorem setKilled_proc_state (process other : ProcId) :
    ((kernel.setKilled process).proc other).state = (kernel.proc other).state := by
  rcases eq_or_ne other process with rfl | same
  · simp [setKilled, setProc]
  · simp [setKilled, setProc, same]

/-- Storing a thread record with the incarnation of its slot. -/
@[simp]
theorem setThread_incarnation {slot : Slot} {thread : Thread}
    (same : thread.incarnation = (kernel.thread slot).incarnation) (other : Slot) :
    ((kernel.setThread slot thread).thread other).incarnation =
      (kernel.thread other).incarnation := by
  rcases eq_or_ne other slot with rfl | equal
  · simpa [setThread] using same
  · simp [setThread, update_of_ne equal]

@[simp]
theorem setState_incarnation (state : RunState) (other : Slot) :
    ((kernel.setState slot state).thread other).incarnation =
      (kernel.thread other).incarnation := by
  apply setThread_incarnation
  rfl

end Fields

/-- What `kthread_join` and `wait` store into a thread they reap. -/
def reapThread (thread : Thread) : Thread :=
  { thread with
    chan := none
    context := none
    pid := 0
    state := .unused }

variable [DecidableEq Cpu] (kernel : Kernel Cpu)

/-- Processor `cpu` goes on with `slot` at `location`. -/
def goTo (cpu : Cpu) (slot : Slot) (location : Location) : Kernel Cpu :=
  { kernel with
    running := update kernel.running cpu (some (slot, location)) }

/-- `sched`: the thread's context is saved and its processor goes back to
`scheduler`. -/
def sched (cpu : Cpu) (slot : Slot) (location : Location) : Kernel Cpu :=
  { kernel.setThread slot { kernel.thread slot with context := some location } with
    running := update kernel.running cpu none }

@[simp]
theorem goTo_thread (cpu : Cpu) (slot : Slot) (location : Location) :
    (kernel.goTo cpu slot location).thread = kernel.thread :=
  rfl

@[simp]
theorem sched_incarnation (cpu : Cpu) (slot : Slot) (location : Location) (other : Slot) :
    ((kernel.sched cpu slot location).thread other).incarnation =
      (kernel.thread other).incarnation := by
  apply setThread_incarnation
  rfl

end Kernel

end Xv6Kthreads
