import Mathlib.Data.Fin.VecNotation
import Xv6Kthreads.KernelStep

/-!
# User threads that make mutex system calls

The monitors and condition variables are user code: between two mutex system
calls their threads read and write shared memory.  Here one step of a thread is
one such access, or one section of a mutex call.  A thread that has been put
into a mutex queue goes on only after another one has taken it out.

The machine is written for any meaning of the sections, so that the kernel's
mutexes can be replaced by simpler ones.
-/

namespace Xv6Kthreads

open Function

namespace MutexCalls

/-- A mutex call as the kernel executes it. -/
inductive Call where
  | lock (mutex : MutexId)
  | unlock (mutex : MutexId)
  | yieldlock (first second : MutexId)
  deriving DecidableEq, Repr

def sysKthreadMutexLock (mutexId : MutexId) : Call :=
  .lock mutexId

def sysKthreadMutexUnlock (mutexId : MutexId) : Call :=
  .unlock mutexId

/-- `sys_kthread_mutex_yieldlock` fetches its first argument twice. -/
def sysKthreadMutexYieldlock (mutexId1 _mutexId2 : MutexId) : Call :=
  .yieldlock mutexId1 mutexId1

/-- The next section of a mutex call. -/
inductive Progress where
  | lockEnter (mutex : MutexId)
  | lockQueued (mutex : MutexId)
  | lockPopped (mutex : MutexId)
  | unlock (mutex : MutexId)
  | yieldlockTest (first second : MutexId)
  | yieldlockSection (first second : MutexId)
  | yieldlockQueued (mutex : MutexId)
  | yieldlockPopped (mutex : MutexId)
  | yieldlockUnlockSecond (first second : MutexId)
  | yieldlockUnlockFirst (first : MutexId)
  deriving DecidableEq, Repr

def Call.start : Call → Progress
  | .lock mutex => .lockEnter mutex
  | .unlock mutex => .unlock mutex
  | .yieldlock first second => .yieldlockTest first second

namespace Progress

def queue : Progress → Option MutexId
  | .lockQueued mutex => some mutex
  | .yieldlockQueued mutex => some mutex
  | _ => none

def wake : Progress → Progress
  | .lockQueued mutex => .lockPopped mutex
  | .yieldlockQueued mutex => .yieldlockPopped mutex
  | progress => progress

def mutexes : Progress → List MutexId
  | .lockEnter mutex => [mutex]
  | .lockQueued mutex => [mutex]
  | .lockPopped mutex => [mutex]
  | .unlock mutex => [mutex]
  | .yieldlockTest first second => [first, second]
  | .yieldlockSection first second => [first, second]
  | .yieldlockQueued mutex => [mutex]
  | .yieldlockPopped mutex => [mutex]
  | .yieldlockUnlockSecond first second => [first, second]
  | .yieldlockUnlockFirst first => [first]

end Progress

/-- How a section leaves its caller. -/
inductive Result where
  | continues (progress : Progress)
  | returned (value : Int)
  deriving DecidableEq, Repr

/-- The mutexes after a section, the thread that it took out of a queue, and
how it left its caller. -/
structure Outcome (Mutex Thread : Type*) where
  mutex : MutexId → Mutex
  woken : Option Thread
  result : Result

section Kernel

variable {Thread : Type*} (table : MutexId → KthreadMutex Thread)

def unlockSection (index : MutexId) (result : Int → Result) :
    Option (Outcome (KthreadMutex Thread) Thread) :=
  match (table index).kthreadMutexUnlock with
  | none => none
  | some (value, woken, mutex) => some ⟨update table index mutex, woken, result value⟩

/-- `kthread_mutex_unlock(id)` inside `kthread_mutex_yieldlock`; an id outside
the table is not followed. -/
def unlockId (id : Int) (result : Result) : Option (Outcome (KthreadMutex Thread) Thread) :=
  match Kernel.mutexIndex id with
  | none => none
  | some index => unlockSection table index fun _ => result

/-- The next section of a mutex call on the kernel's table; `none` is a panic
or a caller that waits. -/
def callSection (thread : Thread) : Progress → Option (Outcome (KthreadMutex Thread) Thread)
  | .lockEnter index =>
    match (table index).kthreadMutexLockEnter thread with
    | none => none
    | some (.returned value, mutex) => some ⟨update table index mutex, none, .returned value⟩
    | some (.queued, mutex) =>
      some ⟨update table index mutex, none, .continues (.lockQueued index)⟩
  | .lockQueued _ => none
  | .lockPopped index =>
    some ⟨update table index (table index).kthreadMutexLockResume, none, .returned 0⟩
  | .unlock index => unlockSection table index .returned
  | .yieldlockTest first second =>
    if (table first).locked then
      some ⟨table, none, .continues (.yieldlockSection first second)⟩
    else
      some ⟨table, none, .returned (-1)⟩
  | .yieldlockSection first second =>
    if !(table second).emptyQueue then
      match (table second).popThreadToMutexQueue with
      | none => none
      | some (popped, rest) =>
        match rest.pushThreadToMutexQueue thread with
        | none => none
        | some pushed =>
          some ⟨update table second pushed, some popped, .continues (.yieldlockQueued second)⟩
    else
      some ⟨table, none, .continues (.yieldlockUnlockSecond first second)⟩
  | .yieldlockQueued _ => none
  | .yieldlockPopped _ => some ⟨table, none, .returned 0⟩
  | .yieldlockUnlockSecond first second =>
    unlockId table (table second).id (.continues (.yieldlockUnlockFirst first))
  | .yieldlockUnlockFirst first => unlockId table (table first).id (.returned 0)

end Kernel

/-- What user code does after an access: go on, or make a mutex call. -/
inductive Next (Point : Type*) where
  | goTo (point : Point)
  | call (call : Call)

/-- A thread executes user code, or it is inside the mutex call that it made at
the point. -/
inductive Activity (Point : Type*) where
  | user (point : Point)
  | calling (point : Point) (progress : Progress)
  deriving DecidableEq

namespace Activity

variable {Point : Type*}

def queue : Activity Point → Option MutexId
  | .user _ => none
  | .calling _ progress => progress.queue

def wake : Activity Point → Activity Point
  | .user point => .user point
  | .calling point progress => .calling point progress.wake

end Activity

/-- User code: the access at each point, and what happens when the call made
there returns. -/
structure Program (Thread Memory Point Choice : Type*) where
  access : Thread → Memory → Point → Choice → Option (Memory × Next Point)
  returns : Thread → Memory → Point → Int → Memory × Point

structure Machine (Mutex Thread Memory Point : Type*) where
  mutex : MutexId → Mutex
  activity : Thread → Activity Point
  memory : Memory

namespace Next

variable {Point : Type*}

def activity (point : Point) : Next Point → Activity Point
  | .goTo next => .user next
  | .call made => .calling point made.start

end Next

namespace Program

variable {Thread Memory Point Choice : Type*}

/-- Memory and activity of a thread after a section of the call that it made at
the point. -/
def resume (program : Program Thread Memory Point Choice) (thread : Thread)
    (memory : Memory) (point : Point) : Result → Memory × Activity Point
  | .continues progress => (memory, .calling point progress)
  | .returned value =>
    ((program.returns thread memory point value).1,
      .user (program.returns thread memory point value).2)

end Program

/-- What follows an access or a call inside the code of a condition variable:
another point, or the return to the caller. -/
inductive Follow (Point : Type*) where
  | goTo (point : Point)
  | returned (value : Int)

/-- The code of a kind of condition variables: accesses, calls, what follows
them, and where `wait` and `signal` begin. -/
structure CondCode (Cond Point : Type*) where
  access : Cond → Point → Option (Cond × Follow Point)
  call : MutexId → Cond → Point → Call
  afterCall : Point → Int → Follow Point
  wait : Point
  signal : Point

namespace Machine

variable {Mutex Thread Memory Point Choice : Type*} [DecidableEq Thread]

def wake (activity : Thread → Activity Point) : Option Thread → Thread → Activity Point
  | none => activity
  | some woken => update activity woken (activity woken).wake

/-- One access or one section of a thread, for the given meaning of the
sections. -/
def step (sections : (MutexId → Mutex) → Thread → Progress → Option (Outcome Mutex Thread))
    (program : Program Thread Memory Point Choice) (machine : Machine Mutex Thread Memory Point)
    (label : Thread × Choice) : Option (Machine Mutex Thread Memory Point) :=
  match machine.activity label.1 with
  | .user point =>
    match program.access label.1 machine.memory point label.2 with
    | none => none
    | some (memory, next) =>
      some { machine with
        activity := update machine.activity label.1 (next.activity point)
        memory := memory }
  | .calling point progress =>
    match sections machine.mutex label.1 progress with
    | none => none
    | some outcome =>
      let resumed := program.resume label.1 machine.memory point outcome.result
      some
        { mutex := outcome.mutex
          activity := update (wake machine.activity outcome.woken) label.1 resumed.2
          memory := resumed.1 }

end Machine

end MutexCalls

end Xv6Kthreads
