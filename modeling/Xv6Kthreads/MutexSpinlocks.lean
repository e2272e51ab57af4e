import Xv6Kthreads.KernelStep

/-!
# The spinlocks of the mutex calls

Here the mutex calls are cut finer than in the machine of the whole kernel: one
step is one `acquire`, one `release`, one `sched`, or the code between two of
these.  The scheduler holds `ptable.lock` when it switches into a thread, and
the thread releases it.  A processor that waits for a spinlock is one whose
next operation acquires it.
-/

namespace Xv6Kthreads

open Function

namespace MutexSpinlocks

/-- The spinlocks: `ptable.lock` and the `queueLock` of each mutex. -/
inductive Lock where
  | ptable
  | queue (mutex : MutexId)
  deriving DecidableEq, Repr

/-- The next operation of a thread.  The last three belong to `yield`, and
`yieldResume` also to `forkret`. -/
inductive Pc (Thread : Type*) where
  | user
  | lockAcquire (mutex : MutexId)
  | lockTest (mutex : MutexId)
  | lockReleasePushed (mutex : MutexId)
  | lockAcquirePtable (mutex : MutexId)
  | lockBlock (mutex : MutexId)
  | lockReacquire (mutex : MutexId)
  | lockReleasePtable (mutex : MutexId)
  | lockSet (mutex : MutexId)
  | unlockEnter (mutex : MutexId) (next : Option MutexId)
  | unlockAcquire (mutex : MutexId) (next : Option MutexId)
  | unlockTest (mutex : MutexId) (next : Option MutexId)
  | unlockAcquirePtable (mutex : MutexId) (popped : Thread) (next : Option MutexId)
  | unlockWake (mutex : MutexId) (popped : Thread) (next : Option MutexId)
  | unlockReleasePtable (mutex : MutexId) (next : Option MutexId)
  | unlockRelease (mutex : MutexId) (next : Option MutexId)
  | yieldlockAcquire (first second : MutexId)
  | yieldlockTest (first second : MutexId)
  | yieldlockReleaseEmpty (first second : MutexId)
  | yieldlockAcquirePtable (second : MutexId) (popped : Thread)
  | yieldlockBlock (second : MutexId) (popped : Thread)
  | yieldlockPush (second : MutexId)
  | yieldlockRelease (second : MutexId)
  | yieldlockSched (second : MutexId)
  | yieldlockResume (second : MutexId)
  | yieldAcquire (place : Pc Thread)
  | yieldSched (place : Pc Thread)
  | yieldResume (place : Pc Thread)
  deriving DecidableEq

namespace Pc

variable {Thread : Type*}

def holds : Pc Thread → List Lock
  | .lockTest mutex => [.queue mutex]
  | .lockReleasePushed mutex => [.queue mutex]
  | .lockBlock _ => [.ptable]
  | .lockReacquire _ => [.ptable]
  | .lockReleasePtable mutex => [.ptable, .queue mutex]
  | .lockSet mutex => [.queue mutex]
  | .unlockTest mutex _ => [.queue mutex]
  | .unlockAcquirePtable mutex _ _ => [.queue mutex]
  | .unlockWake mutex _ _ => [.ptable, .queue mutex]
  | .unlockReleasePtable mutex _ => [.ptable, .queue mutex]
  | .unlockRelease mutex _ => [.queue mutex]
  | .yieldlockTest _ second => [.queue second]
  | .yieldlockReleaseEmpty _ second => [.queue second]
  | .yieldlockAcquirePtable second _ => [.queue second]
  | .yieldlockBlock second _ => [.ptable, .queue second]
  | .yieldlockPush second => [.ptable, .queue second]
  | .yieldlockRelease second => [.ptable, .queue second]
  | .yieldlockSched _ => [.ptable]
  | .yieldlockResume _ => [.ptable]
  | .yieldSched _ => [.ptable]
  | .yieldResume _ => [.ptable]
  | _ => []

def wants : Pc Thread → Option Lock
  | .lockAcquire mutex => some (.queue mutex)
  | .lockAcquirePtable _ => some .ptable
  | .lockReacquire mutex => some (.queue mutex)
  | .unlockAcquire mutex _ => some (.queue mutex)
  | .unlockAcquirePtable _ _ _ => some .ptable
  | .yieldlockAcquire _ second => some (.queue second)
  | .yieldlockAcquirePtable _ _ => some .ptable
  | .yieldAcquire _ => some .ptable
  | _ => none

/-- A clock tick can make the thread call `yield` here. -/
def interruptible : Pc Thread → Bool
  | .yieldAcquire _ => false
  | pc => pc.holds.isEmpty

/-- Where a call of `kthread_mutex_unlock` returns to: `kthread_mutex_yieldlock`
unlocks a second mutex. -/
def afterUnlock : Option MutexId → Pc Thread
  | none => .user
  | some mutex => .unlockEnter mutex none

end Pc

/-- What a processor does: it is in `scheduler`, outside or inside the section
under `ptable.lock`, or it runs a thread. -/
inductive Activity (Thread : Type*) where
  | idle
  | scanning
  | running (thread : Thread) (pc : Pc Thread)
  deriving DecidableEq

namespace Activity

variable {Thread : Type*}

def holds : Activity Thread → List Lock
  | .idle => []
  | .scanning => [.ptable]
  | .running _ pc => pc.holds

def wants : Activity Thread → Option Lock
  | .idle => some .ptable
  | .scanning => none
  | .running _ pc => pc.wants

end Activity

/-- Spinlocks, processors, the states and saved contexts of threads, and the
mutexes. -/
structure Machine (Cpu Thread : Type*) where
  holder : Lock → Option Cpu
  cpu : Cpu → Activity Thread
  state : Thread → RunState
  context : Thread → Option (Pc Thread)
  mutex : MutexId → KthreadMutex Thread

inductive Call where
  | lock (mutex : MutexId)
  | unlock (mutex : MutexId)
  | yieldlock (first second : MutexId)

/-- A processor performs its next operation, `scheduler` switches into a thread,
a thread calls a mutex function, or a clock ticks. -/
inductive Label (Cpu Thread : Type*) where
  | run (cpu : Cpu)
  | dispatch (cpu : Cpu) (thread : Thread)
  | call (cpu : Cpu) (call : Call)
  | tick (cpu : Cpu)

namespace Machine

variable {Cpu Thread : Type*} [DecidableEq Cpu] [DecidableEq Thread]
variable (machine : Machine Cpu Thread) (cpu : Cpu)

def goTo (activity : Activity Thread) : Machine Cpu Thread :=
  { machine with cpu := update machine.cpu cpu activity }

def setMutex (index : MutexId) (mutex : KthreadMutex Thread) : Machine Cpu Thread :=
  { machine with mutex := update machine.mutex index mutex }

variable (thread : Thread)

def setState (state : RunState) : Machine Cpu Thread :=
  { machine with state := update machine.state thread state }

def acquire (lock : Lock) (next : Activity Thread) : Option (Machine Cpu Thread) :=
  if machine.holder lock = none then
    some { machine.goTo cpu next with
      holder := update machine.holder lock (some cpu) }
  else
    none

def release (lock : Lock) (next : Activity Thread) : Machine Cpu Thread :=
  { machine.goTo cpu next with
    holder := update machine.holder lock none }

/-- The store of the thread's state together with `sched`: the processor goes
back to `scheduler`, inside the section under `ptable.lock`. -/
def sched (state : RunState) (resume : Pc Thread) : Machine Cpu Thread :=
  { (machine.setState thread state).goTo cpu .scanning with
    context := update machine.context thread (some resume) }

/-- `kthread_mutex_lock` between its two operations on `queueLock`. -/
def lockTest (index : MutexId) : Option (Machine Cpu Thread) :=
  if (machine.mutex index).locked then
    ((machine.mutex index).pushThreadToMutexQueue thread).map fun pushed =>
      (machine.setMutex index pushed).goTo cpu (.running thread (.lockReleasePushed index))
  else
    some (machine.goTo cpu (.running thread (.lockSet index)))

def unlockTest (index : MutexId) (next : Option MutexId) : Option (Machine Cpu Thread) :=
  if !(machine.mutex index).locked then
    some (machine.goTo cpu (.running thread (.unlockRelease index next)))
  else if !(machine.mutex index).emptyQueue then
    ((machine.mutex index).popThreadToMutexQueue).map fun (popped, rest) =>
      (machine.setMutex index rest).goTo cpu
        (.running thread (.unlockAcquirePtable index popped next))
  else
    some ((machine.setMutex index { machine.mutex index with locked := false }).goTo cpu
        (.running thread (.unlockRelease index next)))

/-- `kthread_mutex_yieldlock` after `acquire(m2->queueLock)`. -/
def yieldlockTest (first second : MutexId) : Option (Machine Cpu Thread) :=
  if !(machine.mutex second).emptyQueue then
    ((machine.mutex second).popThreadToMutexQueue).map fun (popped, rest) =>
      (machine.setMutex second rest).goTo cpu
        (.running thread (.yieldlockAcquirePtable second popped))
  else
    some (machine.goTo cpu (.running thread (.yieldlockReleaseEmpty first second)))

/-- `kthread_mutex_yieldlock` under both spinlocks: the two stores. -/
def yieldlockBlock (second : MutexId) (popped : Thread) : Machine Cpu Thread :=
  ((machine.setState thread .blocked).setState popped .runnable).goTo cpu
    (.running thread (.yieldlockPush second))

/-- `kthread_mutex_yieldlock` under both spinlocks: the push. -/
def yieldlockPush (second : MutexId) : Option (Machine Cpu Thread) :=
  ((machine.mutex second).pushThreadToMutexQueue thread).map fun pushed =>
    (machine.setMutex second pushed).goTo cpu (.running thread (.yieldlockRelease second))

/-- The start of a call `kthread_mutex_unlock(m->id)` in
`kthread_mutex_yieldlock`; an id outside the table is not followed. -/
def unlockEnter (index : MutexId) (next : Option MutexId) : Option (Machine Cpu Thread) :=
  match Kernel.mutexIndex (machine.mutex index).id with
  | none => none
  | some target =>
    if (machine.mutex target).state = .unusedMutex then
      some (machine.goTo cpu (.running thread (Pc.afterUnlock next)))
    else
      some (machine.goTo cpu (.running thread (.unlockAcquire target next)))

def runThread : Pc Thread → Option (Machine Cpu Thread)
  | .user => none
  | .lockAcquire mutex => machine.acquire cpu (.queue mutex) (.running thread (.lockTest mutex))
  | .lockTest mutex => machine.lockTest cpu thread mutex
  | .lockReleasePushed mutex =>
    some (machine.release cpu (.queue mutex) (.running thread (.lockAcquirePtable mutex)))
  | .lockAcquirePtable mutex => machine.acquire cpu .ptable (.running thread (.lockBlock mutex))
  | .lockBlock mutex => some (machine.sched cpu thread .blocked (.lockReacquire mutex))
  | .lockReacquire mutex =>
    machine.acquire cpu (.queue mutex) (.running thread (.lockReleasePtable mutex))
  | .lockReleasePtable mutex =>
    some (machine.release cpu .ptable (.running thread (.lockSet mutex)))
  | .lockSet mutex =>
    some ((machine.setMutex mutex
      { machine.mutex mutex with locked := true }).release cpu (.queue mutex)
        (.running thread .user))
  | .unlockEnter mutex next => machine.unlockEnter cpu thread mutex next
  | .unlockAcquire mutex next =>
    machine.acquire cpu (.queue mutex) (.running thread (.unlockTest mutex next))
  | .unlockTest mutex next => machine.unlockTest cpu thread mutex next
  | .unlockAcquirePtable mutex popped next =>
    machine.acquire cpu .ptable (.running thread (.unlockWake mutex popped next))
  | .unlockWake mutex popped next =>
    some ((machine.setState popped .runnable).goTo cpu
      (.running thread (.unlockReleasePtable mutex next)))
  | .unlockReleasePtable mutex next =>
    some (machine.release cpu .ptable (.running thread (.unlockRelease mutex next)))
  | .unlockRelease mutex next =>
    some (machine.release cpu (.queue mutex) (.running thread (Pc.afterUnlock next)))
  | .yieldlockAcquire first second =>
    machine.acquire cpu (.queue second) (.running thread (.yieldlockTest first second))
  | .yieldlockTest first second => machine.yieldlockTest cpu thread first second
  | .yieldlockReleaseEmpty first second =>
    some (machine.release cpu (.queue second) (.running thread (.unlockEnter second (some first))))
  | .yieldlockAcquirePtable second popped =>
    machine.acquire cpu .ptable (.running thread (.yieldlockBlock second popped))
  | .yieldlockBlock second popped => some (machine.yieldlockBlock cpu thread second popped)
  | .yieldlockPush second => machine.yieldlockPush cpu thread second
  | .yieldlockRelease second =>
    some (machine.release cpu (.queue second) (.running thread (.yieldlockSched second)))
  | .yieldlockSched second =>
    some (machine.sched cpu thread (machine.state thread) (.yieldlockResume second))
  | .yieldlockResume _ => some (machine.release cpu .ptable (.running thread .user))
  | .yieldAcquire place => machine.acquire cpu .ptable (.running thread (.yieldSched place))
  | .yieldSched place => some (machine.sched cpu thread .runnable (.yieldResume place))
  | .yieldResume place => some (machine.release cpu .ptable (.running thread place))

def run : Option (Machine Cpu Thread) :=
  match machine.cpu cpu with
  | .idle => machine.acquire cpu .ptable .scanning
  | .scanning => some (machine.release cpu .ptable .idle)
  | .running thread pc => machine.runThread cpu thread pc

/-- `scheduler` switches into a runnable thread, keeping `ptable.lock`. -/
def dispatch : Option (Machine Cpu Thread) :=
  match machine.cpu cpu, machine.state thread, machine.context thread with
  | .scanning, .runnable, some pc =>
    some ((machine.setState thread .running).goTo cpu (.running thread pc))
  | _, _, _ => none

/-- A thread calls a mutex function: the tests before its first `acquire`. -/
def call (call : Call) : Option (Machine Cpu Thread) :=
  match machine.cpu cpu with
  | .running thread .user =>
    match call with
    | .lock mutex =>
      if (machine.mutex mutex).state = .unusedMutex then some machine
      else some (machine.goTo cpu (.running thread (.lockAcquire mutex)))
    | .unlock mutex =>
      if (machine.mutex mutex).state = .unusedMutex then some machine
      else some (machine.goTo cpu (.running thread (.unlockAcquire mutex none)))
    | .yieldlock first second =>
      if (machine.mutex first).locked then
        some (machine.goTo cpu (.running thread (.yieldlockAcquire first second)))
      else some machine
  | _ => none

def tick : Option (Machine Cpu Thread) :=
  match machine.cpu cpu with
  | .running thread pc =>
    if pc.interruptible then
      some (machine.goTo cpu (.running thread (.yieldAcquire pc)))
    else
      none
  | _ => none

def step : Label Cpu Thread → Option (Machine Cpu Thread)
  | .run cpu => machine.run cpu
  | .dispatch cpu thread => machine.dispatch cpu thread
  | .call cpu call => machine.call cpu call
  | .tick cpu => machine.tick cpu

/-- A processor holds `ptable.lock` and waits for a `queueLock` whose holder
waits for `ptable.lock`. -/
def Deadlock (machine : Machine Cpu Thread) : Prop :=
  ∃ first second mutex, machine.holder .ptable = some first ∧
    (machine.cpu first).wants = some (.queue mutex) ∧
    machine.holder (.queue mutex) = some second ∧
    (machine.cpu second).wants = some .ptable

end Machine

end MutexSpinlocks

end Xv6Kthreads
