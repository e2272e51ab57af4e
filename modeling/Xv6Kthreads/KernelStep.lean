import Xv6Kthreads.KernelState

/-!
# Steps of the kernel on several processors

Each embedded call is cut into its sections under a spinlock; one step of the
machine is one such section, or one access that the source makes without a
lock.  A label names the processor and the section it runs.  `none` means that
the section is not enabled in the given state, or that it panics.
-/

namespace Xv6Kthreads

namespace Kernel

/-- The sections of the scheduler, the process calls and the mutex calls. -/
inductive Label (Cpu : Type*) where
  | scheduler (cpu : Cpu)
  | yield (cpu : Cpu)
  | sleep (cpu : Cpu) (chan : Chan)
  | sleepReturn (cpu : Cpu)
  | wakeup (chan : Chan)
  | kill (pid : Int)
  | lockEnter (cpu : Cpu) (mutex : MutexId)
  | lockBlock (cpu : Cpu)
  | lockFinish (cpu : Cpu)
  | unlock (cpu : Cpu) (mutex : MutexId)
  | yieldlock (cpu : Cpu) (first second : MutexId)
  | yieldlockSection (cpu : Cpu)
  | yieldlockUnlockSecond (cpu : Cpu)
  | yieldlockUnlockFirst (cpu : Cpu)
  | yieldlockReturn (cpu : Cpu)
  | create (cpu : Cpu)
  | createFinish (cpu : Cpu) (kstack : Option Nat)
  | fork (cpu : Cpu)
  | forkFail (cpu : Cpu)
  | forkCopy (cpu : Cpu) (kstack : Nat)
  | forkFinish (cpu : Cpu)
  | exit (cpu : Cpu)
  | exitFinish (cpu : Cpu)
  | threadExit (cpu : Cpu)
  | join (cpu : Cpu) (id : Int)
  | joinRescan (cpu : Cpu)
  | wait (cpu : Cpu)
  | waitRescan (cpu : Cpu)
  | mutexAlloc (cpu : Cpu)
  | mutexDealloc (cpu : Cpu) (id : Int)

variable {Cpu : Type*} [DecidableEq Cpu] (kernel : Kernel Cpu) (cpu : Cpu)

/-- One iteration of `scheduler` from its current position: run the next
runnable thread, or leave the loops and start over. -/
def scheduler : Option (Kernel Cpu) :=
  match kernel.running cpu with
  | some _ => none
  | none =>
    match kernel.nextRunnable (kernel.cursor cpu) with
    | none => some { kernel with cursor := Function.update kernel.cursor cpu 0 }
    | some slot =>
      match (kernel.thread slot).context with
      | none => none
      | some location =>
        some { (kernel.setState slot .running).goTo cpu slot location with
          cursor := Function.update kernel.cursor cpu (slot.1.val * NTHREAD + slot.2.val + 1) }

/-- `yield`, which `trap` calls on a clock tick for a running thread. -/
def yield : Option (Kernel Cpu) :=
  match kernel.running cpu with
  | none => none
  | some (slot, location) =>
    if (kernel.thread slot).state = .running then
      some ((kernel.setState slot .runnable).sched cpu slot location)
    else
      none

variable (slot : Slot)

def fallAsleep (chan : Chan) (call : SleepCall) : Kernel Cpu :=
  (kernel.setThread slot { kernel.thread slot with chan := some chan, state := .sleeping }).sched
      cpu slot (.asleep call)

/-- `sleep`, called by kernel code that is not embedded or by `exit`. -/
def sleep (chan : Chan) : Option (Kernel Cpu) :=
  match kernel.running cpu with
  | some (slot, .user) => some (kernel.fallAsleep cpu slot chan .other)
  | some (slot, .exiting) => some (kernel.fallAsleep cpu slot chan .exiting)
  | _ => none

def sleepReturn : Option (Kernel Cpu) :=
  match kernel.running cpu with
  | some (slot, .asleep call) =>
    some ((kernel.setThread slot
      { kernel.thread slot with chan := none }).goTo cpu slot call.resume)
  | _ => none

def kill (pid : Int) : Kernel Cpu :=
  match (List.finRange NPROC).find? fun process =>
      (kernel.proc process).pid == pid with
  | none => kernel
  | some process =>
    { kernel.setKilled process with
      thread := fun slot =>
        if slot.1 = process ∧ (kernel.thread slot).state = .sleeping then
          { kernel.thread slot with state := .runnable }
        else
          kernel.thread slot }

/-- `kthread_mutex_lock` up to its return or to the release of `queueLock`
after the push. -/
def lockEnter (index : MutexId) : Option (Kernel Cpu) :=
  match kernel.running cpu with
  | some (slot, .user) =>
    match (kernel.mutex index).kthreadMutexLockEnter
        ⟨slot, (kernel.thread slot).incarnation⟩ with
    | none => none
    | some (.returned _, mutex) => some (kernel.setMutex index mutex)
    | some (.queued, mutex) =>
      some ((kernel.setMutex index mutex).goTo cpu slot (.lockQueued index))
  | _ => none

/-- The section of `kthread_mutex_lock` under `ptable.lock`. -/
def lockBlock : Option (Kernel Cpu) :=
  match kernel.running cpu with
  | some (slot, .lockQueued index) =>
    some ((kernel.setState slot .blocked).sched cpu slot (.lockResumed index))
  | _ => none

def lockFinish : Option (Kernel Cpu) :=
  match kernel.running cpu with
  | some (slot, .lockResumed index) =>
    some ((kernel.setMutex index (kernel.mutex index).kthreadMutexLockResume).goTo cpu slot .user)
  | _ => none

/-- `kthread_mutex_unlock` on a table entry: the pop together with the store
of `RUNNABLE`. -/
def unlockSection (index : MutexId) : Option (Kernel Cpu) :=
  match (kernel.mutex index).kthreadMutexUnlock with
  | none => none
  | some (_, none, mutex) => some (kernel.setMutex index mutex)
  | some (_, some entry, mutex) =>
    some ((kernel.setMutex index mutex).setState entry.slot .runnable)

def mutexIndex (id : Int) : Option MutexId :=
  if bounded : 0 ≤ id ∧ id.toNat < MAX_MUTEXES then
    some ⟨id.toNat, bounded.2⟩
  else
    none

/-- `kthread_mutex_unlock(id)`; an id outside the table is not followed. -/
def unlockId (id : Int) : Option (Kernel Cpu) :=
  match mutexIndex id with
  | none => none
  | some index => kernel.unlockSection index

/-- The test of `m1->locked` at the start of `kthread_mutex_yieldlock`. -/
def yieldlock (first second : MutexId) : Option (Kernel Cpu) :=
  match kernel.running cpu with
  | some (slot, .user) =>
    if (kernel.mutex first).locked then
      some (kernel.goTo cpu slot (.yieldlockChecked first second))
    else
      some kernel
  | _ => none

/-- The section of `kthread_mutex_yieldlock` under `m2->queueLock`. -/
def yieldlockSection : Option (Kernel Cpu) :=
  match kernel.running cpu with
  | some (slot, .yieldlockChecked first second) =>
    if !(kernel.mutex second).emptyQueue then
      match (kernel.mutex second).popThreadToMutexQueue with
      | none => none
      | some (entry, popped) =>
        match popped.pushThreadToMutexQueue
            ⟨slot, (kernel.thread slot).incarnation⟩ with
        | none => none
        | some pushed =>
          some ((((kernel.setMutex second pushed).setState slot
            .blocked).setState entry.slot .runnable).sched cpu slot (.yieldlockResumed second))
    else
      some (kernel.goTo cpu slot (.yieldlockNoWaiter first second))
  | _ => none

/-- `kthread_mutex_yieldlock` calls `kthread_mutex_unlock(m2->id)`. -/
def yieldlockUnlockSecond : Option (Kernel Cpu) :=
  match kernel.running cpu with
  | some (slot, .yieldlockNoWaiter first second) =>
    (kernel.unlockId (kernel.mutex second).id).map fun unlocked =>
      unlocked.goTo cpu slot (.yieldlockUnlockFirst first)
  | _ => none

/-- `kthread_mutex_yieldlock` calls `kthread_mutex_unlock(m1->id)`. -/
def yieldlockUnlockFirst : Option (Kernel Cpu) :=
  match kernel.running cpu with
  | some (slot, .yieldlockUnlockFirst first) =>
    (kernel.unlockId (kernel.mutex first).id).map fun unlocked =>
      unlocked.goTo cpu slot .user
  | _ => none

/-- `kthread_mutex_yieldlock` after `sched` has returned. -/
def yieldlockReturn : Option (Kernel Cpu) :=
  match kernel.running cpu with
  | some (slot, .yieldlockResumed _) => some (kernel.goTo cpu slot .user)
  | _ => none

/-- The section of `kthread_create` under `ptable.lock`. -/
def create : Option (Kernel Cpu) :=
  match kernel.running cpu with
  | some (slot, .user) =>
    match kernel.unusedThread slot.1 with
    | none => some kernel
    | some target =>
      some { (kernel.setThread target
          { kernel.thread target with
            state := .embryo
            pid := kernel.nextpid
            incarnation := (kernel.thread target).incarnation + 1 }).goTo
              cpu slot (.createAllocated target) with
        nextpid := kernel.nextpid + 1 }
  | _ => none

/-- The rest of `kthread_create`, without a lock; `kstack` is what `kalloc`
returns. -/
def createFinish (kstack : Option Nat) : Option (Kernel Cpu) :=
  match kernel.running cpu with
  | some (slot, .createAllocated target) =>
    match kstack with
    | none =>
      some ((kernel.setThread target
        { kernel.thread target with
          kstack := none
          state := .unused }).goTo cpu slot .user)
    | some page =>
      some ((kernel.setThread target
        { kernel.thread target with
          kstack := some page
          context := some .user
          state := .runnable }).goTo cpu slot .user)
  | _ => none

/-- The section of `allocproc` under `ptable.lock`, called by `fork`. -/
def fork : Option (Kernel Cpu) :=
  match kernel.running cpu with
  | some (slot, .user) =>
    match kernel.unusedProc with
    | none => some kernel
    | some child =>
      some { ((kernel.setProc child
          { kernel.proc child with
            state := .embryo
            numOfThreads := 0
            pid := kernel.nextpid }).setThread (mainThread child)
          { kernel.thread (mainThread child) with
            state := .embryo
            pid := kernel.nextpid + 1
            incarnation :=
              (kernel.thread (mainThread child)).incarnation + 1 }).goTo
              cpu slot (.forkAllocated child) with
        nextpid := kernel.nextpid + 2 }
  | _ => none

/-- `allocproc` or `fork` gives up: `kalloc` or `copyuvm` has failed. -/
def forkFail : Option (Kernel Cpu) :=
  match kernel.running cpu with
  | some (slot, .forkAllocated child) =>
    some (((kernel.setProc child { kernel.proc child with state := .unused }).setThread
        (mainThread child)
        { kernel.thread (mainThread child) with
          kstack := none
          state := .unused }).goTo cpu slot .user)
  | _ => none

def forkCopy (kstack : Nat) : Option (Kernel Cpu) :=
  match kernel.running cpu with
  | some (slot, .forkAllocated child) =>
    some { ((kernel.setProc child { kernel.proc child with parent := some slot.1 }).setThread
          (mainThread child)
          { kernel.thread (mainThread child) with
            kstack := some kstack
            context := some .user
            pid := kernel.nextpid }).goTo cpu slot (.forkCopied child) with
      nextpid := kernel.nextpid + 1 }
  | _ => none

def forkFinish : Option (Kernel Cpu) :=
  match kernel.running cpu with
  | some (slot, .forkCopied child) =>
    some (((kernel.setProc child
      { kernel.proc child with
        numOfThreads := 1
        state := .runnable }).setState (mainThread child) .runnable).goTo cpu slot .user)
  | _ => none

/-- The start of `exit`, up to the release of files and directory. -/
def exit : Option (Kernel Cpu) :=
  match kernel.running cpu with
  | some (slot, .user) => if slot.1 = initproc then none else some (kernel.goTo cpu slot .exiting)
  | _ => none

/-- `exit` turns the siblings that do not run into zombies. -/
def killSiblings : Kernel Cpu :=
  { kernel with
    thread := fun other =>
      if other.1 = slot.1 ∧ (kernel.thread other).state ≠ .running ∧
          (kernel.thread other).state ≠ .unused ∧ other ≠ slot then
        { kernel.thread other with state := .zombie }
      else
        kernel.thread other }

/-- `exit` passes the children of the process to `initproc`. -/
def adopt (process child : ProcId) : Proc :=
  if (kernel.proc child).parent = some process then
    { kernel.proc child with parent := some initproc }
  else
    kernel.proc child

/-- `exit` wakes the parent and, if it passes a zombie child on, `initproc`. -/
def abandonChildren (process : ProcId) : Kernel Cpu :=
  let notified := kernel.wakeup1 ((kernel.proc process).parent.map .proc)
  let adopted := { notified with proc := kernel.adopt process }
  if (kernel.zombieChild process).isSome then
    adopted.wakeup1 (some (.proc initproc))
  else
    adopted

def endProcess : Kernel Cpu :=
  ((kernel.abandonChildren slot.1).setKilled slot.1).killSiblings slot

def exitFinish : Option (Kernel Cpu) :=
  match kernel.running cpu with
  | some (slot, .exiting) =>
    let killed := (kernel.endProcess slot).setState slot .zombie
    let reported :=
      if killed.procIsAlive slot.1 then killed
      else killed.setProc slot.1 { killed.proc slot.1 with state := .zombie }
    some (reported.sched cpu slot .zombieExit)
  | _ => none

/-- `kthread_exit`: the last thread of a process goes on in `exit`. -/
def threadExit : Option (Kernel Cpu) :=
  match kernel.running cpu with
  | some (slot, .user) =>
    let ended := kernel.setState slot .zombie
    if ended.procIsAlive slot.1 then
      some ((ended.wakeup1 (some (.thread slot))).sched cpu slot .zombieExit)
    else if slot.1 = initproc then
      none
    else
      some (ended.goTo cpu slot .exiting)
  | _ => none

def joinSection (id : Int) : Kernel Cpu :=
  match kernel.joinable slot.1 id with
  | some target =>
    (kernel.setThread target (reapThread (kernel.thread target))).goTo cpu slot .user
  | none =>
    match kernel.joinTarget slot.1 id with
    | none => kernel.goTo cpu slot .user
    | some target =>
      if (kernel.proc slot.1).killed then
        kernel.goTo cpu slot .user
      else
        kernel.fallAsleep cpu slot (.thread target) (.joining id)

/-- `wait` releases the caller's own zombie threads, as the source does. -/
def reapZombies (process : ProcId) : Kernel Cpu :=
  { kernel with
    thread := fun slot =>
      if slot.1 = process ∧ (kernel.thread slot).state = .zombie then
        reapThread (kernel.thread slot)
      else
        kernel.thread slot }

def waitSection : Kernel Cpu :=
  match kernel.zombieChild slot.1 with
  | some child =>
    ((kernel.reapZombies slot.1).setProc child
      { kernel.proc child with
        state := .unused
        pid := 0
        parent := none
        killed := false }).goTo cpu slot .user
  | none =>
    if kernel.haveKids slot.1 && !(kernel.proc slot.1).killed then
      kernel.fallAsleep cpu slot (.proc slot.1) .waiting
    else
      kernel.goTo cpu slot .user

/-- `kthread_mutex_alloc`: the first unused entry, if there is one. -/
def mutexAlloc : Kernel Cpu :=
  match (List.finRange MAX_MUTEXES).find? fun index =>
      (kernel.mutex index).state == .unusedMutex with
  | none => kernel
  | some index => kernel.setMutex index ((kernel.mutex index).allocate index.val)

/-- `kthread_mutex_dealloc`: only the first entry with the id counts. -/
def mutexDealloc (id : Int) : Kernel Cpu :=
  match (List.finRange MAX_MUTEXES).find? fun index =>
      (kernel.mutex index).id == id with
  | none => kernel
  | some index =>
    if (kernel.mutex index).state = .usedMutex ∧ (kernel.mutex index).locked = false then
      kernel.setMutex index
        { kernel.mutex index with
          state := .unusedMutex
          id := -1 }
    else
      kernel

def step : Label Cpu → Option (Kernel Cpu)
  | .scheduler cpu => kernel.scheduler cpu
  | .yield cpu => kernel.yield cpu
  | .sleep cpu chan => kernel.sleep cpu chan
  | .sleepReturn cpu => kernel.sleepReturn cpu
  | .wakeup chan => some (kernel.wakeup1 (some chan))
  | .kill pid => some (kernel.kill pid)
  | .lockEnter cpu index => kernel.lockEnter cpu index
  | .lockBlock cpu => kernel.lockBlock cpu
  | .lockFinish cpu => kernel.lockFinish cpu
  | .unlock cpu index =>
    match kernel.running cpu with
    | some (_, .user) => kernel.unlockSection index
    | _ => none
  | .yieldlock cpu first second => kernel.yieldlock cpu first second
  | .yieldlockSection cpu => kernel.yieldlockSection cpu
  | .yieldlockUnlockSecond cpu => kernel.yieldlockUnlockSecond cpu
  | .yieldlockUnlockFirst cpu => kernel.yieldlockUnlockFirst cpu
  | .yieldlockReturn cpu => kernel.yieldlockReturn cpu
  | .create cpu => kernel.create cpu
  | .createFinish cpu kstack => kernel.createFinish cpu kstack
  | .fork cpu => kernel.fork cpu
  | .forkFail cpu => kernel.forkFail cpu
  | .forkCopy cpu kstack => kernel.forkCopy cpu kstack
  | .forkFinish cpu => kernel.forkFinish cpu
  | .exit cpu => kernel.exit cpu
  | .exitFinish cpu => kernel.exitFinish cpu
  | .threadExit cpu => kernel.threadExit cpu
  | .join cpu id =>
    match kernel.running cpu with
    | some (slot, .user) => some (kernel.joinSection cpu slot id)
    | _ => none
  | .joinRescan cpu =>
    match kernel.running cpu with
    | some (slot, .joining id) => some (kernel.joinSection cpu slot id)
    | _ => none
  | .wait cpu =>
    match kernel.running cpu with
    | some (slot, .user) => some (kernel.waitSection cpu slot)
    | _ => none
  | .waitRescan cpu =>
    match kernel.running cpu with
    | some (slot, .waiting) => some (kernel.waitSection cpu slot)
    | _ => none
  | .mutexAlloc cpu =>
    match kernel.running cpu with
    | some (_, .user) => some kernel.mutexAlloc
    | _ => none
  | .mutexDealloc cpu id =>
    match kernel.running cpu with
    | some (_, .user) => some (kernel.mutexDealloc id)
    | _ => none

/-- The kernel after `userinit`, before any processor has entered
`scheduler`. -/
def boot : Kernel Cpu where
  proc process :=
    if process = initproc then
      { state := .runnable, pid := 1, parent := none, killed := false,
        numOfThreads := 1 }
    else
      { state := .unused, pid := 0, parent := none, killed := false,
        numOfThreads := 0 }
  thread slot :=
    if slot = mainThread initproc then
      { kstack := some 0, state := .runnable, pid := 2,
        context := some .user, chan := none, incarnation := 1 }
    else
      { kstack := none, state := .unused, pid := 0, context := none,
        chan := none, incarnation := 0 }
  nextpid := 3
  mutex _ := .zeroed
  running _ := none
  cursor _ := 0

end Kernel

end Xv6Kthreads
