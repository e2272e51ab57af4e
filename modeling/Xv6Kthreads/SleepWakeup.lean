import Mathlib.Logic.Function.Basic
import Xv6Kthreads.LabelledRun

/-!
# Sleeping and waking

`sleep` gives up the caller's lock before the thread is marked `SLEEPING`; what
protects it in between is that it has taken `ptable.lock` first, and that
`wakeup` takes `ptable.lock` too.  With `ptable.lock` as the caller's lock
nothing is given up, and the waker calls `wakeup1`.

This file runs any number of sleepers and wakers on any number of CPUs, one
acquisition, release or write at a time.  `ptable.lock` travels with a CPU
through `swtch`: the thread that goes to sleep has taken it, and the scheduler
of its CPU or the thread that runs next releases it.
-/

namespace Xv6Kthreads

namespace SleepWakeup

open Function (update update_of_ne update_self)

open LabelledRun

/-- `ptable.lock` and another lock. -/
inductive Lock where
  | ptable
  | ordinary
  deriving DecidableEq, Repr

inductive Status where
  | sleeping
  | runnable
  | running
  deriving DecidableEq, Repr

inductive Role where
  | sleeper
  | waker
  deriving DecidableEq, Repr

/-- Where a thread is that holds no lock. -/
inductive Rest where
  | outside
  /-- Before `acquire(lk)`, at the beginning of a program or the end of
  `sleep`. -/
  | enter (role : Role)
  deriving DecidableEq, Repr

/-- The next step of a thread. -/
inductive Pc (Thread : Type*) where
  | free (rest : Rest)
  -- The loop of a sleeper, and its `release(lk)`.
  | test
  | leave
  -- The steps of `sleep`.
  | takeTable
  | dropLock
  | setChan
  | setSleeping
  | schedSleep
  | tidy
  | dropTable
  -- The steps of a waker; `scan` has the threads that `wakeup1` has before it.
  | setCond
  | wakeTable
  | scan (rest : List Thread)
  | wakeDone
  | wakeLeave
  -- The steps of `yield`.
  | yieldTable (rest : Rest)
  | setRunnable (rest : Rest)
  | schedYield (rest : Rest)
  | yieldDone (rest : Rest)
  deriving DecidableEq, Repr

/-- What a CPU does: its scheduler outside or inside the loop over the process
table, or a thread. -/
inductive OnCpu (Thread : Type*) where
  | idle
  | scheduling
  | runs (thread : Thread)
  deriving DecidableEq, Repr

structure State (Cpu Thread : Type*) where
  /-- The CPU that holds a lock. -/
  holder : Lock → Option Cpu
  cpu : Cpu → OnCpu Thread
  pc : Thread → Pc Thread
  status : Thread → Status
  /-- Whether `chan` of the thread is the channel. -/
  chan : Thread → Bool
  cond : Bool
  panic : Bool

inductive Label (Cpu Thread : Type*) where
  /-- The thread on a CPU takes a step. -/
  | run (cpu : Cpu)
  /-- The thread on a CPU begins one of the programs. -/
  | begin (cpu : Cpu) (role : Role)
  /-- A timer interrupt while the thread holds no lock. -/
  | preempt (cpu : Cpu)
  /-- The scheduler acquires `ptable.lock`. -/
  | schedule (cpu : Cpu)
  /-- The scheduler switches to a thread. -/
  | pick (cpu : Cpu) (thread : Thread)
  /-- The scheduler releases `ptable.lock`. -/
  | unschedule (cpu : Cpu)

namespace State

variable {Cpu Thread : Type*} [DecidableEq Cpu] [DecidableEq Thread] (state : State Cpu Thread)

variable (thread : Thread)

def setPc (pc : Pc Thread) : State Cpu Thread :=
  { state with pc := update state.pc thread pc }

def setStatus (status : Status) : State Cpu Thread :=
  { state with status := update state.status thread status }

def setChan (chan : Bool) : State Cpu Thread :=
  { state with chan := update state.chan thread chan }

def setCpu (cpu : Cpu) (place : OnCpu Thread) : State Cpu Thread :=
  { state with cpu := update state.cpu cpu place }

def setHolder (lock : Lock) (holder : Option Cpu) : State Cpu Thread :=
  { state with holder := update state.holder lock holder }

omit [DecidableEq Cpu] [DecidableEq Thread] in
@[simp]
theorem setHolder_holder (lock : Lock) (holder : Option Cpu) :
    (state.setHolder lock holder).holder = update state.holder lock holder :=
  rfl

def panics : State Cpu Thread :=
  { state with panic := true }

/-- `acquire`; a CPU that finds the lock taken spins. -/
def acquire (cpu : Cpu) (lock : Lock) : Option (State Cpu Thread) :=
  match state.holder lock with
  | none => some (state.setHolder lock (some cpu))
  | some holder => if holder = cpu then some state.panics else none

def release (cpu : Cpu) (lock : Lock) : State Cpu Thread :=
  if state.holder lock = some cpu then state.setHolder lock none
  else state.panics

/-- `sched`: the thread is going to go on at `pc`.  `cpu->ncli` is the number
of locks that the CPU holds. -/
def sched (cpu : Cpu) (thread : Thread) (pc : Pc Thread) : State Cpu Thread :=
  if state.holder .ptable ≠ some cpu then state.panics
  else if state.holder .ordinary = some cpu then state.panics
  else if state.status thread = .running then state.panics
  else (state.setPc thread pc).setCpu cpu .scheduling

def wake : State Cpu Thread :=
  if state.status thread = .sleeping ∧ state.chan thread = true then
    state.setStatus thread .runnable
  else
    state

variable (lk : Lock) (table : List Thread)

def run (state : State Cpu Thread) (cpu : Cpu) (thread : Thread) : Option (State Cpu Thread) :=
  match state.pc thread with
  | .free .outside => none
  | .free (.enter .sleeper) => (state.acquire cpu lk).map fun next => next.setPc thread .test
  | .free (.enter .waker) => (state.acquire cpu lk).map fun next => next.setPc thread .setCond
  | .test =>
    if state.cond then some (state.setPc thread .leave)
    else if lk ≠ Lock.ptable then some (state.setPc thread .takeTable)
    else some (state.setPc thread .setChan)
  | .leave => some ((state.release cpu lk).setPc thread (.free .outside))
  | .takeTable => (state.acquire cpu .ptable).map fun next => next.setPc thread .dropLock
  | .dropLock => some ((state.release cpu lk).setPc thread .setChan)
  | .setChan => some ((state.setChan thread true).setPc thread .setSleeping)
  | .setSleeping => some ((state.setStatus thread .sleeping).setPc thread .schedSleep)
  | .schedSleep => some (state.sched cpu thread .tidy)
  | .tidy =>
    some ((state.setChan thread false).setPc thread
      (if lk ≠ Lock.ptable then .dropTable else .test))
  | .dropTable =>
    some ((state.release cpu .ptable).setPc thread (.free (.enter .sleeper)))
  | .setCond =>
    some ({ state with cond := true }.setPc thread
      (if lk ≠ Lock.ptable then .wakeTable else .scan table))
  | .wakeTable =>
    (state.acquire cpu .ptable).map fun next =>
      next.setPc thread (.scan table)
  | .scan (first :: rest) => some ((state.wake first).setPc thread (.scan rest))
  | .scan [] =>
    some (state.setPc thread (if lk ≠ Lock.ptable then .wakeDone else .wakeLeave))
  | .wakeDone => some ((state.release cpu .ptable).setPc thread .wakeLeave)
  | .wakeLeave => some ((state.release cpu lk).setPc thread (.free .outside))
  | .yieldTable rest =>
    (state.acquire cpu .ptable).map fun next =>
      next.setPc thread (.setRunnable rest)
  | .setRunnable rest =>
    some ((state.setStatus thread .runnable).setPc thread (.schedYield rest))
  | .schedYield rest => some (state.sched cpu thread (.yieldDone rest))
  | .yieldDone rest => some ((state.release cpu .ptable).setPc thread (.free rest))

def act (state : State Cpu Thread) : Label Cpu Thread → Option (State Cpu Thread)
  | .run cpu =>
    match state.cpu cpu with
    | .runs thread => state.run lk table cpu thread
    | _ => none
  | .begin cpu role =>
    match state.cpu cpu with
    | .runs thread =>
      if state.pc thread = .free .outside then
        some (state.setPc thread (.free (.enter role)))
      else
        none
    | _ => none
  | .preempt cpu =>
    match state.cpu cpu with
    | .runs thread =>
      match state.pc thread with
      | .free rest => some (state.setPc thread (.yieldTable rest))
      | _ => none
    | _ => none
  | .schedule cpu =>
    match state.cpu cpu with
    | .idle =>
      (state.acquire cpu .ptable).map fun next =>
        next.setCpu cpu .scheduling
    | _ => none
  | .pick cpu thread =>
    match state.cpu cpu with
    | .scheduling =>
      if state.status thread = .runnable then
        some ((state.setStatus thread .running).setCpu cpu (.runs thread))
      else
        none
    | _ => none
  | .unschedule cpu =>
    match state.cpu cpu with
    | .scheduling => some ((state.release cpu .ptable).setCpu cpu .idle)
    | _ => none

def step (state : State Cpu Thread) (label : Label Cpu Thread) : Option (State Cpu Thread) :=
  if state.panic then none else state.act lk table label

/-- New threads that no CPU has run yet.  They begin in `forkret`, which
releases `ptable.lock`. -/
structure Initial (state : State Cpu Thread) : Prop where
  holder : ∀ lock, state.holder lock = none
  cpu : ∀ cpu, state.cpu cpu = .idle
  pc : ∀ thread, state.pc thread = .yieldDone .outside
  status : ∀ thread, state.status thread = .runnable
  panic : state.panic = false

end State

namespace Pc

variable {Thread : Type*}

def holds (lk : Lock) : Pc Thread → Lock → Prop
  | .free _, _ => False
  | .yieldTable _, _ => False
  | .test, lock => lock = lk
  | .leave, lock => lock = lk
  | .takeTable, lock => lock = lk
  | .setCond, lock => lock = lk
  | .wakeTable, lock => lock = lk
  | .wakeLeave, lock => lock = lk
  | .dropLock, lock => lock = lk ∨ lock = .ptable
  | .scan _, lock => lock = lk ∨ lock = .ptable
  | .wakeDone, lock => lock = lk ∨ lock = .ptable
  | .setChan, lock => lock = .ptable
  | .setSleeping, lock => lock = .ptable
  | .schedSleep, lock => lock = .ptable
  | .tidy, lock => lock = .ptable
  | .dropTable, lock => lock = .ptable
  | .setRunnable _, lock => lock = .ptable
  | .schedYield _, lock => lock = .ptable
  | .yieldDone _, lock => lock = .ptable

def status : Pc Thread → Status
  | .schedSleep => .sleeping
  | .schedYield _ => .runnable
  | _ => .running

/-- The steps that are only taken if `lk` is not `ptable.lock`. -/
def twoLocks : Pc Thread → Prop
  | .takeTable => True
  | .dropLock => True
  | .dropTable => True
  | .wakeTable => True
  | .wakeDone => True
  | _ => False

def switchedOut : Pc Thread → Prop
  | .tidy => True
  | .yieldDone _ => True
  | _ => False

/-- The thread has found the condition false and holds `lk`. -/
def decided : Pc Thread → Prop
  | .takeTable => True
  | .dropLock => True
  | _ => False

/-- The thread is going to be marked `SLEEPING` and may not hold `lk`. -/
def fallsAsleep : Pc Thread → Prop
  | .setChan => True
  | .setSleeping => True
  | _ => False

def wakes (thread : Thread) : Pc Thread → Prop
  | .wakeTable => True
  | .scan rest => thread ∈ rest
  | _ => False

/-- The thread is a waker between `acquire(lk)` and `release(lk)`. -/
def wakerInside : Pc Thread → Prop
  | .setCond => True
  | .wakeTable => True
  | .scan _ => True
  | .wakeDone => True
  | .wakeLeave => True
  | _ => False

variable {pc : Pc Thread}

theorem wakerInside_of_wakes {thread : Thread} (wakes : pc.wakes thread) : pc.wakerInside := by
  cases pc <;> trivial

theorem eq_schedSleep_of_status (sleeping : pc.status = .sleeping) : pc = .schedSleep := by
  cases pc <;> first | rfl | cases sleeping

theorem eq_schedYield_of_status (runnable : pc.status = .runnable) :
    ∃ rest, pc = .schedYield rest := by
  cases pc <;> first | exact ⟨_, rfl⟩ | cases runnable

theorem holds_of_decided (decided : pc.decided) (lk : Lock) :
    ¬ pc.switchedOut ∧ pc.holds lk lk := by
  cases pc <;> first | exact decided.elim | exact ⟨id, rfl⟩ | exact ⟨id, Or.inl rfl⟩

theorem holds_of_fallsAsleep (falls : pc.fallsAsleep) (lk : Lock) :
    ¬ pc.switchedOut ∧ pc.holds lk .ptable := by
  cases pc <;> first | exact falls.elim | exact ⟨id, rfl⟩

/-- A thread that is switched out holds `ptable.lock` when it runs again. -/
theorem holds_of_switchedOut (out : pc.switchedOut) (lk lock : Lock) :
    pc.holds lk lock ↔ lock = .ptable := by
  cases pc <;> first | exact out.elim | exact Iff.rfl

theorem status_of_switchedOut (out : pc.switchedOut) : pc.status = .running := by
  cases pc <;> first | exact out.elim | rfl

theorem not_twoLocks_of_switchedOut (out : pc.switchedOut) : ¬ pc.twoLocks := by
  cases pc <;> first | exact out.elim | exact id

end Pc

section Invariant

variable {Cpu Thread : Type*}
variable {lk : Lock} {table : List Thread}
variable {state next : State Cpu Thread} {cpu : Cpu} {thread : Thread}

def Owns (lk : Lock) (pc : Thread → Pc Thread) : OnCpu Thread → Lock → Prop
  | .idle, _ => False
  | .scheduling, lock => lock = .ptable
  | .runs thread, lock => (pc thread).holds lk lock

/-- The thread is asleep or will be without looking at the condition again. -/
def Sleeps (state : State Cpu Thread) (thread : Thread) : Prop :=
  (state.pc thread).fallsAsleep ∨ state.status thread = .sleeping

/-- While a sleeper that has given up `lk` has not been woken, the condition is
false or a waker has yet to come to it. -/
structure Sound (lk : Lock) (state : State Cpu Thread) : Prop where
  locks : ∀ cpu lock, state.holder lock = some cpu ↔ Owns lk state.pc (state.cpu cpu) lock
  once : ∀ first second thread, state.cpu first = .runs thread →
    state.cpu second = .runs thread → first = second
  out : ∀ thread, (∀ cpu, state.cpu cpu ≠ .runs thread) → (state.pc thread).switchedOut
  status : ∀ cpu thread, state.cpu cpu = .runs thread →
    state.status thread = (state.pc thread).status
  asleep : ∀ thread, state.status thread = .sleeping → state.chan thread = true
  chan : ∀ thread, state.pc thread = .setSleeping → state.chan thread = true
  plain : lk = .ptable → ∀ thread, ¬ (state.pc thread).twoLocks
  unset : ∀ thread, (state.pc thread).decided → state.cond = false
  wakes : ∀ thread, Sleeps state thread → state.cond = true → ∃ waker, (state.pc waker).wakes thread
  panic : state.panic = false

/-! ## Locks -/

theorem Sound.holds (sound : Sound lk state) (on : state.cpu cpu = .runs thread) (lock : Lock) :
    state.holder lock = some cpu ↔ (state.pc thread).holds lk lock := by
  rw [sound.locks cpu lock, on]
  rfl

variable {lock : Lock}

theorem Sound.exclusive (sound : Sound lk state) {other : Thread} {second : Cpu}
    (on : state.cpu cpu = .runs thread) (otherOn : state.cpu second = .runs other)
    (holds : (state.pc thread).holds lk lock) (otherHolds : (state.pc other).holds lk lock) :
    other = thread := by
  have first := (sound.holds on lock).mpr holds
  have later := (sound.holds otherOn lock).mpr otherHolds
  have same : cpu = second := Option.some.inj (first.symm.trans later)
  subst same
  exact OnCpu.runs.inj (otherOn.symm.trans on)

theorem Sound.runs (sound : Sound lk state) (inside : ¬ (state.pc thread).switchedOut) :
    ∃ cpu, state.cpu cpu = .runs thread := by
  by_contra nowhere
  exact inside (sound.out thread fun cpu runs => nowhere ⟨cpu, runs⟩)

section

variable (sound : Sound lk state) (on : state.cpu cpu = .runs thread)
include sound on

theorem Sound.acquire [DecidableEq Cpu] (free : ¬ (state.pc thread).holds lk lock)
    (taken : state.acquire cpu lock = some next) :
    state.holder lock = none ∧ next = state.setHolder lock (some cpu) := by
  unfold State.acquire at taken
  split at taken
  next isFree => exact ⟨isFree, (Option.some.inj taken).symm⟩
  next holder isHeld =>
    split at taken
    next same =>
      subst same
      exact absurd ((sound.holds on lock).mp isHeld) free
    next => cases taken

theorem Sound.release [DecidableEq Cpu] (held : (state.pc thread).holds lk lock) :
    state.release cpu lock = state.setHolder lock none := by
  rw [State.release, if_pos ((sound.holds on lock).mpr held)]

theorem Sound.sched [DecidableEq Thread] [DecidableEq Cpu]
    (held : ∀ lock, (state.pc thread).holds lk lock ↔ lock = .ptable)
    (switches : (state.pc thread).status ≠ .running) (pc : Pc Thread) :
    state.sched cpu thread pc = (state.setPc thread pc).setCpu cpu .scheduling := by
  have isHeld := (sound.holds on .ptable).mpr ((held .ptable).mpr rfl)
  have notOther : state.holder .ordinary ≠ some cpu := by
    rw [Ne, sound.holds on, held]
    simp
  rw [State.sched, if_neg (by simpa using isHeld), if_neg notOther,
    if_neg (by rw [sound.status cpu thread on]; exact switches)]

structure Locks (lk : Lock) (cpu : Cpu) (state next : State Cpu Thread) : Prop where
  own : ∀ lock, next.holder lock = some cpu ↔ Owns lk next.pc (next.cpu cpu) lock
  others : ∀ other, other ≠ cpu → ∀ lock,
    next.holder lock = some other ↔ state.holder lock = some other

theorem Sound.locks_keep (holder : next.holder = state.holder)
    (owns : ∀ lock, Owns lk next.pc (next.cpu cpu) lock ↔
      (state.pc thread).holds lk lock) : Locks lk cpu state next := by
  refine ⟨?_, ?_⟩
  · intro lock
    rw [holder, owns lock]
    exact sound.holds on lock
  · intro other _ lock
    rw [holder]

theorem Sound.locks_acquire (free : state.holder lock = none)
    (holder : next.holder = update state.holder lock (some cpu))
    (owns : ∀ other, Owns lk next.pc (next.cpu cpu) other ↔
      other = lock ∨ (state.pc thread).holds lk other) :
    Locks lk cpu state next := by
  refine ⟨?_, ?_⟩
  · intro other
    rw [holder, owns other]
    by_cases same : other = lock
    · simp [same]
    · rw [update_of_ne same, sound.holds on other]
      simp [same]
  · intro second differs other
    rw [holder]
    rcases eq_or_ne other lock with rfl | same
    · rw [update_self, free]
      simp [Ne.symm differs]
    · rw [update_of_ne same]

theorem Sound.locks_release (held : (state.pc thread).holds lk lock)
    (holder : next.holder = update state.holder lock none)
    (owns : ∀ other, Owns lk next.pc (next.cpu cpu) other ↔
      other ≠ lock ∧ (state.pc thread).holds lk other) :
    Locks lk cpu state next := by
  refine ⟨?_, ?_⟩
  · intro other
    rw [holder, owns other]
    by_cases same : other = lock
    · simp [same]
    · rw [update_of_ne same, sound.holds on other]
      simp [same]
  · intro second differs other
    rw [holder]
    rcases eq_or_ne other lock with rfl | same
    · rw [update_self, (sound.holds on other).mpr held]
      simp [Ne.symm differs]
    · rw [update_of_ne same]

end

end Invariant

end SleepWakeup

end Xv6Kthreads
