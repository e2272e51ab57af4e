import Xv6Kthreads.MonitorRule

/-!
# Hoare condition variables

`hoare_cond_wait` and `hoare_cond_signal` pass a monitor's mutex on with
`kthread_mutex_yieldlock`.  The system call fetches the monitor's mutex for both
arguments, so it is the queue of that mutex, not of the condition variable, that
decides who goes on.  When nobody is queued there, the call unlocks the mutex
and reports success.  This file shows that the callers keep the ownership of
the mutex in the runs in which every such call finds a thread queued.
-/

namespace Xv6Kthreads

structure HoareCond where
  mutexCV : MutexId
  waitinCount : Int
  deriving DecidableEq

namespace HoareCond

open MutexCalls

/-- The accesses of `hoare_cond_wait` and `hoare_cond_signal` to the condition
variable, and their calls of `kthread_mutex_yieldlock`. -/
inductive Point where
  | waitLoad
  | waitStore (count : Int)
  | waitYield
  | waitUndoLoad
  | waitUndoStore (count : Int)
  | signalTest
  | signalLoad
  | signalStore (count : Int)
  | signalYieldWaiter
  | signalUndoLoad
  | signalUndoStore (count : Int)
  | signalYield
  deriving DecidableEq, Repr

/-- One access; `none` stands for a call of `kthread_mutex_yieldlock`. -/
def access (cond : HoareCond) : Point → Option (HoareCond × Follow Point)
  | .waitLoad => some (cond, .goTo (.waitStore cond.waitinCount))
  | .waitStore count => some ({ cond with waitinCount := count + 1 }, .goTo .waitYield)
  | .waitYield => none
  | .waitUndoLoad => some (cond, .goTo (.waitUndoStore cond.waitinCount))
  | .waitUndoStore count => some ({ cond with waitinCount := count - 1 }, .returned (-1))
  | .signalTest =>
    if 0 < cond.waitinCount then some (cond, .goTo .signalLoad)
    else some (cond, .goTo .signalYield)
  | .signalLoad => some (cond, .goTo (.signalStore cond.waitinCount))
  | .signalStore count => some ({ cond with waitinCount := count - 1 }, .goTo .signalYieldWaiter)
  | .signalYieldWaiter => none
  | .signalUndoLoad => some (cond, .goTo (.signalUndoStore cond.waitinCount))
  | .signalUndoStore count => some ({ cond with waitinCount := count + 1 }, .returned (-1))
  | .signalYield => none

/-- What follows the call of `kthread_mutex_yieldlock` at a point. -/
def afterYield : Point → Int → Follow Point
  | .waitYield, value => if value < 0 then .goTo .waitUndoLoad else .returned 0
  | .signalYieldWaiter, value => if value < 0 then .goTo .signalUndoLoad else .goTo .signalYield
  | .signalYield, value => if value < 0 then .returned (-1) else .returned 0
  | point, _ => .goTo point

def code : CondCode HoareCond Point where
  access := access
  call mutex cond _ := sysKthreadMutexYieldlock mutex cond.mutexCV
  afterCall := afterYield
  wait := .waitLoad
  signal := .signalTest

end HoareCond

namespace HoareCondition

open MutexCalls LabelledRun

variable {Thread Cond : Type*}

/-- Where a thread that uses a monitor's mutex and its condition variables
stands. -/
inductive Point (Cond : Type*) where
  | outside
  | inside
  | condition (cond : Cond) (point : HoareCond.Point)
  | returned (value : Int)
  deriving DecidableEq

/-- What a thread decides to do next; a condition variable can be null. -/
inductive Choice (Cond : Type*) where
  | lock
  | unlock
  | wait (cond : Option Cond)
  | signal (cond : Option Cond)
  | proceed

def follow (cond : Cond) : Follow HoareCond.Point → Point Cond
  | .goTo point => .condition cond point
  | .returned value => .returned value

/-- Threads that lock the mutex, call `hoare_cond_wait` and
`hoare_cond_signal` any number of times, and unlock it. -/
def program [DecidableEq Cond] (mutex : MutexId) :
    Program Thread (Cond → HoareCond) (Point Cond) (Choice Cond) where
  access _ memory point choice :=
    match point, choice with
    | .outside, .lock => some (memory, .call (sysKthreadMutexLock mutex))
    | .inside, .unlock => some (memory, .call (sysKthreadMutexUnlock mutex))
    | .inside, .wait none => some (memory, .goTo (.returned (-1)))
    | .inside, .wait (some cond) => some (memory, .goTo (.condition cond HoareCond.code.wait))
    | .inside, .signal none => some (memory, .goTo (.returned (-1)))
    | .inside, .signal (some cond) => some (memory, .goTo (.condition cond HoareCond.code.signal))
    | .condition cond point, .proceed =>
      match HoareCond.code.access (memory cond) point with
      | none =>
        some (memory, .call (HoareCond.code.call mutex (memory cond) point))
      | some (changed, following) =>
        some (Function.update memory cond changed, .goTo (follow cond following))
    | .returned _, .proceed => some (memory, .goTo .inside)
    | _, _ => none
  returns _ memory point value :=
    (memory, match point with
      | .outside => if value = 0 then .inside else .outside
      | .inside => .outside
      | .condition cond point => follow cond (HoareCond.code.afterCall point value)
      | .returned value => .returned value)

/-- The mutex belongs to the thread, which is not queued inside
`kthread_mutex_yieldlock`. -/
def Owns : Activity (Point Cond) → Prop
  | .user .outside => False
  | .user _ => True
  | .calling _ progress => progress.holding = true

instance (activity : Activity (Point Cond)) : Decidable (Owns activity) := by
  unfold Owns
  split <;> infer_instance

/-- The sections that a thread can be in after the call it made at a point. -/
def Calls (mutex : MutexId) : Point Cond → Progress → Prop
  | .outside, progress =>
    progress = .lockEnter mutex ∨ progress = .lockQueued mutex ∨ progress = .lockPopped mutex
  | .inside, progress => progress = .unlock mutex
  | .condition _ _, progress =>
    progress = .yieldlockTest mutex mutex ∨ progress = .yieldlockSection mutex mutex ∨
      progress = .yieldlockQueued mutex ∨
      progress = .yieldlockPopped mutex
  | .returned _, _ => False

def assertions (mutex : MutexId) : Assertions Thread (Cond → HoareCond) (Point Cond) where
  critical := Owns
  invariant _ _ := True
  holds _ _ activity :=
    match activity with
    | .user _ => True
    | .calling point progress => Calls mutex point progress

variable {mutex : MutexId} {thread : Thread}

theorem keeps {before after : Cond → HoareCond} {old new : Activity (Point Cond)}
    {locks : MutexId → FifoLock Thread} (holds : (assertions mutex).holds thread after new) :
    (assertions mutex).Keeps thread before old locks after new :=
  ⟨trivial, holds, fun _ _ _ _ knows => knows⟩

variable {point : Point Cond} {progress : Progress}

theorem Calls.mutexes_eq (calls : Calls mutex point progress) :
    ∀ index ∈ progress.mutexes, index = mutex := by
  cases point <;> simp only [Calls] at calls
  · rcases calls with rfl | rfl | rfl <;> simp [Progress.mutexes]
  · subst calls
    simp [Progress.mutexes]
  · rcases calls with rfl | rfl | rfl | rfl <;> simp [Progress.mutexes]

theorem Calls.not_unlocking (calls : Calls mutex point progress) :
    progress ≠ .yieldlockUnlockSecond mutex mutex ∧ progress ≠ .yieldlockUnlockFirst mutex := by
  cases point <;> simp only [Calls] at calls
  · rcases calls with rfl | rfl | rfl <;> simp
  · subst calls
    simp
  · rcases calls with rfl | rfl | rfl | rfl <;> simp

/-- A step under `queueLock` of `kthread_mutex_yieldlock` finds a thread
queued. -/
def YieldsToWaiter (machine : Machine (KthreadMutex Thread) Thread (Cond → HoareCond) (Point Cond))
    (label : Thread × Choice Cond) : Prop :=
  match machine.activity label.1 with
  | .calling _ (.yieldlockSection _ second) => (machine.mutex second).emptyQueue = false
  | _ => True

instance (machine : Machine (KthreadMutex Thread) Thread (Cond → HoareCond)
      (Point Cond)) : DecidablePred (YieldsToWaiter machine) := by
  intro label
  unfold YieldsToWaiter
  split <;> infer_instance

def ModelYieldsToWaiter (mutex : MutexId) (model : Model Thread (Cond → HoareCond) (Point Cond))
    (label : Thread × Choice Cond) : Prop :=
  ∀ point, model.activity label.1 = .calling point (.yieldlockSection mutex mutex) →
      (model.mutex mutex).waiters ≠ []

theorem YieldsToWaiter.model {machine : Machine (KthreadMutex Thread) Thread (Cond → HoareCond)
      (Point Cond)} {model : Model Thread (Cond → HoareCond) (Point Cond)}
    {label : Thread × Choice Cond}
    (simulates : Simulates (fun index => index = mutex) machine model)
    (yields : YieldsToWaiter machine label) :
    ModelYieldsToWaiter mutex model label := by
  intro point current empty
  simp only [YieldsToWaiter, simulates.activity, current] at yields
  have waiting := (simulates.implements.refines mutex rfl).waiting
  rw [waiting.emptyQueue_iff.mpr empty] at yields
  simp at yields

section Rules

variable [DecidableEq Cond] {mutex : MutexId}

theorem access_keeps {memory after : Cond → HoareCond}
    {choice : Choice Cond} {next : Next (Point Cond)}
    (accessed : (program mutex).access thread memory point choice = some (after, next)) :
    (assertions mutex).holds thread after (next.activity point) ∧
      (Owns (next.activity point) → Owns (.user point)) := by
  cases point with
  | outside =>
    cases choice <;> simp only [program, Option.some.injEq, Prod.mk.injEq, reduceCtorEq] at accessed
    obtain ⟨rfl, rfl⟩ := accessed
    exact ⟨Or.inl rfl, by simp [Next.activity, Owns, Call.start,
      sysKthreadMutexLock, Progress.holding]⟩
  | inside =>
    refine ⟨?_, fun _ => trivial⟩
    rcases choice with _ | _ | (_ | cond) | (_ | cond) | _ <;>
      simp only [program, Option.some.injEq, Prod.mk.injEq,
        reduceCtorEq] at accessed <;> obtain ⟨rfl, rfl⟩ := accessed
    · rfl
    all_goals trivial
  | condition cond inner =>
    refine ⟨?_, fun _ => trivial⟩
    cases choice with
    | proceed =>
      simp only [program] at accessed
      split at accessed <;> cases accessed
      · exact Or.inl rfl
      · trivial
    | _ => simp [program] at accessed
  | returned value =>
    refine ⟨?_, fun _ => trivial⟩
    cases choice <;> simp only [program, Option.some.injEq, Prod.mk.injEq, reduceCtorEq] at accessed
    obtain ⟨rfl, rfl⟩ := accessed
    trivial

theorem performs_keeps {model : Model Thread (Cond → HoareCond) (Point Cond)}
    (valid : (assertions mutex).Valid mutex model)
    {choice : Choice Cond} {outcome : Outcome (FifoLock Thread) Thread}
    (yields : ModelYieldsToWaiter mutex model (thread, choice))
    (current : model.activity thread = .calling point progress)
    (performs : lockSection model.mutex thread progress = some outcome) :
    (assertions mutex).holds thread
        ((program mutex).resume thread model.memory point outcome.result).1
        ((program mutex).resume thread model.memory point outcome.result).2 ∧
      (Owns ((program mutex).resume thread model.memory point outcome.result).2 →
        (outcome.mutex mutex).owner = some thread) ∧
      ((outcome.mutex mutex).owner = (model.mutex mutex).owner ∨
        ∀ other, other ≠ thread → ¬ Owns (model.activity other)) := by
  have calls : Calls mutex point progress := valid.holds_at current
  have others := fun holding : progress.holding = true => (valid.caller current holding).2
  have unowned := valid.unowned
  have ownership := ownership_of_performs calls.mutexes_eq
    (fun holding => (valid.caller current holding).1)
    (fun section_ => yields point (section_ ▸ current))
    calls.not_unlocking.1 calls.not_unlocking.2 performs
  generalize (model.mutex mutex).owner = before at *
  generalize (outcome.mutex mutex).owner = after at *
  generalize outcome.result = result at *
  cases ownership with
  | acquire => exact ⟨trivial, fun _ => rfl, Or.inr fun other _ => unowned rfl other⟩
  | wait owner =>
    cases point <;> simp [Calls] at calls
    exact ⟨Or.inr (Or.inl rfl), by simp [Program.resume, Owns, Progress.holding], Or.inl rfl⟩
  | resume | «return» => exact ⟨trivial, fun _ => rfl, Or.inl rfl⟩
  | release next =>
    cases point <;> simp [Calls] at calls
    exact ⟨trivial, by simp [Program.resume, program, Owns], Or.inr (others rfl)⟩
  | test =>
    cases point <;> simp [Calls] at calls
    exact ⟨Or.inr (Or.inl rfl), fun _ => rfl, Or.inl rfl⟩
  | handOver next =>
    cases point <;> simp [Calls] at calls
    exact ⟨Or.inr (Or.inr (Or.inl rfl)), by simp [Program.resume, Owns,
      Progress.holding], Or.inr (others rfl)⟩

theorem rules : (assertions mutex).Rules
    (program mutex : Program Thread (Cond → HoareCond) _ _) mutex
    (ModelYieldsToWaiter mutex) where
  woken _ memory thread index _ point progress _ waits calls := by
    change Calls mutex point progress at calls
    refine ⟨?_, fun _ => calls.mutexes_eq index (Progress.mem_mutexes_of_queue waits)⟩
    change Calls mutex point progress.wake
    cases point <;> simp only [Calls] at calls ⊢
    · rcases calls with rfl | rfl | rfl <;> simp [Progress.wake]
    · subst calls
      rfl
    · rcases calls with rfl | rfl | rfl | rfl <;> simp [Progress.wake]
  access model thread choice point memory next valid yields current
      accessed := by
    obtain ⟨holds, critical⟩ := access_keeps accessed
    exact ⟨keeps holds, critical⟩
  performs model thread choice point progress outcome valid yields current
      performs := by
    obtain ⟨holds, critical, others⟩ := performs_keeps valid yields current performs
    exact ⟨keeps holds, critical, others⟩

end Rules

/-- Before any call: every thread is outside, and the mutex is allocated and
free. -/
structure Fresh (mutex : MutexId) (machine : Machine (KthreadMutex Thread) Thread (Cond → HoareCond)
      (Point Cond)) : Prop where
  outside : ∀ thread, machine.activity thread = .user .outside
  free : (machine.mutex mutex).Refines FifoLock.free
  id_eq : (machine.mutex mutex).id = mutex.val

section

variable {machine : Machine (KthreadMutex Thread) Thread (Cond → HoareCond) (Point Cond)}
  (fresh : Fresh mutex machine)
include fresh

theorem Fresh.simulates : Simulates (fun index => index = mutex) machine
      machine.withFreeLocks := by
  apply simulates_withFreeLocks
  rintro index rfl
  exact ⟨fresh.free, fresh.id_eq⟩

theorem Fresh.valid : (assertions mutex).Valid mutex machine.withFreeLocks := by
  apply Assertions.valid_withFreeLocks
  · intro thread
    rw [fresh.outside]
    exact id
  · trivial
  · intro thread
    rw [fresh.outside]
    trivial

end

/-- If every `kthread_mutex_yieldlock` finds a thread queued on the mutex, a
caller whose wait or signal returns zero is the only owner of the mutex. -/
theorem wait_and_signal_keep_ownership [DecidableEq Thread] [DecidableEq Cond] {mutex : MutexId}
    {machine after : Machine (KthreadMutex Thread) Thread (Cond → HoareCond) (Point Cond)}
    (fresh : Fresh mutex machine)
    (reaches : GuardedReaches (Machine.step callSection (program mutex))
      YieldsToWaiter machine after) :
    (∀ thread, after.activity thread = .user (.returned 0) → (after.mutex mutex).locked = true ∧
          ∀ other, Owns (after.activity other) → other = thread) ∧
      ∀ first second, Owns (after.activity first) →
        Owns (after.activity second) → first = second := by
  obtain ⟨model, simulates, valid⟩ := rules.reaches (by
      intro model valid thread point progress current
      exact Calls.mutexes_eq (valid.holds_at current))
    (fun machine model label => YieldsToWaiter.model) fresh.simulates
    fresh.valid reaches
  have owned : ∀ thread, Owns (after.activity thread) →
      (model.mutex mutex).owner = some thread := by
    rw [simulates.activity]
    exact valid.owned
  have unique : ∀ first second, Owns (after.activity first) →
      Owns (after.activity second) → first = second := by
    intro first second firstOwns secondOwns
    exact Option.some.inj ((owned first firstOwns).symm.trans (owned second secondOwns))
  refine ⟨?_, unique⟩
  intro thread returned
  have owns : Owns (after.activity thread) := by
    rw [returned]
    trivial
  refine ⟨?_, fun other otherOwns => unique other thread otherOwns owns⟩
  rw [(simulates.implements.refines mutex rfl).locked_eq, owned thread owns]
  rfl

def monitorMutex : MutexId := ⟨0, by decide⟩

/-- Two threads, allocated mutexes and one condition variable on which nobody
waits. -/
def pair : Machine (KthreadMutex (Fin 2)) (Fin 2) (Unit → HoareCond) (Point Unit) where
  mutex index := KthreadMutex.zeroed.allocate index.val
  activity _ := .user .outside
  memory _ := { mutexCV := ⟨1, by decide⟩, waitinCount := 0 }

theorem pair_fresh : Fresh monitorMutex pair where
  outside _ := rfl
  free := KthreadMutex.refines_free_allocate KthreadMutex.zeroed_waiting rfl _
  id_eq := rfl

/-- Thread 0 signals while thread 1 waits for the mutex; thread 1 gets the
mutex, unlocks it, and the signal returns. -/
def signalToWaiter (signaller waiter : Fin 2) : List (Fin 2 × Choice Unit) :=
  [(signaller, .lock), (signaller, .proceed), (waiter, .lock), (waiter, .proceed),
    (signaller, .signal (some ())), (signaller, .proceed), (signaller, .proceed),
    (signaller, .proceed), (signaller, .proceed), (waiter, .proceed), (waiter, .unlock),
    (waiter, .proceed), (signaller, .proceed)]

theorem wait_and_signal_keep_ownership_signalToWaiter :
    ∃ after, runLabels (restrict (Machine.step callSection
          (program monitorMutex)) YieldsToWaiter) pair (signalToWaiter 0 1) =
        some after ∧
      after.activity 0 = .user (.returned 0) ∧
      (after.mutex monitorMutex).locked = true ∧
      ∀ other, Owns (after.activity other) → other = 0 := by
  obtain ⟨after, run, returned⟩ : ∃ after ∈ runLabels (restrict (Machine.step callSection
        (program monitorMutex)) YieldsToWaiter) pair (signalToWaiter 0 1),
      after.activity 0 = .user (.returned 0) := by
    decide +kernel
  exact ⟨after, run, returned, (wait_and_signal_keep_ownership pair_fresh
    (guardedReaches_of_runLabels (signalToWaiter 0 1) run)).1 0 returned⟩

/-- Thread 0 signals while nobody waits for the mutex or on the condition
variable, and thread 1 locks the mutex. -/
def signalToNobody (signaller other : Fin 2) : List (Fin 2 × Choice Unit) :=
  [(signaller, .lock), (signaller, .proceed), (signaller, .signal (some ())), (signaller, .proceed),
    (signaller, .proceed), (signaller, .proceed), (signaller, .proceed), (signaller, .proceed),
    (signaller, .proceed), (other, .lock), (other, .proceed)]

/-- The signal has unlocked the mutex and returned zero: both threads are
between their lock and their unlock. -/
theorem signalToNobody_loses_ownership : ∃ after, Fresh monitorMutex pair ∧
      Reaches (Machine.step callSection (program monitorMutex)) pair after ∧
      after.activity 0 = .user (.returned 0) ∧
      after.activity 1 = .user .inside := by
  exact (exists_reaches (signalToNobody 0 1) (by decide +kernel)).imp fun _ facts =>
    ⟨pair_fresh, facts⟩

end HoareCondition

end Xv6Kthreads
