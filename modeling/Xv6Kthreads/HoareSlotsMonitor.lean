import Mathlib.Data.Fintype.Basic
import Xv6Kthreads.HoareCondition
import Xv6Kthreads.SlotsMonitor

/-!
# The slots monitor with Hoare condition variables

`takeslot` and `addslots` test the number of slots once, wait if they must, and
then store without another test.  This is right only if a wait returns with the
monitor's mutex and with a slot, and if nobody yields or unlocks the mutex of
another thread.  The condition variables guarantee neither.  This file shows
that the account of slots is kept in the runs in which a wait hands the mutex
over, a waiting `takeslot` gets it back from an `addslots` that signals before
the monitor is stopped, the mutex is given up only when nobody else is inside,
and `slots` stays in the range of the C `int`.
-/

namespace Xv6Kthreads

namespace HoareSlotsMonitor

open MutexCalls LabelledRun SlotsMonitor

variable {Thread : Type*}

abbrev Point := SlotsMonitor.Point HoareCond.Point

def admissible : Operation → Bool
  | .addslots n => 0 < n
  | _ => true

/-- `hoare_slots_monitor_addslots`, `hoare_slots_monitor_takeslot` and
`hoare_slots_monitor_stopadding`: after a wait they do not test again. -/
def program : Program Thread (Memory HoareCond) Point Choice :=
  SlotsMonitor.program HoareCond.code admissible .testStoreActive

/-- The points of `hoare_cond_wait` up to its call of
`kthread_mutex_yieldlock`. -/
def waitStarts : HoareCond.Point → Bool
  | .waitLoad => true
  | .waitStore _ => true
  | .waitYield => true
  | _ => false

/-- The points of `hoare_cond_signal` up to the call of
`kthread_mutex_yieldlock` that is meant for a waiting thread. -/
def signalStarts : HoareCond.Point → Bool
  | .signalTest => true
  | .signalLoad => true
  | .signalStore _ => true
  | .signalYieldWaiter => true
  | _ => false

def signals (inner : HoareCond.Point) : Bool :=
  match inner with
  | .signalUndoLoad => true
  | .signalUndoStore _ => true
  | .signalYield => true
  | _ => signalStarts inner

def beforeYield : Progress → Bool
  | .yieldlockTest _ _ => true
  | .yieldlockSection _ _ => true
  | _ => false

/-- The thread is inside the monitor and has not begun to yield the mutex while
signalling or to unlock it. -/
def Inside : Activity Point → Prop
  | .user (.testWaitActive _) => True
  | .user (.testWaitSlots _) => True
  | .user (.waiting _ _) => True
  | .user (.testStoreActive _) => True
  | .user (.loadSlots _) => True
  | .user (.storeSlots _ _) => True
  | .user .storeActive => True
  | .user (.signalling _ inner) => signalStarts inner = true
  | .user _ => False
  | .calling (.lock _) progress => progress.holding = true
  | .calling (.waiting _ _) progress => progress.holding = true
  | .calling (.signalling _ inner) progress =>
    inner = .signalYieldWaiter ∧ beforeYield progress = true
  | .calling _ _ => False

instance (activity : Activity Point) : Decidable (Inside activity) := by
  unfold Inside
  split <;> infer_instance

/-- The mutex that a section can give to another thread. -/
def gives : Progress → Option MutexId
  | .unlock mutex => some mutex
  | .yieldlockSection _ second => some second
  | .yieldlockUnlockSecond _ second => some second
  | .yieldlockUnlockFirst first => some first
  | _ => none

def waits : Point → Bool
  | .waiting _ _ => true
  | _ => false

/-- The thread is in the wait of a `takeslot`. -/
def takerWaits : Activity Point → Bool
  | .calling (.waiting .takeslot _) _ => true
  | _ => false

/-- The section is that of an `addslots` which yields the mutex to a waiting
thread. -/
def adderYields : Point → Progress → Bool
  | .signalling (.addslots _) .signalYieldWaiter, .yieldlockSection _ _ => true
  | _, _ => false

/-- A store of `addslots` does not overflow.  A section that can give a mutex up
is executed while no other thread is inside; that of a wait finds a thread
queued; and if the first one in the queue is a `takeslot` that waits, the section
is that of an `addslots` which yields to it, and the monitor is not stopped. -/
def Careful (machine : Machine (KthreadMutex Thread) Thread (Memory HoareCond) Point)
    (label : Thread × Choice) : Prop :=
  match machine.activity label.1 with
  | .user (.storeSlots (.addslots n) slots) => slots + n < 2 ^ 31
  | .calling point progress =>
    match gives progress with
    | none => True
    | some mutex =>
      (∀ other, other ≠ label.1 → ¬ Inside (machine.activity other)) ∧
      (waits point = true → (machine.mutex mutex).emptyQueue = false) ∧
      ∀ next ∈ (machine.mutex mutex).popThreadToMutexQueue.map Prod.fst,
        takerWaits (machine.activity next) = true →
          adderYields point progress = true ∧ machine.memory.monitor.active = true
  | _ => True

instance [DecidableEq Thread] [Fintype Thread]
    (machine : Machine (KthreadMutex Thread) Thread (Memory HoareCond)
      Point) : DecidablePred (Careful machine) := by
  intro label
  unfold Careful
  split
  · infer_instance
  · split <;> infer_instance
  · infer_instance

/-- The sections that a thread can be in after the call it made at a point. -/
def Calls (mutex : MutexId) : Point → Progress → Prop
  | .lock _, progress =>
    progress = .lockEnter mutex ∨ progress = .lockQueued mutex ∨ progress = .lockPopped mutex
  | .waiting _ _, progress =>
    progress = .yieldlockTest mutex mutex ∨ progress = .yieldlockSection mutex mutex ∨
      progress = .yieldlockQueued mutex ∨
      progress = .yieldlockPopped mutex
  | .signalling _ _, progress =>
    progress = .yieldlockTest mutex mutex ∨ progress = .yieldlockSection mutex mutex ∨
      progress = .yieldlockQueued mutex ∨
      progress = .yieldlockPopped mutex ∨
      progress = .yieldlockUnlockSecond mutex mutex ∨
      progress = .yieldlockUnlockFirst mutex
  | .unlock _, progress => progress = .unlock mutex
  | _, _ => False

/-- What an `addslots` leaves for the thread it signals. -/
def Available (monitor : SlotsMonitor HoareCond) : Prop :=
  monitor.active = true → 0 < monitor.slots

def Knows (monitor : SlotsMonitor HoareCond) : Point → Prop
  | .testActive operation => admissible operation = true
  | .lock operation => admissible operation = true
  | .testWaitActive operation => admissible operation = true
  | .testWaitSlots operation => admissible operation = true
  | .waiting operation inner => admissible operation = true ∧ waitStarts inner = true
  | .testStoreActive operation =>
    admissible operation = true ∧ (monitor.active = true → Memory.Ready operation monitor.slots)
  | .loadSlots operation =>
    admissible operation = true ∧ Memory.Ready operation monitor.slots
  | .storeSlots operation slots =>
    admissible operation = true ∧ Memory.Ready operation monitor.slots ∧ slots = monitor.slots
  | .signalling operation inner =>
    signals inner = true ∧
      (signalStarts inner = true → ∀ n, operation = .addslots n → Available monitor)
  | _ => True

def KnowsCall (monitor : SlotsMonitor HoareCond) (progress : Progress) : Point → Prop
  | .lock operation => admissible operation = true
  | .waiting operation inner =>
    admissible operation = true ∧ inner = .waitYield ∧
      (progress.holding = true → beforeYield progress = false → operation = .takeslot →
        0 < monitor.slots)
  | .signalling operation inner =>
    (inner = .signalYieldWaiter ∨ inner = .signalYield) ∧
      (inner = .signalYieldWaiter → beforeYield progress = true →
        ∀ n, operation = .addslots n → Available monitor)
  | _ => True

structure Invariant (mutex : MutexId) (memory : Memory HoareCond) : Prop where
  accounted : memory.Accounted
  fits : memory.monitor.slots < 2 ^ 31
  mutex_eq : memory.monitor.monitormutex = mutex

def assertions (mutex : MutexId) : Assertions Thread (Memory HoareCond) Point where
  critical := Inside
  invariant _ memory := Invariant mutex memory
  holds _ memory activity :=
    match activity with
    | .user point => Knows memory.monitor point
    | .calling point progress =>
      KnowsCall memory.monitor progress point ∧ Calls mutex point progress

variable {before after : Memory HoareCond} {point : Point} {progress : Progress}

theorem knows_of_sameSlots (same : SameSlots before after) (knows : Knows before.monitor point) :
    Knows after.monitor point := by
  cases point with
  | testStoreActive operation => simpa only [Knows, same.slots, same.active] using knows
  | loadSlots operation => simpa only [Knows, same.slots] using knows
  | storeSlots operation slots => simpa only [Knows, same.slots] using knows
  | signalling operation inner =>
    simpa only [Knows, Available, same.slots, same.active] using knows
  | _ => exact knows

theorem knowsCall_of_sameSlots (same : SameSlots before after)
    (knows : KnowsCall before.monitor progress point) :
    KnowsCall after.monitor progress point := by
  cases point with
  | waiting operation inner | signalling operation inner =>
    simpa only [KnowsCall, Available, same.slots, same.active] using knows
  | _ => exact knows

variable {mutex : MutexId} {thread : Thread}

theorem holds_of_sameSlots (same : SameSlots before after) {activity : Activity Point}
    (holds : (assertions mutex).holds thread before activity) :
    (assertions mutex).holds thread after activity := by
  cases activity with
  | user point => exact knows_of_sameSlots same holds
  | calling point progress => exact ⟨knowsCall_of_sameSlots same holds.1, holds.2⟩

/-- A thread outside the monitor knows nothing about the slots. -/
theorem knows_of_not_inside (outside : ¬ Inside (.user point))
    (knows : Knows before.monitor point) : Knows after.monitor point := by
  cases point with
  | signalling operation inner => exact ⟨knows.1, fun starts => absurd starts outside⟩
  | _ => first | exact knows | exact absurd trivial outside

theorem knowsCall_of_not_inside (outside : ¬ Inside (.calling point progress))
    (knows : KnowsCall before.monitor progress point) :
    KnowsCall after.monitor progress point := by
  cases point with
  | waiting operation inner =>
    exact ⟨knows.1, knows.2.1, fun holding => absurd holding outside⟩
  | signalling operation inner =>
    exact ⟨knows.1, fun isYield starts => absurd ⟨isYield, starts⟩ outside⟩
  | _ => exact knows

theorem holds_of_not_inside {activity : Activity Point} (outside : ¬ Inside activity)
    (holds : (assertions mutex).holds thread before activity) :
    (assertions mutex).holds thread after activity := by
  cases activity with
  | user point => exact knows_of_not_inside outside holds
  | calling point progress => exact ⟨knowsCall_of_not_inside outside holds.1, holds.2⟩

variable {locks : MutexId → FifoLock Thread} {old : Activity Point}

theorem keeps_of_sameSlots {new : Activity Point} {changed : MutexId → FifoLock Thread}
    (invariant : Invariant mutex before) (same : SameSlots before after)
    (holds : (assertions mutex).holds thread after new) :
    (assertions mutex).Keeps thread before old changed after new where
  invariant := ⟨same.accounted invariant.accounted, same.slots ▸ invariant.fits,
    same.mutex.trans invariant.mutex_eq⟩
  holds := holds
  frame _ _ _ _ knows := holds_of_sameSlots same knows

theorem keeps_of_inside {new : Activity Point} (inside : Inside old)
    (invariant : Invariant mutex after) (holds : (assertions mutex).holds thread after new) :
    (assertions mutex).Keeps thread before old locks after new where
  invariant := invariant
  holds := holds
  frame _ _ _ apart knows := holds_of_not_inside (apart inside) knows

section Conditions

variable {cond changed : HoareCond} {inner : HoareCond.Point} {next : Follow HoareCond.Point}

theorem wait_call (starts : waitStarts inner = true) (call : cond.access inner = none) :
    inner = .waitYield := by
  cases inner <;> simp [waitStarts, HoareCond.access] at starts call ⊢

theorem wait_access (starts : waitStarts inner = true)
    (accessed : cond.access inner = some (changed, next)) :
    ∃ following, next = .goTo following ∧ waitStarts following = true := by
  cases inner <;> simp only [waitStarts, HoareCond.access, reduceCtorEq, Bool.false_eq_true]
    at starts accessed
  all_goals
    cases accessed
    exact ⟨_, rfl, rfl⟩

theorem signal_call (inSignal : signals inner = true) (call : cond.access inner = none) :
    inner = .signalYieldWaiter ∨ inner = .signalYield := by
  cases inner <;> simp [signals, signalStarts, HoareCond.access] at inSignal call ⊢
  split at call <;> cases call

theorem signal_access {following : HoareCond.Point} (inSignal : signals inner = true)
    (accessed : cond.access inner = some (changed, .goTo following)) :
    signals following = true ∧ (signalStarts following = true → signalStarts inner = true) := by
  cases inner with
  | signalTest =>
    simp only [HoareCond.access] at accessed
    split at accessed
    · cases accessed
      exact ⟨rfl, id⟩
    · cases accessed
      exact ⟨rfl, fun _ => rfl⟩
  | signalLoad | signalStore count | signalUndoLoad =>
    cases accessed
    exact ⟨rfl, id⟩
  | _ => simp [signals, signalStarts, HoareCond.access] at inSignal accessed

theorem afterYield_signal (isYield : inner = .signalYieldWaiter ∨ inner = .signalYield)
    (value : Int) (following : HoareCond.Point)
    (isNext : HoareCond.afterYield inner value = .goTo following) :
    signals following = true ∧ ¬ signalStarts following = true := by
  rcases isYield with rfl | rfl
  · simp only [HoareCond.afterYield] at isNext
    split at isNext <;> cases isNext <;> exact ⟨rfl, by simp [signalStarts]⟩
  · simp only [HoareCond.afterYield] at isNext
    split at isNext <;> cases isNext

end Conditions

variable {memory : Memory HoareCond} {inner : HoareCond.Point}

theorem condAccess_keeps {side : Side} {follow : Follow HoareCond.Point → Point}
    (invariant : Invariant mutex memory)
    (call : (memory.monitor.cond side).access inner = none →
      (assertions mutex).holds thread memory (.calling point (.yieldlockTest mutex mutex)))
    (following : ∀ changed next, (memory.monitor.cond side).access inner = some (changed, next) →
      (assertions mutex).holds thread memory (.user (follow next))) :
    (assertions mutex).Keeps thread memory old locks
      (condAccess HoareCond.code memory side inner follow).1
      ((condAccess HoareCond.code memory side inner follow).2.activity point) := by
  unfold condAccess
  split
  next calls =>
    apply keeps_of_sameSlots invariant (SameSlots.refl memory)
    rw [invariant.mutex_eq]
    exact call calls
  next changed next accessed =>
    have same := sameSlots_setCond memory side changed
    exact keeps_of_sameSlots invariant same
      (holds_of_sameSlots same (following changed next accessed))

structure ModelCareful (mutex : MutexId) (model : Model Thread (Memory HoareCond) Point)
    (label : Thread × Choice) : Prop where
  fits : ∀ n slots, model.activity label.1 = .user (.storeSlots (.addslots n) slots) →
    slots + n < 2 ^ 31
  alone : ∀ point progress, model.activity label.1 = .calling point progress →
    gives progress = some mutex → ∀ other, other ≠ label.1 → ¬ Inside (model.activity other)
  busy : ∀ point progress, model.activity label.1 = .calling point progress →
    gives progress = some mutex → waits point = true → (model.mutex mutex).waiters ≠ []
  grants : ∀ point progress next, model.activity label.1 = .calling point progress →
    gives progress = some mutex → (model.mutex mutex).waiters.head? = some next →
      takerWaits (model.activity next) = true →
        adderYields point progress = true ∧ model.memory.monitor.active = true

theorem Careful.model {machine : Machine (KthreadMutex Thread) Thread (Memory HoareCond) Point}
    {model : Model Thread (Memory HoareCond) Point} {label : Thread × Choice}
    (simulates : Simulates (fun index => index = mutex) machine model)
    (careful : Careful machine label) : ModelCareful mutex model label := by
  have waiting := (simulates.implements.refines mutex rfl).waiting
  simp only [Careful, simulates.activity, simulates.memory] at careful
  refine ⟨?_, ?_, ?_, ?_⟩
  · intro n slots current
    simpa only [current] using careful
  · intro point progress current isGiven
    simp only [current, isGiven] at careful
    exact careful.1
  · intro point progress current isGiven isWaiting empty
    simp only [current, isGiven] at careful
    have notEmpty := careful.2.1 isWaiting
    rw [waiting.emptyQueue_iff.mpr empty] at notEmpty
    cases notEmpty
  · intro point progress next current isGiven isFront
    simp only [current, isGiven] at careful
    exact careful.2.2 next (waiting.front.trans isFront)

section Rules

variable {mutex : MutexId} {model : Model Thread (Memory HoareCond) Point}
variable {thread : Thread} {choice : Choice} {point : Point}
variable {operation : Operation}

theorem ready_of_takeslot {slots : Int} (isAdmissible : admissible operation = true)
    (ifTake : operation = .takeslot → 0 < slots) : Memory.Ready operation slots := by
  cases operation with
  | addslots n =>
    have positive : 0 < n := by simpa [admissible] using isAdmissible
    exact le_of_lt positive
  | takeslot => exact ifTake rfl
  | stopadding => trivial

theorem ready_of_not_blocked
    (accounted : memory.Accounted) (isAdmissible : admissible operation = true)
    (free : ¬ operation.blocked memory.monitor.slots = true) :
    Memory.Ready operation memory.monitor.slots := by
  refine ready_of_takeslot isAdmissible ?_
  rintro rfl
  have nonneg := accounted.nonneg
  have nonzero : memory.monitor.slots ≠ 0 := by
    simpa [Operation.blocked] using free
  omega

/-- The store of an operation keeps the invariant, and that of an `addslots`
leaves a slot. -/
theorem Invariant.storeSlots (invariant : Invariant mutex memory)
    (isAdmissible : admissible operation = true)
    (ready : Memory.Ready operation memory.monitor.slots)
    (fits : ∀ n, operation = .addslots n → memory.monitor.slots + n < 2 ^ 31) :
    Invariant mutex (memory.storeSlots operation memory.monitor.slots) ∧
      ∀ n, operation = .addslots n →
        Available (memory.storeSlots operation memory.monitor.slots).monitor := by
  have inRange := invariant.fits
  refine ⟨⟨invariant.accounted.storeSlots ready, ?_, invariant.mutex_eq⟩, ?_⟩
  · cases operation with
    | addslots n => exact fits n rfl
    | takeslot =>
      change memory.monitor.slots - 1 < 2 ^ 31
      omega
    | stopadding => exact inRange
  · rintro n rfl -
    have positive : 0 < n := by simpa [admissible] using isAdmissible
    have nonneg := invariant.accounted.nonneg
    change 0 < memory.monitor.slots + n
    omega

theorem access_keeps (valid : (assertions mutex).Valid mutex model)
    (careful : ModelCareful mutex model (thread, choice))
    (current : model.activity thread = .user point) {next : Next Point}
    (accessed : program.access thread model.memory point choice = some (memory, next)) :
    (assertions mutex).Keeps thread model.memory (.user point) model.mutex
        memory (next.activity point) ∧
      (Inside (next.activity point) → Inside (.user point)) := by
  have invariant : Invariant mutex model.memory := valid.invariant
  have knows : Knows model.memory.monitor point := valid.holds_at current
  have stays : ∀ {next : Activity Point}, (assertions mutex).holds thread model.memory next →
        (assertions mutex).Keeps thread model.memory (.user point) model.mutex model.memory next :=
    fun holds => keeps_of_sameSlots invariant (SameSlots.refl _) holds
  cases choice with
  | start operation =>
    cases point <;> simp [program, SlotsMonitor.program] at accessed
    obtain ⟨isAdmissible, rfl, rfl⟩ := accessed
    exact ⟨stays isAdmissible, id⟩
  | proceed =>
    cases point with simp only [program, SlotsMonitor.program] at accessed
    | idle => cases accessed
    | testActive operation =>
      split at accessed <;> cases accessed
      · exact ⟨stays knows, id⟩
      · exact ⟨stays trivial, id⟩
    | lock operation =>
      cases accessed
      rw [invariant.mutex_eq]
      exact ⟨stays ⟨knows, Or.inl rfl⟩, by simp [Next.activity, Inside,
        Call.start, sysKthreadMutexLock, Progress.holding]⟩
    | testWaitActive operation =>
      split at accessed <;> cases accessed
      · exact ⟨stays knows, fun _ => trivial⟩
      next stopped =>
        exact ⟨stays ⟨knows, fun active => absurd active stopped⟩, fun _ => trivial⟩
    | testWaitSlots operation =>
      split at accessed <;> cases accessed
      · exact ⟨stays ⟨knows, rfl⟩, fun _ => trivial⟩
      next free =>
        exact ⟨stays ⟨knows, fun _ => ready_of_not_blocked invariant.accounted knows free⟩,
          fun _ => trivial⟩
    | waiting operation inner =>
      rw [Option.some.injEq] at accessed
      obtain ⟨rfl, rfl⟩ := Prod.mk.inj accessed
      refine ⟨condAccess_keeps invariant ?_ ?_, fun _ => trivial⟩
      · intro call
        exact ⟨⟨knows.1, wait_call knows.2 call, fun _ yielded => by cases yielded⟩, Or.inl rfl⟩
      · intro changed next accessed
        obtain ⟨following, rfl, starts⟩ := wait_access knows.2 accessed
        exact ⟨knows.1, starts⟩
    | testStoreActive operation =>
      split at accessed <;> cases accessed
      next active => exact ⟨stays ⟨knows.1, knows.2 active⟩, fun _ => trivial⟩
      next stopped =>
        refine ⟨stays ⟨rfl, fun _ _ _ active => absurd active stopped⟩, fun _ => trivial⟩
    | loadSlots operation =>
      cases accessed
      exact ⟨stays ⟨knows.1, knows.2, rfl⟩, fun _ => trivial⟩
    | storeSlots operation slots =>
      cases accessed
      obtain ⟨isAdmissible, ready, rfl⟩ := knows
      obtain ⟨stored, available⟩ := invariant.storeSlots isAdmissible ready (by
        rintro n rfl
        exact careful.fits n _ current)
      exact ⟨keeps_of_inside trivial stored ⟨rfl, fun _ => available⟩, fun _ => trivial⟩
    | signalling operation inner =>
      rw [Option.some.injEq] at accessed
      obtain ⟨rfl, rfl⟩ := Prod.mk.inj accessed
      obtain ⟨inSignal, available⟩ := knows
      refine ⟨condAccess_keeps invariant ?_ ?_, ?_⟩
      · intro call
        refine ⟨⟨signal_call inSignal call, ?_⟩, Or.inl rfl⟩
        rintro rfl -
        exact available rfl
      · intro changed next accessed
        cases next with
        | goTo following =>
          have access := signal_access inSignal accessed
          exact ⟨access.1, fun starts => available (access.2 starts)⟩
        | returned value => trivial
      · split
        · rintro ⟨rfl, -⟩
          rfl
        next changed next accessed =>
          cases next with
          | goTo following => exact (signal_access inSignal accessed).2
          | returned value => exact False.elim
    | storeActive =>
      cases accessed
      exact ⟨keeps_of_inside trivial ⟨⟨invariant.accounted.nonneg, invariant.accounted.sum⟩,
        invariant.fits, invariant.mutex_eq⟩ trivial, fun _ => trivial⟩
    | unlock operation =>
      cases accessed
      rw [invariant.mutex_eq]
      exact ⟨stays ⟨trivial, rfl⟩, id⟩

theorem Calls.mutexes_eq (calls : Calls mutex point progress) :
    ∀ index ∈ progress.mutexes, index = mutex := by
  cases point <;> simp only [Calls] at calls
  · rcases calls with rfl | rfl | rfl <;> simp [Progress.mutexes]
  · rcases calls with rfl | rfl | rfl | rfl <;> simp [Progress.mutexes]
  · rcases calls with rfl | rfl | rfl | rfl | rfl | rfl <;>
      simp [Progress.mutexes]
  · subst calls
    simp [Progress.mutexes]

/-- What a section leaves to be shown about its caller. -/
def SectionKeeps (mutex : MutexId) (model : Model Thread (Memory HoareCond) Point) (thread : Thread)
    (point : Point) (outcome : Outcome (FifoLock Thread) Thread) : Prop :=
  (assertions mutex).holds thread model.memory
      (program.resume thread model.memory point outcome.result).2 ∧
    (Inside (program.resume thread model.memory point outcome.result).2 →
      (outcome.mutex mutex).owner = some thread) ∧
    ((outcome.mutex mutex).owner = (model.mutex mutex).owner ∨
      ∀ other, other ≠ thread → ¬ Inside (model.activity other))

variable {outcome : Outcome (FifoLock Thread) Thread}

theorem lockSection_keeps (valid : (assertions mutex).Valid mutex model)
    (current : model.activity thread = .calling (.lock operation) progress)
    (performs : lockSection model.mutex thread progress = some outcome) :
    SectionKeeps mutex model thread (.lock operation) outcome := by
  obtain ⟨knows, calls⟩ := valid.holds_at current
  unfold SectionKeeps
  have entered : (assertions mutex).holds thread model.memory (.user (afterLock operation)) := by
    cases operation with
    | stopadding => trivial
    | _ => exact knows
  cases valid.lockStep current id (Or.inr calls) performs with
  | acquires result _ owner others =>
    rw [result]
    exact ⟨entered, fun _ => owner, others⟩
  | waits _ result same =>
    rw [result]
    exact ⟨⟨knows, Or.inr (Or.inl rfl)⟩, by simp [Program.resume, Inside, Progress.holding],
      Or.inl same⟩
  | releases unlocks _ _ _ => simp [unlocks, Calls] at calls

theorem Calls.continues {following : Progress}
    (calls : Calls mutex (.signalling operation inner) progress)
    (performs : lockSection locks thread progress = some outcome)
    (result : outcome.result = .continues following) :
    Calls mutex (.signalling operation inner) following ∧
      (beforeYield following = true → progress = .yieldlockTest mutex mutex) := by
  rcases calls with rfl | rfl | rfl | rfl | rfl | rfl
  · cases performs
    split at result <;> cases result
    exact ⟨Or.inr (Or.inl rfl), fun _ => rfl⟩
  · simp only [lockSection] at performs
    split at performs <;> obtain rfl := Option.some.inj performs <;>
      cases result
    · exact ⟨Or.inr (Or.inr (Or.inr (Or.inr (Or.inl rfl)))), fun starts => by cases starts⟩
    · exact ⟨Or.inr (Or.inr (Or.inl rfl)), fun starts => by cases starts⟩
  · simp [lockSection] at performs
  · cases performs
    cases result
  · cases performs
    unfold releaseSection at result
    split at result <;> cases result <;>
      exact ⟨Or.inr (Or.inr (Or.inr (Or.inr (Or.inr rfl)))), fun starts => by cases starts⟩
  · cases performs
    unfold releaseSection at result
    split at result <;> cases result

section

variable (valid : (assertions mutex).Valid mutex model)
  (careful : ModelCareful mutex model (thread, choice))
include valid careful

theorem waitSection_keeps
    (current : model.activity thread = .calling (.waiting operation inner) progress)
    (performs : lockSection model.mutex thread progress = some outcome) :
    SectionKeeps mutex model thread (.waiting operation inner) outcome := by
  obtain ⟨⟨isAdmissible, rfl, granted⟩, calls⟩ := valid.holds_at current
  unfold SectionKeeps
  have caller := fun holding => valid.caller current holding
  have ownership := ownership_of_performs calls.mutexes_eq (fun holding => (caller holding).1)
    (fun isSection => careful.busy _ _ current (isSection ▸ rfl) rfl)
    (by rcases calls with rfl | rfl | rfl | rfl <;> simp)
    (by rcases calls with rfl | rfl | rfl | rfl <;> simp) performs
  generalize (model.mutex mutex).owner = before at *
  generalize (outcome.mutex mutex).owner = after at *
  generalize outcome.result = result at *
  cases ownership with
  | acquire | wait owner | resume | release next => simp [Calls] at calls
  | test =>
    exact ⟨⟨⟨isAdmissible, rfl, fun _ yielded => by cases yielded⟩, Or.inr (Or.inl rfl)⟩,
      fun _ => rfl, Or.inl rfl⟩
  | handOver next =>
    exact ⟨⟨⟨isAdmissible, rfl, fun holding => by cases holding⟩,
      Or.inr (Or.inr (Or.inl rfl))⟩, by
      simp [Program.resume, Inside, Progress.holding], Or.inr (caller rfl).2⟩
  | «return» =>
    refine ⟨⟨isAdmissible, fun _ => ?_⟩, fun _ => rfl, Or.inl rfl⟩
    exact ready_of_takeslot isAdmissible fun isTake => granted rfl rfl isTake

theorem signalSection_keeps
    (current : model.activity thread = .calling (.signalling operation inner) progress)
    (performs : lockSection model.mutex thread progress = some outcome) :
    SectionKeeps mutex model thread (.signalling operation inner)
      outcome := by
  obtain ⟨⟨isYield, available⟩, calls⟩ := valid.holds_at current
  have alone := careful.alone _ progress current
  have others : (outcome.mutex mutex).owner = (model.mutex mutex).owner ∨
      ∀ other, other ≠ thread → ¬ Inside (model.activity other) := by
    rcases calls with rfl | rfl | rfl | rfl | rfl | rfl
    · cases performs
      exact Or.inl rfl
    · exact Or.inr (alone rfl)
    · simp [lockSection] at performs
    · cases performs
      exact Or.inl rfl
    · exact Or.inr (alone rfl)
    · exact Or.inr (alone rfl)
  unfold SectionKeeps
  cases result : outcome.result with
  | continues following =>
    obtain ⟨stillCalls, isTest⟩ := calls.continues performs result
    refine ⟨⟨⟨isYield, ?_⟩, stillCalls⟩, ?_, others⟩
    · intro isWaiter starts
      rw [isTest starts] at available
      exact available isWaiter rfl
    · rintro ⟨isWaiter, starts⟩
      -- a yield that goes on holding the mutex has only tested it
      obtain rfl := isTest starts
      cases performs
      exact (valid.caller current ⟨isWaiter, rfl⟩).1
  | returned value =>
    have notStarts := afterYield_signal isYield value
    change Knows _ (followSignal operation (HoareCond.afterYield inner value)) ∧
      (Inside (.user (followSignal operation (HoareCond.afterYield inner value))) → _) ∧ _
    cases following : HoareCond.afterYield inner value with
    | goTo next =>
      have outside := notStarts next following
      exact ⟨⟨outside.1, fun starts => absurd starts outside.2⟩,
        fun starts => absurd starts outside.2, others⟩
    | returned value => exact ⟨trivial, False.elim, others⟩

theorem unlockSection_keeps
    (current : model.activity thread = .calling (.unlock operation) progress)
    (performs : lockSection model.mutex thread progress = some outcome) :
    SectionKeeps mutex model thread (.unlock operation) outcome := by
  obtain ⟨-, calls⟩ := valid.holds_at current
  obtain rfl : progress = .unlock mutex := calls
  cases performs
  have returns : ∃ value, (releaseSection model.mutex mutex .returned).result =
        .returned value := by
    unfold releaseSection
    split <;> exact ⟨_, rfl⟩
  obtain ⟨value, returns⟩ := returns
  unfold SectionKeeps
  rw [returns]
  exact ⟨trivial, False.elim, Or.inr (careful.alone _ _ current rfl)⟩

end

theorem gives_of_woken {next : Thread} (calls : Calls mutex point progress)
    (performs : lockSection locks thread progress = some outcome)
    (woken : outcome.woken = some next) : gives progress = some mutex := by
  have named := calls.mutexes_eq
  cases progress with
  | lockEnter index | lockPopped index | yieldlockTest first second | yieldlockPopped index =>
    cases performs
    cases woken
  | lockQueued index | yieldlockQueued index => simp [lockSection] at performs
  | unlock index | yieldlockUnlockFirst index =>
    exact congrArg some (named index (by simp [Progress.mutexes]))
  | yieldlockSection first second | yieldlockUnlockSecond first second =>
    exact congrArg some (named second (by simp [Progress.mutexes]))

theorem resume_memory (thread : Thread) (memory : Memory HoareCond) (point : Point)
    (result : Result) : (program.resume thread memory point result).1 = memory := by
  cases result <;> rfl

/-- A `takeslot` that waits gets the mutex from an `addslots` that has left a
slot. -/
theorem slots_pos_of_wakes (wakes : (assertions mutex).Wakes program mutex (ModelCareful mutex)
      model memory thread mutex)
    (waits : takerWaits (model.activity thread) = true) : 0 < memory.monitor.slots := by
  obtain ⟨waker, choice, point, progress, outcome, careful, current, performs, woken, rfl⟩ :=
    wakes.waker
  obtain ⟨knows, calls⟩ := wakes.valid.holds_at current
  rw [resume_memory]
  obtain ⟨yields, active⟩ := careful.grants point progress thread current
    (gives_of_woken calls performs woken) wakes.front waits
  unfold adderYields at yields
  split at yields
  next n first second => exact knows.2 rfl rfl n rfl active
  next => cases yields

theorem rules : (assertions mutex).Rules
    (program : Program Thread _ _ _) mutex (ModelCareful mutex) where
  woken model memory thread index wakes point progress current waits holds := by
    obtain ⟨knows, calls⟩ := holds
    obtain rfl := calls.mutexes_eq index (Progress.mem_mutexes_of_queue waits)
    refine ⟨⟨?_, ?_⟩, fun _ => rfl⟩
    · cases point with
      | waiting operation inner =>
        refine ⟨knows.1, knows.2.1, fun _ _ isTake => ?_⟩
        subst isTake
        exact slots_pos_of_wakes wakes (by rw [current]; rfl)
      | signalling operation inner =>
        refine ⟨knows.1, fun _ starts => ?_⟩
        cases progress <;> cases waits <;> cases starts
      | _ => exact knows
    · cases point <;> simp only [Calls] at calls ⊢
      · rcases calls with rfl | rfl | rfl <;> simp [Progress.wake]
      · rcases calls with rfl | rfl | rfl | rfl <;> simp [Progress.wake]
      · rcases calls with rfl | rfl | rfl | rfl | rfl | rfl <;>
          simp [Progress.wake]
      · subst calls
        rfl
  access model thread choice point memory next valid careful current
      accessed := access_keeps valid careful current accessed
  performs model thread choice point progress outcome valid careful current
      performs := by
    have calls : Calls mutex point progress := (valid.holds_at current).2
    have sectionKeeps : SectionKeeps mutex model thread point outcome := by
      cases point with
      | lock operation => exact lockSection_keeps valid current performs
      | waiting operation inner => exact waitSection_keeps valid careful current performs
      | signalling operation inner => exact signalSection_keeps valid careful current performs
      | unlock operation => exact unlockSection_keeps valid careful current performs
      | _ => exact calls.elim
    rw [resume_memory]
    exact ⟨keeps_of_sameSlots valid.invariant (SameSlots.refl _) sectionKeeps.1, sectionKeeps.2⟩

end Rules

structure Fresh (mutex : MutexId) (machine : Machine (KthreadMutex Thread) Thread (Memory HoareCond)
      Point) : Prop where
  idle : ∀ thread, machine.activity thread = .user .idle
  free : (machine.mutex mutex).Refines FifoLock.free
  id_eq : (machine.mutex mutex).id = mutex.val
  memory : ∃ empty full, machine.memory = fresh mutex empty full

section

variable {machine : Machine (KthreadMutex Thread) Thread (Memory HoareCond) Point}
  (fresh : Fresh mutex machine)
include fresh

theorem Fresh.simulates : Simulates (fun index => index = mutex) machine
      machine.withFreeLocks := by
  apply simulates_withFreeLocks
  rintro index rfl
  exact ⟨fresh.free, fresh.id_eq⟩

theorem Fresh.valid : (assertions mutex).Valid mutex machine.withFreeLocks := by
  apply Assertions.valid_withFreeLocks
  · intro thread
    rw [fresh.idle]
    exact id
  · obtain ⟨empty, full, isFresh⟩ := fresh.memory
    rw [isFresh]
    exact ⟨fresh_accounted mutex empty full, show (0 : Int) < 2 ^ 31 by decide, rfl⟩
  · intro thread
    rw [fresh.idle]
    trivial

end

/-- If the steps meet the condition, `slots` is never negative and does not
overflow, every slot added is free or taken, and a `takeslot` finds a slot when
its wait returns and whenever it is about to take one. -/
theorem slots_accounted [DecidableEq Thread] {mutex : MutexId}
    {machine after : Machine (KthreadMutex Thread) Thread (Memory HoareCond) Point}
    (isFresh : Fresh mutex machine)
    (reaches : GuardedReaches (Machine.step callSection program) Careful machine after) :
    0 ≤ after.memory.monitor.slots ∧ after.memory.monitor.slots < 2 ^ 31 ∧
      after.memory.monitor.slots + after.memory.taken = after.memory.added.sum ∧
      (∀ thread inner, after.activity thread =
          .calling (.waiting .takeslot inner) (.yieldlockPopped mutex) →
        0 < after.memory.monitor.slots) ∧
      ∀ thread, after.activity thread = .user (.testStoreActive .takeslot) →
        after.memory.monitor.active = true → 0 < after.memory.monitor.slots := by
  obtain ⟨model, simulates, valid⟩ := rules.reaches (by
      intro model valid thread point progress current
      exact Calls.mutexes_eq (valid.holds_at current).2)
    (fun machine model label => Careful.model) isFresh.simulates
    isFresh.valid reaches
  rw [simulates.memory, simulates.activity]
  have invariant : Invariant mutex model.memory := valid.invariant
  refine ⟨invariant.accounted.nonneg, invariant.fits, invariant.accounted.sum, ?_, ?_⟩
  · intro thread inner current
    exact (valid.holds_at current).1.2.2 rfl rfl rfl
  · intro thread current active
    exact (valid.holds_at current).2 active

def monitorMutex : MutexId := ⟨0, maxMutexes_pos⟩

def graders : Machine (KthreadMutex (Fin 2)) (Fin 2) (Memory HoareCond) Point where
  mutex index := KthreadMutex.zeroed.allocate index.val
  activity _ := .user .idle
  memory := fresh monitorMutex { mutexCV := ⟨1, one_lt_maxMutexes⟩, waitinCount := 0 }
    { mutexCV := ⟨2, two_lt_maxMutexes⟩, waitinCount := 0 }

theorem graders_fresh : Fresh monitorMutex graders where
  idle _ := rfl
  free := KthreadMutex.refines_free_allocate KthreadMutex.zeroed_waiting rfl _
  id_eq := rfl
  memory := ⟨_, _, rfl⟩

/-- The taker finds no slot while the adder is queued for the mutex, and hands
the mutex over. -/
def takerWaitsFor (taker adder : Fin 2) : List (Fin 2 × Choice) :=
  (taker, .start .takeslot) :: List.replicate 3 (taker, .proceed) ++
    (adder, .start (.addslots 3)) :: List.replicate 3 (adder, .proceed) ++
    List.replicate 7 (taker, .proceed)

/-- The adder adds and signals, and the wait of the taker is about to return. -/
def adderSignals (adder : Fin 2) : List (Fin 2 × Choice) :=
  List.replicate 12 (adder, .proceed)

theorem slots_accounted_adderSignals :
    ∃ waiting after, runLabels (restrict (Machine.step callSection program) Careful)
        graders (takerWaitsFor 0 1) = some waiting ∧
      waiting.activity 0 =
        .calling (.waiting .takeslot .waitYield) (.yieldlockQueued monitorMutex) ∧
      runLabels (restrict (Machine.step callSection program) Careful)
        waiting (adderSignals 1) = some after ∧
      after.activity 0 =
        .calling (.waiting .takeslot .waitYield) (.yieldlockPopped monitorMutex) ∧
      0 < after.memory.monitor.slots ∧ after.memory.monitor.slots < 2 ^ 31 ∧
      after.memory.monitor.slots + after.memory.taken = after.memory.added.sum := by
  obtain ⟨waiting, waits, isWaiting, after, run, returns⟩ :
      ∃ waiting ∈ runLabels (restrict (Machine.step callSection program) Careful) graders
        (takerWaitsFor 0 1),
      waiting.activity 0 =
        .calling (.waiting .takeslot .waitYield) (.yieldlockQueued monitorMutex) ∧
      ∃ after ∈ runLabels (restrict (Machine.step callSection program) Careful) waiting
        (adderSignals 1),
      after.activity 0 =
        .calling (.waiting .takeslot .waitYield) (.yieldlockPopped monitorMutex) := by
    decide +kernel
  have accounted := slots_accounted graders_fresh
    ((guardedReaches_of_runLabels (takerWaitsFor 0 1) waits).trans
      (guardedReaches_of_runLabels (adderSignals 1) run))
  exact ⟨waiting, after, waits, isWaiting, run, returns,
    accounted.2.2.2.1 0 .waitYield returns, accounted.2.1, accounted.2.2.1⟩

def lonelyTake (taker : Fin 2) : List (Fin 2 × Choice) :=
  (taker, .start .takeslot) :: List.replicate 15 (taker, .proceed)

/-- The wait unlocks the mutex and returns at once, and `takeslot` takes a slot
that nobody has added. -/
theorem lonelyTake_makes_slots_negative : ∃ after, Fresh monitorMutex graders ∧
      Reaches (Machine.step callSection program) graders after ∧
      after.memory.added = [] ∧ after.memory.monitor.slots = -1 := by
  exact (exists_reaches (lonelyTake 0) (by decide +kernel)).imp fun _ facts =>
    ⟨graders_fresh, facts⟩

end HoareSlotsMonitor

end Xv6Kthreads
