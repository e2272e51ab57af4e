import Xv6Kthreads.MesaCondition
import Xv6Kthreads.SlotsMonitor

/-!
# The slots monitor with Mesa condition variables

`mesa_cond_wait` unlocks the monitor's mutex and locks it again; it neither
blocks on the condition variable nor needs a signal to return.  `addslots` and
`takeslot` repeat their test after every wait, under the mutex, and this alone
keeps the account of slots for every interleaving.
-/

namespace Xv6Kthreads

namespace MesaSlotsMonitor

open MutexCalls LabelledRun SlotsMonitor

variable {Thread : Type*}

abbrev Point := SlotsMonitor.Point MesaCond.Point

def admissible : Operation → Bool
  | .addslots n => 0 ≤ n
  | _ => true

/-- `mesa_slots_monitor_addslots`, `mesa_slots_monitor_takeslot` and
`mesa_slots_monitor_stopadding`: after a wait they test again. -/
def program : Program Thread (Memory MesaCond) Point Choice :=
  SlotsMonitor.program MesaCond.code admissible .testWaitActive

abbrev Mutexes := MesaCond.Mutexes Side

def Inside : Activity Point → Prop
  | .user .idle => False
  | .user (.testActive _) => False
  | .user (.lock _) => False
  | .user (.waiting _ .waitLock) => False
  | .user _ => True
  | .calling _ progress => progress.holding = true

def WaitPoint : MesaCond.Point → Prop
  | .waitLoad => True
  | .waitStore _ => True
  | .waitUnlock => True
  | .waitLock => True
  | _ => False

def SignalPoint : MesaCond.Point → Prop
  | .signalTest => True
  | .signalLoad => True
  | .signalStore _ => True
  | .signalUnlockWaiter => True
  | .signalUnlock => True
  | _ => False

/-- The sections that a thread can be in after the call it made at a point. -/
def Calls (mutexes : Mutexes) : Point → Progress → Prop
  | .lock _, progress => Locks mutexes.monitor progress
  | .waiting _ .waitUnlock, progress => progress = .unlock mutexes.monitor
  | .waiting _ .waitLock, progress => Locks mutexes.monitor progress
  | .signalling operation .signalUnlockWaiter, progress =>
    progress = .unlock (mutexes.cv operation.signals)
  | .signalling operation .signalUnlock, progress =>
    progress = .unlock (mutexes.cv operation.signals)
  | .unlock _, progress => progress = .unlock mutexes.monitor
  | _, _ => False

variable {progress : Progress}

/-- A call locks the monitor's mutex, or it unlocks one of the mutexes. -/
theorem Calls.lock_or_unlock {mutexes : Mutexes} {point : Point}
    (calls : Calls mutexes point progress) :
    (Locks mutexes.monitor progress ∧ ∀ following,
      Locks mutexes.monitor following → Calls mutexes point following) ∨
      ∃ index, mutexes.Allocated index ∧ progress = .unlock index := by
  cases point with
  | lock operation => exact Or.inl ⟨calls, fun _ => id⟩
  | waiting operation inner =>
    cases inner with
    | waitUnlock => exact Or.inr ⟨_, Or.inl rfl, calls⟩
    | waitLock => exact Or.inl ⟨calls, fun _ => id⟩
    | _ => exact calls.elim
  | signalling operation inner =>
    cases inner with
    | signalUnlockWaiter | signalUnlock => exact Or.inr ⟨_, Or.inr ⟨_, rfl⟩, calls⟩
    | _ => exact calls.elim
  | unlock operation => exact Or.inr ⟨_, Or.inl rfl, calls⟩
  | _ => exact calls.elim

def Passed (operation : Operation) (slots : Int) : Prop :=
  admissible operation = true ∧ operation.blocked slots = false

def Knows (monitor : SlotsMonitor MesaCond) : Point → Prop
  | .testActive operation => admissible operation = true
  | .lock operation => admissible operation = true
  | .testWaitActive operation => admissible operation = true
  | .testWaitSlots operation => admissible operation = true
  | .waiting operation point => admissible operation = true ∧ WaitPoint point
  | .testStoreActive operation => monitor.active = true → Passed operation monitor.slots
  | .loadSlots operation => monitor.active = true ∧ Passed operation monitor.slots
  | .storeSlots operation slots =>
    monitor.active = true ∧ Passed operation monitor.slots ∧ slots = monitor.slots
  | .signalling _ point => SignalPoint point
  | _ => True

/-- The account of the slots, and the mutexes of the condition variables, which
nobody locks. -/
structure Invariant (mutexes : Mutexes) (locks : MutexId → FifoLock Thread)
    (memory : Memory MesaCond) : Prop where
  accounted : memory.Accounted
  bounded : memory.monitor.slots ≤ memory.added.foldr max 0
  monitor_eq : memory.monitor.monitormutex = mutexes.monitor
  cv_eq : ∀ side, (memory.monitor.cond side).mutexCV = mutexes.cv side
  cv_free : ∀ side, (locks (mutexes.cv side)).owner = none

def assertions (mutexes : Mutexes) : Assertions Thread (Memory MesaCond) Point where
  critical := Inside
  invariant := Invariant mutexes
  holds _ memory activity :=
    match activity with
    | .user point => Knows memory.monitor point
    | .calling point progress => Knows memory.monitor point ∧ Calls mutexes point progress

variable {memory : Memory MesaCond} {operation : Operation}

theorem ready_of_passed (accounted : memory.Accounted)
    (passed : Passed operation memory.monitor.slots) :
    Memory.Ready operation memory.monitor.slots := by
  obtain ⟨isAdmissible, free⟩ := passed
  cases operation with
  | addslots n =>
    change 0 ≤ n
    simpa [admissible] using isAdmissible
  | takeslot =>
    have nonneg := accounted.nonneg
    have nonzero : memory.monitor.slots ≠ 0 := by
      simpa [Operation.blocked] using free
    change 0 < memory.monitor.slots
    omega
  | stopadding => trivial

/-- The store of an operation whose test has succeeded keeps the bound. -/
theorem bounded_storeSlots (accounted : memory.Accounted)
    (bounded : memory.monitor.slots ≤ memory.added.foldr max 0)
    (passed : Passed operation memory.monitor.slots) :
    (memory.storeSlots operation memory.monitor.slots).monitor.slots ≤
      (memory.storeSlots operation memory.monitor.slots).added.foldr
        max 0 := by
  have nonneg := accounted.nonneg
  obtain ⟨isAdmissible, free⟩ := passed
  cases operation with
  | addslots n =>
    have none : memory.monitor.slots = 0 := by
      have notPositive : ¬ 0 < memory.monitor.slots := by
        simpa [Operation.blocked] using free
      omega
    simp only [Memory.storeSlots, Operation.result, none, Int.zero_add, List.foldr_cons]
    exact le_max_left n _
  | takeslot =>
    simp only [Memory.storeSlots, Operation.result]
    omega
  | stopadding => exact bounded

/-- A thread outside its critical part knows nothing about the slots. -/
theorem knows_of_not_inside {before after : Memory MesaCond} {point : Point}
    (outside : ¬ Inside (.user point)) (knows : Knows before.monitor point) :
    Knows after.monitor point := by
  cases point <;> first | exact knows | exact absurd trivial outside

section Rules

variable {mutexes : Mutexes} {thread : Thread} {choice : Choice}
variable {point : Point} {model : Model Thread (Memory MesaCond) Point}

theorem knows_of_calls {before after : Memory MesaCond} (calls : Calls mutexes point progress)
    (knows : Knows before.monitor point) : Knows after.monitor point := by
  cases point <;> first | exact knows | exact calls.elim

theorem holds_of_not_inside {before after : Memory MesaCond} {activity : Activity Point}
    (outside : ¬ Inside activity) (holds : (assertions mutexes).holds thread before activity) :
    (assertions mutexes).holds thread after activity := by
  cases activity with
  | user point => exact knows_of_not_inside outside holds
  | calling point progress => exact ⟨knows_of_calls holds.2 holds.1, holds.2⟩

variable {locks : MutexId → FifoLock Thread} {old : Activity Point}

theorem keeps_memory {new : Activity Point} (invariant : Invariant mutexes locks memory)
    (holds : (assertions mutexes).holds thread memory new) :
    (assertions mutexes).Keeps thread memory old locks memory new where
  invariant := invariant
  holds := holds
  frame _ _ _ _ knows := knows

theorem keeps_of_inside {before after : Memory MesaCond} {new : Activity Point}
    (inside : Inside old) (invariant : Invariant mutexes locks after)
    (holds : (assertions mutexes).holds thread after new) :
    (assertions mutexes).Keeps thread before old locks after new where
  invariant := invariant
  holds := holds
  frame _ _ _ apart knows := holds_of_not_inside (apart inside) knows

theorem Invariant.setCond (invariant : Invariant mutexes locks memory) {side : Side}
    {changed : MesaCond} (sameCV : changed.mutexCV = (memory.monitor.cond side).mutexCV) :
    Invariant mutexes locks (memory.setCond side changed) where
  accounted := (sameSlots_setCond memory side changed).accounted invariant.accounted
  bounded := by
    rw [(sameSlots_setCond memory side changed).slots]
    exact invariant.bounded
  monitor_eq := (sameSlots_setCond memory side changed).mutex.trans invariant.monitor_eq
  cv_eq other := by
    rw [← invariant.cv_eq other]
    cases side <;> cases other <;> first | exact sameCV | rfl
  cv_free := invariant.cv_free

variable {inner : MesaCond.Point}

section

variable (invariant : Invariant mutexes locks memory)
include invariant

/-- An access to a condition variable under the monitor's mutex. -/
theorem condAccess_keeps {side : Side} {follow : Follow MesaCond.Point → Point}
    (inside : Inside old) {changed : MesaCond} {following : Follow MesaCond.Point}
    (accessed : (memory.monitor.cond side).access inner = some (changed, following))
    (knows : ∀ monitor, Knows monitor (follow following)) :
    (assertions mutexes).Keeps thread memory old locks
      (condAccess MesaCond.code memory side inner follow).1
      ((condAccess MesaCond.code memory side inner follow).2.activity point) := by
  have result : condAccess MesaCond.code memory side inner follow =
      (memory.setCond side changed, .goTo (follow following)) := by
    simp only [condAccess, MesaCond.code, accessed]
  rw [result]
  exact keeps_of_inside inside (invariant.setCond (MesaCond.access_mutexCV accessed)) (knows _)

theorem condAccess_waiting_keeps (knows : Knows memory.monitor (.waiting operation inner)) :
    let result := condAccess MesaCond.code memory operation.waitsOn inner
      (followWait .testWaitActive operation)
    (assertions mutexes).Keeps thread memory (.user (.waiting operation inner)) locks result.1
        (result.2.activity (.waiting operation inner)) ∧
      (Inside (result.2.activity (.waiting operation inner)) →
        Inside (.user (.waiting operation inner))) := by
  obtain ⟨isAdmissible, isWaitPoint⟩ := knows
  cases inner with
  | waitLoad | waitStore count =>
    exact ⟨condAccess_keeps invariant trivial rfl
      fun _ => ⟨isAdmissible, trivial⟩, fun _ => trivial⟩
  | waitUnlock =>
    refine ⟨keeps_memory invariant ⟨⟨isAdmissible, trivial⟩, ?_⟩, fun _ => trivial⟩
    change Progress.unlock memory.monitor.monitormutex = _
    rw [invariant.monitor_eq]
  | waitLock =>
    refine ⟨keeps_memory invariant ⟨⟨isAdmissible, trivial⟩, ?_⟩, ?_⟩
    · change Progress.lockEnter memory.monitor.monitormutex = _ ∨ _
      rw [invariant.monitor_eq]
      exact Or.inl rfl
    · intro holding
      change false = true at holding
      simp at holding
  | _ => exact isWaitPoint.elim

theorem condAccess_signalling_keeps (knows : Knows memory.monitor (.signalling operation inner)) :
    let result := condAccess MesaCond.code memory operation.signals inner (followSignal operation)
    (assertions mutexes).Keeps thread memory (.user (.signalling operation inner)) locks result.1
      (result.2.activity (.signalling operation inner)) := by
  have isSignalPoint : SignalPoint inner := knows
  have unlocks : Progress.unlock (memory.monitor.cond operation.signals).mutexCV =
        .unlock (mutexes.cv operation.signals) := by
    rw [invariant.cv_eq]
  cases inner with
  | signalTest =>
    have accessed : ∃ following, (memory.monitor.cond operation.signals).access .signalTest =
          some (memory.monitor.cond operation.signals, .goTo following) ∧
        SignalPoint following := by
      simp only [MesaCond.access]
      split
      · exact ⟨.signalLoad, rfl, trivial⟩
      · exact ⟨.signalUnlock, rfl, trivial⟩
    obtain ⟨following, accessed, isSignalPoint⟩ := accessed
    exact condAccess_keeps invariant trivial accessed fun _ => isSignalPoint
  | signalLoad | signalStore count => exact condAccess_keeps invariant trivial rfl fun _ => trivial
  | signalUnlockWaiter | signalUnlock => exact keeps_memory invariant ⟨trivial, unlocks⟩
  | _ => exact isSignalPoint.elim

end

theorem access_keeps (valid : (assertions mutexes).Valid mutexes.monitor model)
    (current : model.activity thread = .user point) {next : Next Point}
    (accessed : program.access thread model.memory point choice = some (memory, next)) :
    (assertions mutexes).Keeps thread model.memory (.user point) model.mutex
        memory (next.activity point) ∧
      (Inside (next.activity point) → Inside (.user point)) := by
  have invariant : Invariant mutexes model.mutex model.memory := valid.invariant
  have knows : Knows model.memory.monitor point := valid.holds_at current
  cases choice with
  | start operation =>
    cases point <;> simp [program, SlotsMonitor.program] at accessed
    obtain ⟨isAdmissible, rfl, rfl⟩ := accessed
    exact ⟨keeps_memory invariant isAdmissible, id⟩
  | proceed =>
    cases point with simp only [program, SlotsMonitor.program] at accessed
    | idle => cases accessed
    | testActive operation =>
      split at accessed <;> cases accessed
      · exact ⟨keeps_memory invariant knows, id⟩
      · exact ⟨keeps_memory invariant trivial, id⟩
    | lock operation =>
      cases accessed
      rw [invariant.monitor_eq]
      exact ⟨keeps_memory invariant ⟨knows, Or.inl rfl⟩, by
        simp [Next.activity, Inside, Call.start, sysKthreadMutexLock, Progress.holding]⟩
    | testWaitActive operation =>
      split at accessed <;> cases accessed
      · exact ⟨keeps_memory invariant knows, fun _ => trivial⟩
      next stopped =>
        exact ⟨keeps_memory invariant fun active => absurd active stopped, fun _ => trivial⟩
    | testWaitSlots operation =>
      split at accessed <;> cases accessed
      · exact ⟨keeps_memory invariant ⟨knows, trivial⟩, fun _ => trivial⟩
      next free =>
        exact ⟨keeps_memory invariant fun _ =>
          ⟨knows, Bool.eq_false_iff.mpr free⟩, fun _ => trivial⟩
    | waiting operation inner =>
      rw [Option.some.injEq] at accessed
      obtain ⟨rfl, rfl⟩ := Prod.mk.inj accessed
      exact condAccess_waiting_keeps invariant knows
    | testStoreActive operation =>
      split at accessed <;> cases accessed
      next active => exact ⟨keeps_memory invariant ⟨active, knows active⟩, fun _ => trivial⟩
      next => exact ⟨keeps_memory invariant trivial, fun _ => trivial⟩
    | loadSlots operation =>
      cases accessed
      exact ⟨keeps_memory invariant ⟨knows.1, knows.2, rfl⟩, fun _ => trivial⟩
    | storeSlots operation slots =>
      cases accessed
      obtain ⟨-, passed, rfl⟩ := knows
      refine ⟨keeps_of_inside trivial ?_ trivial, fun _ => trivial⟩
      exact { invariant with
        accounted := invariant.accounted.storeSlots (ready_of_passed invariant.accounted passed)
        bounded := bounded_storeSlots invariant.accounted invariant.bounded passed }
    | signalling operation inner =>
      rw [Option.some.injEq] at accessed
      obtain ⟨rfl, rfl⟩ := Prod.mk.inj accessed
      exact ⟨condAccess_signalling_keeps invariant knows, fun _ => trivial⟩
    | storeActive =>
      cases accessed
      refine ⟨keeps_of_inside trivial ?_ trivial, fun _ => trivial⟩
      exact { invariant with accounted := ⟨invariant.accounted.nonneg, invariant.accounted.sum⟩ }
    | unlock operation =>
      cases accessed
      rw [invariant.monitor_eq]
      exact ⟨keeps_memory invariant ⟨trivial, rfl⟩, fun _ => trivial⟩

/-- What a section leaves to be shown about its caller. -/
def SectionKeeps (mutexes : Mutexes)
    (model : Model Thread (Memory MesaCond) Point) (thread : Thread)
    (point : Point) (outcome : Outcome (FifoLock Thread) Thread) : Prop :=
  (assertions mutexes).holds thread model.memory
      (program.resume thread model.memory point outcome.result).2 ∧
    (Inside (program.resume thread model.memory point outcome.result).2 →
      (outcome.mutex mutexes.monitor).owner = some thread) ∧
    ((outcome.mutex mutexes.monitor).owner = (model.mutex mutexes.monitor).owner ∨
      ∀ other, other ≠ thread → ¬ Inside (model.activity other)) ∧
    ∀ side, (outcome.mutex (mutexes.cv side)).owner = none

variable {outcome : Outcome (FifoLock Thread) Thread}

section

variable (valid : (assertions mutexes).Valid mutexes.monitor model)
include valid

theorem monitorSection_keeps (current : model.activity thread = .calling point progress)
    (sections : progress = .unlock mutexes.monitor ∨ Locks mutexes.monitor progress)
    (queued : Locks mutexes.monitor progress → Calls mutexes point (.lockQueued mutexes.monitor))
    (returns : Knows model.memory.monitor (program.returns thread model.memory point 0).2)
    (leaves : progress = .unlock mutexes.monitor →
      ¬ Inside (.user (program.returns thread model.memory point 0).2))
    (performs : lockSection model.mutex thread progress = some outcome) :
    SectionKeeps mutexes model thread point outcome := by
  have invariant : Invariant mutexes model.mutex model.memory := valid.invariant
  have knows : Knows model.memory.monitor point := (valid.holds_at current).1
  have free : ∀ side, (outcome.mutex (mutexes.cv side)).owner = none := by
    intro side
    have notNamed : mutexes.cv side ∉ progress.mutexes := by
      rcases sections with rfl | rfl | rfl | rfl <;>
        simp [Progress.mutexes, mutexes.cv_ne]
    rw [lockSection_of_notMem notNamed performs]
    exact invariant.cv_free side
  unfold SectionKeeps
  cases valid.lockStep current id sections performs with
  | acquires result gets owner others =>
    rw [result]
    exact ⟨returns, fun _ => owner, others, free⟩
  | waits locks result same =>
    rw [result]
    exact ⟨⟨knows, queued locks⟩, by simp [Program.resume, Inside, Progress.holding],
      Or.inl same, free⟩
  | releases unlocks _ result others =>
    rw [result]
    exact ⟨returns, fun inside => absurd inside (leaves unlocks), Or.inr others, free⟩

theorem signalSection_keeps {side : Side}
    (current : model.activity thread = .calling point (.unlock (mutexes.cv side)))
    (returns : Knows model.memory.monitor (program.returns thread model.memory point (-1)).2)
    (performs : lockSection model.mutex thread (.unlock (mutexes.cv side)) = some outcome) :
    SectionKeeps mutexes model thread point outcome := by
  have invariant : Invariant mutexes model.mutex model.memory := valid.invariant
  cases performs
  rw [releaseSection_of_free (invariant.cv_free side)]
  refine ⟨returns, fun _ => ?_, Or.inl rfl, invariant.cv_free⟩
  apply valid.owned thread
  rw [current]
  rfl

theorem section_keeps (current : model.activity thread = .calling point progress)
    (performs : lockSection model.mutex thread progress = some outcome) :
    SectionKeeps mutexes model thread point outcome := by
  obtain ⟨knows, calls⟩ := valid.holds_at current
  cases point with
  | lock operation =>
    apply monitorSection_keeps valid current (Or.inr calls)
      (fun _ => Or.inr (Or.inl rfl)) _ _ performs
    · cases operation with
      | stopadding => trivial
      | _ => exact knows
    · rintro rfl
      simp [Calls, Locks] at calls
  | waiting operation inner =>
    cases inner with
    | waitUnlock =>
      obtain rfl : progress = .unlock mutexes.monitor := calls
      exact monitorSection_keeps valid current (Or.inl rfl)
        (by simp [Locks]) ⟨knows.1, trivial⟩
        (fun _ => id) performs
    | waitLock =>
      apply monitorSection_keeps valid current (Or.inr calls)
        (fun _ => Or.inr (Or.inl rfl)) knows.1 _ performs
      rintro rfl
      simp [Calls, Locks] at calls
    | _ => exact calls.elim
  | signalling operation inner =>
    cases inner with
    | signalUnlockWaiter | signalUnlock =>
      obtain rfl : progress = .unlock (mutexes.cv operation.signals) := calls
      exact signalSection_keeps valid current trivial performs
    | _ => exact calls.elim
  | unlock operation =>
    obtain rfl : progress = .unlock mutexes.monitor := calls
    exact monitorSection_keeps valid current (Or.inl rfl)
      (by simp [Locks]) trivial (fun _ => id) performs
  | _ => exact calls.elim

end

theorem rules : (assertions mutexes).Rules (program : Program Thread _ _ _) mutexes.monitor
    (fun _ _ => True) where
  woken _ memory thread index _ point progress _ waits holds := by
    obtain ⟨knows, calls⟩ := holds
    have sections := calls.lock_or_unlock
    have queued := MesaCond.queue_of_lock_or_unlock (sections.imp_left And.left) waits
    refine ⟨⟨knows, ?_⟩, fun _ => queued.1⟩
    rcases sections with ⟨-, following⟩ | ⟨unlocked, -, rfl⟩
    · exact following _ queued.2.2
    · simp [Progress.queue] at waits
  access model thread choice point memory next valid _ current accessed :=
    access_keeps valid current accessed
  performs model thread choice point progress outcome valid _ current
      performs := by
    obtain ⟨holds, owned, others, free⟩ := section_keeps valid current performs
    have invariant : Invariant mutexes model.mutex model.memory := valid.invariant
    have sameMemory : (program.resume thread model.memory point
        outcome.result).1 = model.memory := by
      cases outcome.result <;> rfl
    rw [sameMemory]
    exact ⟨keeps_memory { invariant with cv_free := free } holds, owned, others⟩

end Rules

structure Fresh (mutexes : Mutexes)
    (machine : Machine (KthreadMutex Thread) Thread (Memory MesaCond) Point) : Prop where
  idle : ∀ thread, machine.activity thread = .user .idle
  free : ∀ index, mutexes.Allocated index → (machine.mutex index).Refines FifoLock.free
  id_eq : ∀ index, mutexes.Allocated index → (machine.mutex index).id = index.val
  memory : machine.memory = fresh mutexes.monitor { mutexCV := mutexes.cv .empty, waitinCount := 0 }
    { mutexCV := mutexes.cv .full, waitinCount := 0 }

section Runs

variable {mutexes : Mutexes}
variable {machine after : Machine (KthreadMutex Thread) Thread (Memory MesaCond) Point}

theorem Fresh.valid (isFresh : Fresh mutexes machine) :
    (assertions mutexes).Valid mutexes.monitor machine.withFreeLocks := by
  apply Assertions.valid_withFreeLocks
  · intro thread
    rw [isFresh.idle]
    exact id
  · rw [isFresh.memory]
    exact
      { accounted := fresh_accounted _ _ _
        bounded := le_refl 0
        monitor_eq := rfl
        cv_eq := fun side => by cases side <;> rfl
        cv_free := fun _ => rfl }
  · intro thread
    rw [isFresh.idle]
    trivial

/-- A state whose locks, activities and memory are as the threads rely on. -/
def Consistent (mutexes : Mutexes) (machine : Machine (KthreadMutex Thread) Thread (Memory MesaCond)
      Point) : Prop :=
  ∃ model, Simulates mutexes.Allocated machine model ∧
    (assertions mutexes).Valid mutexes.monitor model

section

variable (consistent : Consistent mutexes machine)
include consistent

theorem Consistent.reaches [DecidableEq Thread]
    (reaches : Reaches (Machine.step callSection program) machine after) :
    Consistent mutexes after := by
  obtain ⟨model, simulates, valid⟩ := consistent
  exact rules.reaches (by
      intro model valid thread point progress current
      exact MesaCond.allocated_of_lock_or_unlock
        ((valid.holds_at current).2.lock_or_unlock.imp_left And.left))
    (fun _ _ _ _ _ => trivial) simulates valid reaches

/-- When the monitor has been stopped, no thread stores to `slots`. -/
theorem Consistent.step_stopped [DecidableEq Thread]
    (stopped : machine.memory.monitor.active = false) {label : Thread × Choice}
    (stepTo : machine.step callSection program label = some after) :
    after.memory.monitor.active = false ∧
      after.memory.monitor.slots = machine.memory.monitor.slots := by
  obtain ⟨model, simulates, valid⟩ := consistent
  unfold Machine.step at stepTo
  split at stepTo
  next point current =>
    have noStore : ∀ operation slots, point ≠ .storeSlots operation slots := by
      rintro operation slots rfl
      have knows := valid.holds label.1
      rw [← simulates.activity, current] at knows
      have active : model.memory.monitor.active = true := knows.1
      rw [← simulates.memory, stopped] at active
      simp at active
    split at stepTo <;> cases stepTo
    next memory next accessed =>
      have kept := program_access_slots accessed noStore
      exact ⟨kept.2 stopped, kept.1⟩
  next point progress current =>
    split at stepTo <;> cases stepTo
    next outcome performs => cases outcome.result <;> exact ⟨stopped, rfl⟩

theorem Consistent.reaches_stopped [DecidableEq Thread]
    (stopped : machine.memory.monitor.active = false)
    (reaches : Reaches (Machine.step callSection program) machine after) :
    after.memory.monitor.slots = machine.memory.monitor.slots := by
  have kept := reaches.invariant (fun later => Consistent mutexes later ∧
      later.memory.monitor.active = false ∧
      later.memory.monitor.slots = machine.memory.monitor.slots)
    ⟨consistent, stopped, rfl⟩ (by
      rintro before label later ⟨beforeConsistent, beforeStopped, same⟩ stepTo
      have stepKeeps := beforeConsistent.step_stopped beforeStopped stepTo
      exact ⟨beforeConsistent.reaches (Relation.ReflTransGen.single ⟨label, trivial, stepTo⟩),
        stepKeeps.1, stepKeeps.2.trans same⟩)
  exact kept.2.2

end

/-- In every run every slot added is free or taken, `slots` stays within its
bounds, and a stopped monitor keeps its `slots`. -/
theorem slots_accounted_and_bounded [DecidableEq Thread] (isFresh : Fresh mutexes machine)
    (reaches : Reaches (Machine.step callSection program) machine after) :
    after.memory.monitor.slots + after.memory.taken = after.memory.added.sum ∧
      0 ≤ after.memory.monitor.slots ∧
      after.memory.monitor.slots ≤ after.memory.added.foldr max 0 ∧
      (after.memory.monitor.active = false → ∀ later,
        Reaches (Machine.step callSection program) after later →
          later.memory.monitor.slots = after.memory.monitor.slots) := by
  have initially : Consistent mutexes machine := by
    refine ⟨_, simulates_withFreeLocks ?_, isFresh.valid⟩
    exact fun index allocated =>
      ⟨isFresh.free index allocated, isFresh.id_eq index allocated⟩
  obtain ⟨model, simulates, valid⟩ := initially.reaches reaches
  have invariant : Invariant mutexes model.mutex model.memory := valid.invariant
  have stopped : after.memory.monitor.active = false → ∀ later,
      Reaches (Machine.step callSection program) after later →
        later.memory.monitor.slots = after.memory.monitor.slots :=
    fun stopped later => (initially.reaches reaches).reaches_stopped stopped
  refine ⟨?_, ?_, ?_, stopped⟩
  · rw [simulates.memory]
    exact invariant.accounted.sum
  · rw [simulates.memory]
    exact invariant.accounted.nonneg
  · rw [simulates.memory]
    exact invariant.bounded

end Runs

def graderMutexes : Mutexes where
  monitor := ⟨0, maxMutexes_pos⟩
  cv side :=
    match side with
    | .empty => ⟨1, one_lt_maxMutexes⟩
    | .full => ⟨2, two_lt_maxMutexes⟩
  cv_ne side := by cases side <;> decide

def graders : Machine (KthreadMutex (Fin 2)) (Fin 2) (Memory MesaCond) Point where
  mutex index := KthreadMutex.zeroed.allocate index.val
  activity _ := .user .idle
  memory := fresh graderMutexes.monitor { mutexCV := graderMutexes.cv .empty, waitinCount := 0 }
    { mutexCV := graderMutexes.cv .full, waitinCount := 0 }

theorem graders_fresh : Fresh graderMutexes graders where
  idle _ := rfl
  free _ _ := KthreadMutex.refines_free_allocate KthreadMutex.zeroed_waiting rfl _
  id_eq _ _ := rfl
  memory := rfl

/-- Thread 0 waits for a slot; thread 1 adds three and then stops the monitor;
thread 0 takes one of them in between. -/
def waitAddTakeStop (taker adder : Fin 2) : List (Fin 2 × Choice) :=
  (taker, .start .takeslot) :: List.replicate 9 (taker, .proceed) ++
    (adder, .start (.addslots 3)) :: List.replicate 17 (adder, .proceed) ++
    List.replicate 12 (taker, .proceed) ++
    (adder, .start .stopadding) :: List.replicate 6 (adder, .proceed)

theorem slots_accounted_and_bounded_waitAddTakeStop :
    ∃ after,
      runLabels (Machine.step callSection program) graders (waitAddTakeStop 0 1) = some after ∧
      after.memory.added = [3] ∧ after.memory.taken = 1 ∧
      after.memory.monitor.active = false ∧
      after.memory.monitor.slots + after.memory.taken = after.memory.added.sum ∧
      ∀ later, Reaches (Machine.step callSection program) after later →
        later.memory.monitor.slots = after.memory.monitor.slots := by
  obtain ⟨after, run, added, taken, stopped⟩ :
      ∃ after ∈ runLabels (Machine.step callSection program) graders (waitAddTakeStop 0 1),
      after.memory.added = [3] ∧ after.memory.taken = 1 ∧ after.memory.monitor.active = false := by
    decide +kernel
  have accounted := slots_accounted_and_bounded graders_fresh
    (reaches_of_runLabels (waitAddTakeStop 0 1) run)
  exact ⟨after, run, added, taken, stopped, accounted.1, accounted.2.2.2 stopped⟩

end MesaSlotsMonitor

end Xv6Kthreads
