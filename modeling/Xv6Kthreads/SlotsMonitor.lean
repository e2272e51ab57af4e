import Xv6Kthreads.MutexCalls

/-!
# The slots monitors

The two slots monitors, with Hoare and with Mesa condition variables, have the
same record and the same three operations, up to the code of the condition
variables and to what they do after a wait.  This file holds what they share:
the operations with these two parameters, and the account of the slots added
and taken.  The history of additions and decrements exists for the statements
only.  The C `int` fields are unbounded integers here.
-/

namespace Xv6Kthreads

structure SlotsMonitor (Cond : Type*) where
  monitormutex : MutexId
  empty : Cond
  full : Cond
  slots : Int
  active : Bool

namespace SlotsMonitor

open MutexCalls

inductive Operation where
  | addslots (n : Int)
  | takeslot
  | stopadding
  deriving DecidableEq, Repr

inductive Side where
  | empty
  | full
  deriving DecidableEq, Repr

namespace Operation

/-- The test of `slots` on which the operation waits. -/
def blocked : Operation → Int → Bool
  | .addslots _, slots => 0 < slots
  | .takeslot, slots => slots = 0
  | .stopadding, _ => false

def waitsOn : Operation → Side
  | .addslots _ => .full
  | _ => .empty

def signals : Operation → Side
  | .addslots _ => .empty
  | _ => .full

/-- What the operation stores into `slots` when it has loaded `slots`. -/
def result : Operation → Int → Int
  | .addslots n, slots => slots + n
  | .takeslot, slots => slots - 1
  | .stopadding, slots => slots

end Operation

variable {Cond : Type*}

def cond (monitor : SlotsMonitor Cond) : Side → Cond
  | .empty => monitor.empty
  | .full => monitor.full

def setCond (monitor : SlotsMonitor Cond) (cond : Cond) : Side → SlotsMonitor Cond
  | .empty => { monitor with empty := cond }
  | .full => { monitor with full := cond }

section

variable (monitor : SlotsMonitor Cond) (cond : Cond) (side : Side)
include monitor cond side

@[simp]
theorem setCond_slots : (monitor.setCond cond side).slots = monitor.slots := by
  cases side <;> rfl

@[simp]
theorem setCond_active : (monitor.setCond cond side).active = monitor.active := by
  cases side <;> rfl

@[simp]
theorem setCond_monitormutex : (monitor.setCond cond side).monitormutex = monitor.monitormutex := by
  cases side <;> rfl

end

/-- A monitor with the history of the additions and of the number of
decrements stored so far. -/
structure Memory (Cond : Type*) where
  monitor : SlotsMonitor Cond
  added : List Int
  taken : Nat

namespace Memory

variable (memory : Memory Cond)

def setCond (side : Side) (cond : Cond) : Memory Cond :=
  { memory with monitor := memory.monitor.setCond cond side }

/-- The store to `slots` of an operation that has loaded `slots`. -/
def storeSlots (operation : Operation) (slots : Int) : Memory Cond :=
  { monitor := { memory.monitor with slots := operation.result slots }
    added :=
      match operation with
      | .addslots n => n :: memory.added
      | _ => memory.added
    taken :=
      match operation with
      | .takeslot => memory.taken + 1
      | _ => memory.taken }

def stop : Memory Cond :=
  { memory with monitor := { memory.monitor with active := false } }

structure Accounted (memory : Memory Cond) : Prop where
  nonneg : 0 ≤ memory.monitor.slots
  sum : memory.monitor.slots + memory.taken = memory.added.sum

/-- The operation can store: `takeslot` finds a slot and `addslots` adds no
negative number. -/
def Ready (operation : Operation) (slots : Int) : Prop :=
  match operation with
  | .addslots n => 0 ≤ n
  | .takeslot => 0 < slots
  | .stopadding => True

/-- The store of an operation that loaded `slots` keeps the account. -/
theorem Accounted.storeSlots {memory : Memory Cond} (accounted : memory.Accounted)
    {operation : Operation} (ready : Ready operation memory.monitor.slots) :
    (memory.storeSlots operation memory.monitor.slots).Accounted := by
  have nonneg := accounted.nonneg
  have sum := accounted.sum
  cases operation with
  | addslots n =>
    have positive : 0 ≤ n := ready
    constructor
    · simp only [Memory.storeSlots, Operation.result]
      omega
    · simp only [Memory.storeSlots, Operation.result, List.sum_cons]
      omega
  | takeslot =>
    have available : 0 < memory.monitor.slots := ready
    constructor
    · simp only [Memory.storeSlots, Operation.result]
      omega
    · simp only [Memory.storeSlots, Operation.result]
      omega
  | stopadding => exact ⟨nonneg, sum⟩

end Memory

def fresh (mutex : MutexId) (empty full : Cond) : Memory Cond where
  monitor :=
    { monitormutex := mutex
      empty := empty
      full := full
      slots := 0
      active := true }
  added := []
  taken := 0

theorem fresh_accounted (mutex : MutexId) (empty full : Cond) :
    (fresh mutex empty full).Accounted :=
  ⟨le_refl 0, rfl⟩

/-- The accesses and calls of the operations, in the order of the source. -/
inductive Point (CondPoint : Type*) where
  | idle
  | testActive (operation : Operation)
  | lock (operation : Operation)
  | testWaitActive (operation : Operation)
  | testWaitSlots (operation : Operation)
  | waiting (operation : Operation) (point : CondPoint)
  | testStoreActive (operation : Operation)
  | loadSlots (operation : Operation)
  | storeSlots (operation : Operation) (slots : Int)
  | signalling (operation : Operation) (point : CondPoint)
  | storeActive
  | unlock (operation : Operation)
  deriving DecidableEq

/-- A thread starts an operation or goes on with the one it executes. -/
inductive Choice where
  | start (operation : Operation)
  | proceed

section Program

variable {Thread CondPoint : Type*}

def afterLock : Operation → Point CondPoint
  | .stopadding => .storeActive
  | operation => .testWaitActive operation

/-- What follows inside a wait; the value it returns is not looked at. -/
def followWait (afterWait : Operation → Point CondPoint)
    (operation : Operation) : Follow CondPoint → Point CondPoint
  | .goTo point => .waiting operation point
  | .returned _ => afterWait operation

/-- What follows inside a signal; the value it returns is not looked at. -/
def followSignal (operation : Operation) : Follow CondPoint → Point CondPoint
  | .goTo point => .signalling operation point
  | .returned _ => .unlock operation

def condAccess (code : CondCode Cond CondPoint) (memory : Memory Cond)
    (side : Side) (point : CondPoint) (follow : Follow CondPoint → Point CondPoint) :
    Memory Cond × Next (Point CondPoint) :=
  match code.access (memory.monitor.cond side) point with
  | none =>
    (memory, .call (code.call memory.monitor.monitormutex (memory.monitor.cond side) point))
  | some (changed, following) => (memory.setCond side changed, .goTo (follow following))

/-- The operations, for a kind of condition variables, the calls that are
admitted, and the point at which an operation goes on after a wait. -/
def program (code : CondCode Cond CondPoint) (admissible : Operation → Bool)
    (afterWait : Operation → Point CondPoint) :
    Program Thread (Memory Cond) (Point CondPoint) Choice where
  access _ memory point choice :=
    match point, choice with
    | .idle, .start operation =>
      if admissible operation then
        some (memory, .goTo (.testActive operation))
      else
        none
    | .testActive operation, .proceed =>
      if memory.monitor.active then
        some (memory, .goTo (.lock operation))
      else
        some (memory, .goTo .idle)
    | .lock _, .proceed =>
      some (memory, .call (sysKthreadMutexLock memory.monitor.monitormutex))
    | .testWaitActive operation, .proceed =>
      if memory.monitor.active then
        some (memory, .goTo (.testWaitSlots operation))
      else
        some (memory, .goTo (.testStoreActive operation))
    | .testWaitSlots operation, .proceed =>
      if operation.blocked memory.monitor.slots then
        some (memory, .goTo (.waiting operation code.wait))
      else
        some (memory, .goTo (.testStoreActive operation))
    | .waiting operation point, .proceed =>
      some (condAccess code memory operation.waitsOn point (followWait afterWait operation))
    | .testStoreActive operation, .proceed =>
      if memory.monitor.active then
        some (memory, .goTo (.loadSlots operation))
      else
        some (memory, .goTo (.signalling operation code.signal))
    | .loadSlots operation, .proceed =>
      some (memory, .goTo (.storeSlots operation memory.monitor.slots))
    | .storeSlots operation slots, .proceed =>
      some (memory.storeSlots operation slots, .goTo (.signalling operation code.signal))
    | .signalling operation point, .proceed =>
      some (condAccess code memory operation.signals point (followSignal operation))
    | .storeActive, .proceed => some (memory.stop, .goTo (.unlock .stopadding))
    | .unlock _, .proceed =>
      some (memory, .call (sysKthreadMutexUnlock memory.monitor.monitormutex))
    | _, _ => none
  returns _ memory point value :=
    (memory, match point with
      | .lock operation => if value < -1 then .idle else afterLock operation
      | .waiting operation point => followWait afterWait operation (code.afterCall point value)
      | .signalling operation point => followSignal operation (code.afterCall point value)
      | .unlock _ => .idle
      | point => point)

end Program

structure SameSlots (before after : Memory Cond) : Prop where
  slots : after.monitor.slots = before.monitor.slots
  active : after.monitor.active = before.monitor.active
  mutex : after.monitor.monitormutex = before.monitor.monitormutex
  added : after.added = before.added
  taken : after.taken = before.taken

theorem SameSlots.refl (memory : Memory Cond) : SameSlots memory memory :=
  ⟨rfl, rfl, rfl, rfl, rfl⟩

theorem sameSlots_setCond (memory : Memory Cond) (side : Side) (cond : Cond) :
    SameSlots memory (memory.setCond side cond) where
  slots := setCond_slots _ _ _
  active := setCond_active _ _ _
  mutex := setCond_monitormutex _ _ _
  added := rfl
  taken := rfl

theorem SameSlots.accounted {before after : Memory Cond}
    (same : SameSlots before after) (accounted : before.Accounted) :
    after.Accounted := by
  constructor
  · rw [same.slots]
    exact accounted.nonneg
  · rw [same.slots, same.taken, same.added]
    exact accounted.sum

/-- Only the stores of `addslots` and `takeslot` change `slots`, and nothing
makes a stopped monitor active again. -/
theorem program_access_slots {Thread CondPoint : Type*}
    {code : CondCode Cond CondPoint} {admissible : Operation → Bool}
    {afterWait : Operation → Point CondPoint} {thread : Thread}
    {before after : Memory Cond} {point : Point CondPoint} {choice : Choice}
    {next : Next (Point CondPoint)}
    (accessed : (program code admissible afterWait).access thread before point
      choice = some (after, next))
    (noStore : ∀ operation slots, point ≠ .storeSlots operation slots) :
    after.monitor.slots = before.monitor.slots ∧
      (before.monitor.active = false → after.monitor.active = false) := by
  have unchanged : ∀ {taken : Next (Point CondPoint)}, some (before, taken) = some (after, next) →
        after.monitor.slots = before.monitor.slots ∧
          (before.monitor.active = false → after.monitor.active = false) := by
    rintro _ ⟨⟩
    exact ⟨rfl, id⟩
  have inCond : ∀ {side : Side} {inner : CondPoint} {follow : Follow CondPoint → Point CondPoint},
      some (condAccess code before side inner follow) = some (after, next) →
        after.monitor.slots = before.monitor.slots ∧
          (before.monitor.active = false → after.monitor.active = false) := by
    intro side inner follow result
    unfold condAccess at result
    split at result
    · exact unchanged result
    · cases result
      exact ⟨setCond_slots _ _ _, (setCond_active _ _ _).trans⟩
  cases choice with
  | start operation =>
    cases point <;> simp only [program, reduceCtorEq] at accessed
    split at accessed
    · exact unchanged accessed
    · simp at accessed
  | proceed =>
    cases point with
    | idle => simp [program] at accessed
    | testActive operation | testWaitActive operation
    | testWaitSlots operation | testStoreActive operation =>
      simp only [program] at accessed
      split at accessed <;> exact unchanged accessed
    | lock operation => exact unchanged accessed
    | waiting operation inner => exact inCond accessed
    | loadSlots operation => exact unchanged accessed
    | storeSlots operation slots => exact absurd rfl (noStore _ _)
    | signalling operation inner => exact inCond accessed
    | storeActive =>
      cases accessed
      exact ⟨rfl, fun _ => rfl⟩
    | unlock operation => exact unchanged accessed

end SlotsMonitor

end Xv6Kthreads
