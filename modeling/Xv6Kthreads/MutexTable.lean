import Xv6Kthreads.LockCalls

/-!
# The mutex table as an allocator

The ids of the mutex calls come from user programs.  Here a call runs to its
end, or until its caller waits, and its ids are any integers.  An access beside
the table, or to a `queueLock` that no `kthread_mutex_alloc` has set, is an
outcome of its own.
-/

namespace Xv6Kthreads

open LabelledRun Function List

namespace MutexTable

/-- Where a thread is: outside the mutex calls, in a queue since
`kthread_mutex_lock` or `kthread_mutex_yieldlock`, or taken out of it. -/
inductive Place where
  | outside
  | queued (index : MutexId)
  | yielded (index : MutexId)
  | popped (index : MutexId)
  deriving DecidableEq

def Place.wake : Place → Place
  | .queued index => .popped index
  | .yielded _ => .outside
  | place => place

/-- The mutex table and the threads.  `allocated` and `holds` record, for the
statements only, the ids that are allocated and who has locked them. -/
structure State (Thread : Type*) where
  mutex : MutexId → KthreadMutex Thread
  queueLock : MutexId → Bool
  state : Thread → RunState
  place : Thread → Place
  allocated : Int → Bool
  holds : Thread → Int → Bool

inductive Outcome (Thread : Type*) where
  | outside (id : Int)
  | noLock (index : MutexId)
  | panics
  | returns (value : Int) (after : State Thread)
  | waits (after : State Thread)

inductive Call where
  | lock (id : Int)
  | unlock (id : Int)
  | yieldlock (first second : Int)

def Call.ids : Call → List Int
  | .lock id | .unlock id => [id]
  | .yieldlock first second => [first, second]

inductive Label (Thread : Type*) where
  | alloc
  | dealloc (id : Int)
  | call (thread : Thread) (call : Call)
  | resume (thread : Thread)

variable {Thread : Type*}

namespace Outcome

/-- The call has stayed inside the table and has taken only locks that are
set. -/
def Safe : Outcome Thread → Prop
  | .outside _ | .noLock _ => False
  | _ => True

def bind (next : State Thread → Outcome Thread) : Outcome Thread → Outcome Thread
  | .returns _ after => next after
  | outcome => outcome

def next (record : Int → State Thread → State Thread) : Outcome Thread → Option (State Thread)
  | .returns value after => some (record value after)
  | .waits after => some after
  | _ => none

end Outcome

def start (states : Thread → RunState) : State Thread where
  mutex _ := .zeroed
  queueLock _ := false
  state := states
  place _ := .outside
  allocated _ := false
  holds _ _ := false

namespace State

section Entries

variable (state : State Thread)

def setMutex (index : MutexId) (mutex : KthreadMutex Thread) : State Thread :=
  { state with mutex := update state.mutex index mutex }

def kthreadMutexAlloc : Int × State Thread :=
  match (finRange MAX_MUTEXES).find? fun index =>
      (state.mutex index).state == .unusedMutex with
  | none => (-1, state)
  | some index =>
    (index.val, { state.setMutex index ((state.mutex index).allocate index.val) with
      queueLock := update state.queueLock index true })

/-- `kthread_mutex_dealloc`: only the first entry with the id counts. -/
def kthreadMutexDealloc (id : Int) : Int × State Thread :=
  match (finRange MAX_MUTEXES).find? fun index => (state.mutex index).id == id with
  | none => (-1, state)
  | some index =>
    if (state.mutex index).state = .usedMutex ∧ (state.mutex index).locked = false then
      (0, state.setMutex index { state.mutex index with
        state := .unusedMutex
        id := -1 })
    else
      (-1, state)

/-- `&mutextable.mutexes[id]`, followed. -/
def follow (id : Int) (next : MutexId → Outcome Thread) : Outcome Thread :=
  match Kernel.mutexIndex id with
  | none => .outside id
  | some index => next index

def acquire (index : MutexId) (next : Outcome Thread) : Outcome Thread :=
  if state.queueLock index then next else .noLock index

/-- The common beginning of `kthread_mutex_lock` and `kthread_mutex_unlock`. -/
def enter (id : Int) (body : MutexId → Outcome Thread) : Outcome Thread :=
  follow id fun index =>
    if (state.mutex index).state = .unusedMutex then
      .returns (-1) state
    else
      state.acquire index (body index)

end Entries

variable [DecidableEq Thread] (state : State Thread) (thread : Thread)

def wake : State Thread :=
  { state with
    state := update state.state thread .runnable
    place := update state.place thread (state.place thread).wake }

def wait (place : Place) : State Thread :=
  { state with
    state := update state.state thread .blocked
    place := update state.place thread place }

def kthreadMutexLock (id : Int) : Outcome Thread :=
  state.enter id fun index =>
    match (state.mutex index).kthreadMutexLockEnter thread with
    | none => .panics
    | some (.returned value, mutex) => .returns value (state.setMutex index mutex)
    | some (.queued, mutex) => .waits ((state.setMutex index mutex).wait thread (.queued index))

def kthreadMutexUnlock (id : Int) : Outcome Thread :=
  state.enter id fun index =>
    match (state.mutex index).kthreadMutexUnlock with
    | none => .panics
    | some (value, none, mutex) => .returns value (state.setMutex index mutex)
    | some (value, some thread, mutex) =>
      .returns value ((state.setMutex index mutex).wake thread)

/-- `kthread_mutex_yieldlock`, which does not look at the states of its
mutexes. -/
def kthreadMutexYieldlock (id1 id2 : Int) : Outcome Thread :=
  follow id1 fun first =>
    if (state.mutex first).locked = false then
      .returns (-1) state
    else
      follow id2 fun second => state.acquire second <|
        if !(state.mutex second).emptyQueue then
          match (state.mutex second).popThreadToMutexQueue with
          | none => .panics
          | some (popped, rest) =>
            match rest.pushThreadToMutexQueue thread with
            | none => .panics
            | some pushed =>
              .waits (((state.setMutex second pushed).wait thread (.yielded second)).wake popped)
        else
          (state.kthreadMutexUnlock (state.mutex second).id).bind fun unlocked =>
            (unlocked.kthreadMutexUnlock (unlocked.mutex first).id).bind (.returns 0)

def run : Call → Outcome Thread
  | .lock id => state.kthreadMutexLock thread id
  | .unlock id => state.kthreadMutexUnlock id
  | .yieldlock id1 id2 => state.kthreadMutexYieldlock thread id1 id2

def setHolds (id : Int) (value : Bool) : State Thread :=
  { state with
    holds other key := if other = thread ∧ key = id then value else state.holds other key }

/-- A successful lock call makes the thread the owner, until it unlocks. -/
def record (call : Call) (value : Int) : State Thread :=
  match call with
  | .lock id => state.setHolds thread id (state.holds thread id || value == 0)
  | .unlock id => state.setHolds thread id false
  | .yieldlock _ _ => state

/-- The rest of `kthread_mutex_lock` for a thread that has been taken out of the
queue. -/
def resume : Option (State Thread) :=
  match state.place thread with
  | .popped index =>
    let resumed := state.setMutex index (state.mutex index).kthreadMutexLockResume
    some { resumed.setHolds thread index.val true with
      place := update state.place thread .outside }
  | _ => none

def step : Label Thread → Option (State Thread)
  | .alloc =>
    let (value, after) := state.kthreadMutexAlloc
    some (if value = -1 then after
      else { after with allocated := update after.allocated value true })
  | .dealloc id =>
    let (value, after) := state.kthreadMutexDealloc id
    some (if value = 0 then { after with allocated := update after.allocated id false }
      else after)
  | .call thread call =>
    if state.place thread = .outside then
      (state.run thread call).next fun value after => after.record thread call value
    else
      none
  | .resume thread => state.resume thread

end State

/-- What the table says about allocation. -/
structure Shape where
  state : MutexId → MutexState
  id : MutexId → Int
  queueLock : MutexId → Bool
  allocated : Int → Bool

def State.shape (state : State Thread) : Shape :=
  ⟨fun index => (state.mutex index).state, fun index => (state.mutex index).id,
    state.queueLock, state.allocated⟩

/-- The ids and the locks of the entries follow their states, and the allocated
ids are those of the used entries. -/
structure Table (shape : Shape) : Prop where
  used : ∀ index, shape.state index = .usedMutex →
    shape.id index = index.val ∧ shape.queueLock index = true
  unused : ∀ index, shape.state index = .unusedMutex → shape.id index = 0 ∨ shape.id index = -1
  allocated : ∀ id, shape.allocated id = true ↔
    ∃ index : MutexId, index.val = id ∧ shape.state index = .usedMutex

section Calls

variable {state : State Thread} {shape : Shape} {index : MutexId}

theorem shape_setMutex {mutex : KthreadMutex Thread}
    (kept : mutex.state = (state.mutex index).state ∧ mutex.id = (state.mutex index).id) :
    (state.setMutex index mutex).shape = state.shape := by
  have states : ∀ other, (update state.mutex index mutex other).state =
      (state.mutex other).state := by
    grind [update_apply]
  have ids : ∀ other, (update state.mutex index mutex other).id = (state.mutex other).id := by
    grind [update_apply]
  simp [State.shape, State.setMutex, states, ids]

/-- The call leaves the shape of the table as it is. -/
def Outcome.Keeps (shape : Shape) : Outcome Thread → Prop
  | .returns _ after | .waits after => after.shape = shape
  | _ => True

theorem Outcome.Keeps.bind {outcome : Outcome Thread} {next : State Thread → Outcome Thread}
    (keeps : outcome.Keeps shape) (more : ∀ after, after.shape = shape → (next after).Keeps shape) :
    (outcome.bind next).Keeps shape := by
  cases outcome with
  | returns value after => exact more after keeps
  | _ => exact keeps

theorem keeps_follow {id : Int} {next : MutexId → Outcome Thread}
    (keeps : ∀ index, (next index).Keeps shape) : (State.follow id next).Keeps shape := by
  unfold State.follow
  split
  next => trivial
  next index _ => exact keeps index

theorem keeps_acquire {next : Outcome Thread} (keeps : next.Keeps shape) :
    (state.acquire index next).Keeps shape := by
  unfold State.acquire
  split
  next => exact keeps
  next => trivial

theorem keeps_enter {id : Int} {body : MutexId → Outcome Thread}
    (keeps : ∀ index, (body index).Keeps state.shape) :
    (state.enter id body).Keeps state.shape := by
  refine keeps_follow fun index => ?_
  split
  next => rfl
  next => exact keeps_acquire (keeps index)

variable [DecidableEq Thread]

theorem keeps_lock (thread : Thread) (id : Int) :
    (state.kthreadMutexLock thread id).Keeps state.shape := by
  refine keeps_enter fun index => ?_
  split
  next => trivial
  all_goals
    next result => exact shape_setMutex (KthreadMutex.kthreadMutexLockEnter_kept result)

theorem keeps_unlock (state : State Thread) (id : Int) :
    (state.kthreadMutexUnlock id).Keeps state.shape := by
  refine keeps_enter fun index => ?_
  split
  next => trivial
  all_goals
    next result => exact shape_setMutex (KthreadMutex.kthreadMutexUnlock_kept result)

theorem keeps_yieldlock (thread : Thread) (id1 id2 : Int) :
    (state.kthreadMutexYieldlock thread id1 id2).Keeps state.shape := by
  refine keeps_follow fun first => ?_
  split
  next => rfl
  next =>
    refine keeps_follow fun second => keeps_acquire ?_
    split
    next =>
      split
      next => trivial
      next popped rest popResult =>
        split
        next => trivial
        next pushed pushResult =>
          have popKept := KthreadMutex.popThreadToMutexQueue_kept popResult
          have pushKept := KthreadMutex.pushThreadToMutexQueue_kept pushResult
          exact shape_setMutex ⟨pushKept.1.trans popKept.1, pushKept.2.trans popKept.2⟩
    next =>
      refine (keeps_unlock state _).bind fun unlocked same => ?_
      rw [← same]
      exact (keeps_unlock unlocked _).bind fun after kept => kept

theorem keeps_run (state : State Thread) (thread : Thread) (call : Call) :
    (state.run thread call).Keeps state.shape := by
  cases call with
  | lock id => exact keeps_lock thread id
  | unlock id => exact keeps_unlock state id
  | yieldlock id1 id2 => exact keeps_yieldlock thread id1 id2

end Calls

section Allocation

variable {state : State Thread}

theorem alloc_cases (state : State Thread) :
    state.kthreadMutexAlloc = (-1, state) ∧ (∀ index, (state.mutex index).state = .usedMutex) ∨
      ∃ index, (state.mutex index).state = .unusedMutex ∧
        state.kthreadMutexAlloc = ((index.val : Int),
          { state.setMutex index ((state.mutex index).allocate index.val) with
            queueLock := update state.queueLock index true }) := by
  unfold State.kthreadMutexAlloc
  split
  next none =>
    refine Or.inl ⟨rfl, fun index => ?_⟩
    have notUnused := find?_eq_none.mp none index (mem_finRange index)
    cases isState : (state.mutex index).state with
    | usedMutex => rfl
    | unusedMutex => simp [isState] at notUnused
  next index found =>
    exact Or.inr ⟨index, by simpa using find?_some found, rfl⟩

/-- `kthread_mutex_dealloc` frees the entry of an allocated and unlocked mutex,
or it fails. -/
theorem Table.dealloc_cases (table : Table state.shape) (id : Int) :
    (∃ index : MutexId, index.val = id ∧ (state.mutex index).state = .usedMutex ∧
        (state.mutex index).locked = false ∧ state.kthreadMutexDealloc id =
          (0, state.setMutex index { state.mutex index with
            state := .unusedMutex
            id := -1 })) ∨
      state.kthreadMutexDealloc id = (-1, state) ∧ ∀ index : MutexId, index.val = id →
        (state.mutex index).state = .usedMutex → (state.mutex index).locked = true := by
  unfold State.kthreadMutexDealloc
  split
  next none =>
    refine Or.inr ⟨rfl, fun index isId used => ?_⟩
    have notFound := find?_eq_none.mp none index (mem_finRange index)
    rw [beq_iff_eq] at notFound
    exact absurd ((table.used index used).1.trans isId) notFound
  next index found =>
    have isId : (state.mutex index).id = id := by simpa using find?_some found
    split
    next free =>
      exact Or.inl ⟨index, (table.used index free.1).1.symm.trans isId, free.1, free.2, rfl⟩
    next notFree =>
      refine Or.inr ⟨rfl, fun other isOther used => ?_⟩
      have otherId : (state.mutex other).id = id := (table.used other used).1.trans isOther
      suffices same : index = other by
        subst same
        simpa [used] using notFree
      cases isState : (state.mutex index).state with
      | usedMutex =>
        have indexId : (state.mutex index).id = index.val := (table.used index isState).1
        exact Fin.ext (by omega)
      | unusedMutex =>
        -- Only the first entry can have the id of an entry that was never used.
        have isZero : other = ⟨0, by decide⟩ := by
          have indexId : (state.mutex index).id = 0 ∨ (state.mutex index).id = -1 :=
            table.unused index isState
          exact Fin.ext (by simp; omega)
        obtain ⟨rest, entries⟩ : ∃ rest, finRange MAX_MUTEXES = other :: rest := by
          rw [isZero]
          exact ⟨_, finRange_succ⟩
        rw [entries, find?_cons_of_pos (by simpa using otherId)] at found
        exact (Option.some.inj found).symm

variable [DecidableEq Thread] {after : State Thread}

theorem Table.alloc (table : Table state.shape) (stepTo : state.step .alloc = some after) :
    Table after.shape := by
  rcases alloc_cases state with ⟨result, -⟩ | ⟨index, unused, result⟩
  · simp only [State.step, result, if_pos] at stepTo
    cases stepTo
    exact table
  · have notError : ¬ (index.val : Int) = -1 := by omega
    simp only [State.step, result, if_neg notError] at stepTo
    cases stepTo
    obtain ⟨used, free, allocated⟩ := table
    simp only [State.shape] at used free allocated
    refine ⟨?_, ?_, ?_⟩ <;> simp only [State.shape, State.setMutex] <;>
      grind [update_apply, KthreadMutex.allocate]

theorem Table.dealloc (table : Table state.shape) {id : Int}
    (stepTo : state.step (.dealloc id) = some after) : Table after.shape := by
  rcases table.dealloc_cases id with ⟨index, isId, used, -, result⟩ | ⟨result, -⟩
  · simp only [State.step, result, if_pos] at stepTo
    cases stepTo
    obtain ⟨used, free, allocated⟩ := table
    simp only [State.shape] at used free allocated
    refine ⟨?_, ?_, ?_⟩ <;> simp only [State.shape, State.setMutex] <;> grind [update_apply]
  · simp only [State.step, result] at stepTo
    cases stepTo
    exact table

theorem Table.step (table : Table state.shape) {label : Label Thread}
    (stepTo : state.step label = some after) : Table after.shape := by
  cases label with
  | alloc => exact table.alloc stepTo
  | dealloc id => exact table.dealloc stepTo
  | call thread call =>
    have keeps := keeps_run state thread call
    obtain ⟨-, stepTo⟩ := Option.ite_none_right_eq_some.mp stepTo
    cases result : state.run thread call with
    | returns value unrecorded =>
      rw [result] at keeps stepTo
      cases stepTo
      have same : (unrecorded.record thread call value).shape = unrecorded.shape := by
        cases call <;> rfl
      rwa [same, keeps]
    | waits waiting =>
      rw [result] at keeps stepTo
      cases stepTo
      rwa [keeps]
    | _ =>
      rw [result] at stepTo
      cases stepTo
  | resume thread =>
    simp only [State.step, State.resume] at stepTo
    split at stepTo <;> cases stepTo
    next index isAt =>
      have same : (state.setMutex index (state.mutex index).kthreadMutexLockResume).shape =
          state.shape := shape_setMutex ⟨rfl, rfl⟩
      change Table (state.setMutex index (state.mutex index).kthreadMutexLockResume).shape
      rwa [same]

omit [DecidableEq Thread] in
theorem table_start (states : Thread → RunState) : Table (start states).shape := by
  refine ⟨?_, ?_, ?_⟩ <;> simp [State.shape, start, KthreadMutex.zeroed]

end Allocation

section BadIds

variable {state : State Thread} {index : MutexId}

/-- The ids are inside the table, and `kthread_mutex_yieldlock` on a locked
first mutex gets two allocated mutexes. -/
def State.Proper (state : State Thread) : Call → Prop
  | .lock id | .unlock id => ∃ index : MutexId, index.val = id
  | .yieldlock first second => ∃ index : MutexId, index.val = first ∧
      ((state.mutex index).locked = true →
        state.allocated first = true ∧ state.allocated second = true)

theorem Outcome.Safe.bind {outcome : Outcome Thread} {next : State Thread → Outcome Thread}
    (safe : outcome.Safe) (more : ∀ value after, outcome = .returns value after →
      (next after).Safe) : (outcome.bind next).Safe := by
  cases outcome with
  | returns value after => exact more value after rfl
  | _ => exact safe

theorem Table.enter_eq (table : Table state.shape) (index : MutexId)
    (body : MutexId → Outcome Thread) :
    state.enter index.val body =
      if (state.mutex index).state = .unusedMutex then .returns (-1) state else body index := by
  rw [State.enter, State.follow, MutexCalls.mutexIndex_val]
  dsimp only
  cases isState : (state.mutex index).state with
  | unusedMutex => rfl
  | usedMutex =>
    have isSet : state.queueLock index = true := (table.used index isState).2
    rw [State.acquire, isSet]
    rfl

theorem Table.enter_unallocated (table : Table state.shape)
    (free : state.allocated index.val = false) (body : MutexId → Outcome Thread) :
    state.enter index.val body = .returns (-1) state := by
  rw [table.enter_eq, if_pos]
  cases isState : (state.mutex index).state with
  | unusedMutex => rfl
  | usedMutex =>
    have isAllocated := (table.allocated index.val).mpr ⟨index, rfl, isState⟩
    exact absurd isAllocated (by simp [State.shape, free])

variable [DecidableEq Thread]

theorem Table.unlock_safe (table : Table state.shape) (index : MutexId) :
    (state.kthreadMutexUnlock index.val).Safe := by
  rw [State.kthreadMutexUnlock, table.enter_eq]
  split
  next => trivial
  next => split <;> trivial

/-- Calls with proper ids stay inside the table, and with an id that is not
allocated they return -1 and change nothing. -/
theorem bad_ids_rejected {states : Thread → RunState}
    (reaches : Reaches State.step (start states) state) (call : Call)
    (proper : state.Proper call) (thread : Thread) :
    (state.run thread call).Safe ∧ ((∃ id ∈ call.ids, state.allocated id = false) →
      state.run thread call = .returns (-1) state) := by
  have table : Table state.shape := reaches.invariant (fun state => Table state.shape)
    (table_start states) fun _ _ _ table stepTo => table.step stepTo
  cases call with
  | lock id =>
    obtain ⟨index, rfl⟩ := proper
    refine ⟨?_, ?_⟩
    · rw [State.run, State.kthreadMutexLock, table.enter_eq]
      split
      next => trivial
      next => split <;> trivial
    · rintro ⟨id, isId, free⟩
      rw [Call.ids, mem_singleton] at isId
      exact table.enter_unallocated (isId ▸ free) _
  | unlock id =>
    obtain ⟨index, rfl⟩ := proper
    refine ⟨table.unlock_safe index, ?_⟩
    rintro ⟨id, isId, free⟩
    rw [Call.ids, mem_singleton] at isId
    exact table.enter_unallocated (isId ▸ free) _
  | yieldlock id1 id2 =>
    obtain ⟨first, rfl, both⟩ := proper
    rw [State.run, State.kthreadMutexYieldlock, State.follow, MutexCalls.mutexIndex_val]
    dsimp only
    cases isLocked : (state.mutex first).locked with
    | false => exact ⟨trivial, fun _ => rfl⟩
    | true =>
      obtain ⟨firstLive, secondLive⟩ := both isLocked
      obtain ⟨second, rfl, used⟩ := (table.allocated id2).mp secondLive
      refine ⟨?_, ?_⟩
      · have isSet : state.queueLock second = true := (table.used second used).2
        have secondId : (state.mutex second).id = second.val := (table.used second used).1
        rw [State.follow, MutexCalls.mutexIndex_val]
        dsimp only
        rw [State.acquire, isSet]
        simp only [secondId, if_true, Bool.true_eq_false, if_false]
        split
        next =>
          split
          next => trivial
          next => split <;> trivial
        next =>
          refine (table.unlock_safe second).bind fun value unlocked result => ?_
          have same : unlocked.shape = state.shape := by
            have keeps := keeps_unlock state second.val
            rwa [result] at keeps
          obtain ⟨other, isFirst, firstUsed⟩ := (table.allocated first.val).mp firstLive
          obtain rfl : other = first := Fin.ext (by omega)
          rw [← same] at table firstUsed
          have firstId : (unlocked.mutex other).id = other.val := (table.used other firstUsed).1
          rw [firstId]
          exact (table.unlock_safe other).bind fun _ _ _ => trivial
      · rintro ⟨id, isId, free⟩
        simp only [Call.ids, mem_cons, not_mem_nil, or_false] at isId
        rcases isId with rfl | rfl <;> simp_all

/-- One mutex has been allocated and locked. -/
def oneLocked : List (Label Unit) :=
  [.alloc, .call () (.lock 0)]

theorem bad_ids_rejected_oneLocked : ∃ state : State Unit, state.allocated 1 = false ∧
      state.run () (.unlock 1) = .returns (-1) state := by
  obtain ⟨state, run, free⟩ : ∃ state ∈ runLabels State.step (start fun _ => .running) oneLocked,
      state.allocated 1 = false := by
    decide +kernel
  exact ⟨state, free, (bad_ids_rejected (reaches_of_runLabels oneLocked run)
    (.unlock 1) ⟨⟨1, by decide⟩, rfl⟩ ()).2 ⟨1, by simp [Call.ids], free⟩⟩

/-- An id behind the table is followed, and so is the null `queueLock` of a
mutex that was never allocated. -/
theorem bad_ids_followed : (start fun _ : Unit => .running).run () (.lock 64) = .outside 64 ∧
    ∃ state : State Unit, Reaches State.step (start fun _ => .running) state ∧
      state.run () (.yieldlock 0 1) = .noLock ⟨1, by decide⟩ := by
  exact ⟨rfl, exists_reaches oneLocked ⟨_, rfl, rfl⟩⟩

end BadIds

/-! ### Locking by owners -/

def Place.phase (index : MutexId) : Place → MutexHandoff.Phase
  | .queued other => if other = index then .queued else .outside
  | .popped other => if other = index then .popped else .outside
  | _ => .outside

/-- What concerns one mutex. -/
def State.view (state : State Thread) (index : MutexId) (pushes handovers : List Thread) :
    MutexHandoff.State Thread where
  mutex := state.mutex index
  phase thread := (state.place thread).phase index
  holds thread := state.holds thread index.val
  pushes := pushes
  handovers := handovers

/-- Used mutexes implement hand-over locks, and no thread has to do with the
others. -/
structure Sound (state : State Thread) : Prop where
  table : Table state.shape
  live : ∀ index, (state.mutex index).state = .usedMutex →
    ∃ pushes handovers lock, MutexHandoff.Agrees (state.view index pushes handovers) lock
  idle : ∀ index, (state.mutex index).state = .unusedMutex →
    (state.mutex index).Waiting [] ∧ (state.mutex index).locked = false ∧
      ∀ thread, state.holds thread index.val = false ∧ (state.place thread).phase index = .outside

section Owners

variable {state after : State Thread} {index : MutexId} {thread : Thread}

theorem Place.eq_queued {place : Place} (isQueued : place.phase index = .queued) :
    place = .queued index := by
  cases place with
  | queued other => simpa [Place.phase] using isQueued
  | popped other => grind [Place.phase]
  | _ => cases isQueued

theorem view_eq {mutex : KthreadMutex Thread} {phase : Thread → MutexHandoff.Phase}
    {holds : Thread → Bool} {pushes handovers : List Thread} (mutexIs : after.mutex index = mutex)
    (phases : ∀ thread, (after.place thread).phase index = phase thread)
    (held : ∀ thread, after.holds thread index.val = holds thread) :
    after.view index pushes handovers = ⟨mutex, phase, holds, pushes, handovers⟩ := by
  rw [State.view, mutexIs, funext phases, funext held]

theorem used_of_not_unused (isUsed : ¬ (state.mutex index).state = .unusedMutex) :
    (state.mutex index).state = .usedMutex := by
  cases isState : (state.mutex index).state with
  | usedMutex => rfl
  | unusedMutex => exact absurd isState isUsed

/-- A change of one entry that no thread has to do with. -/
theorem Sound.replace {mutex : KthreadMutex Thread} (sound : Sound state)
    (table : Table after.shape) (mutexes : after.mutex = update state.mutex index mutex)
    (places : after.place = state.place) (holds : after.holds = state.holds)
    (waiting : mutex.Waiting []) (unlocked : mutex.locked = false)
    (nobody : ∀ thread, state.holds thread index.val = false ∧
      (state.place thread).phase index = .outside) : Sound after := by
  have others : ∀ other, other ≠ index → ∀ pushes handovers,
      after.view other pushes handovers = state.view other pushes handovers := by
    intro other notIndex pushes handovers
    rw [State.view, mutexes, places, holds, update_of_ne notIndex, State.view]
  refine ⟨table, ?_, ?_⟩
  · intro other used
    rcases eq_or_ne other index with rfl | same
    · rw [mutexes, update_self] at used
      refine ⟨[], [], FifoLock.free, ?_⟩
      have fresh : after.view other [] [] = MutexHandoff.initial mutex := by
        refine view_eq (by rw [mutexes, update_self]) ?_ ?_
        · exact fun thread => places ▸ (nobody thread).2
        · exact fun thread => holds ▸ (nobody thread).1
      rw [fresh]
      exact MutexHandoff.agrees_initial ⟨used, unlocked, waiting⟩
    · simp only [others other same]
      rw [mutexes, update_of_ne same] at used
      exact sound.live other used
  · intro other unused
    rw [mutexes] at unused ⊢
    rw [places, holds]
    rcases eq_or_ne other index with rfl | same
    · rw [update_self]
      exact ⟨waiting, unlocked, nobody⟩
    · rw [update_of_ne same] at unused ⊢
      exact sound.idle other unused

theorem Sound.waiting (sound : Sound state) (unlocked : (state.mutex index).locked = false) :
    (state.mutex index).Waiting [] ∧ ∀ thread, state.holds thread index.val = false ∧
      (state.place thread).phase index = .outside := by
  cases isState : (state.mutex index).state with
  | unusedMutex =>
    obtain ⟨waiting, -, nobody⟩ := sound.idle index isState
    exact ⟨waiting, nobody⟩
  | usedMutex =>
    obtain ⟨_, _, lock, agrees⟩ := sound.live index isState
    have noOwner : lock.owner = none := by
      have isLocked : (state.mutex index).locked = lock.owner.isSome := agrees.refines.locked_eq
      cases isOwner : lock.owner with
      | none => rfl
      | some owner => simp [isOwner, unlocked] at isLocked
    have noWaiters := lock.waiters_eq_nil noOwner
    refine ⟨noWaiters ▸ agrees.refines.waiting, fun thread => ?_⟩
    have notOwner := agrees.owner_iff thread
    have notQueued := agrees.queued_iff thread
    simp only [MutexHandoff.State.Owner, State.view, noOwner, noWaiters, not_mem_nil,
      reduceCtorEq, iff_false, not_or] at notOwner notQueued
    refine ⟨by simpa using notOwner.1, ?_⟩
    cases isPhase : (state.place thread).phase index with
    | outside => rfl
    | queued => exact absurd isPhase notQueued
    | popped => exact absurd isPhase notOwner.2

theorem followed {id : Int} {next : MutexId → Outcome Thread}
    {record : Int → State Thread → State Thread}
    (stepTo : (State.follow id next).next record = some after) :
    ∃ index : MutexId, index.val = id := by
  by_cases bounded : 0 ≤ id ∧ id.toNat < MAX_MUTEXES
  · exact ⟨⟨id.toNat, bounded.2⟩, Int.toNat_of_nonneg bounded.1⟩
  · rw [State.follow, Kernel.mutexIndex, dif_neg bounded] at stepTo
    cases stepTo

theorem sound_start (states : Thread → RunState) : Sound (start states) := by
  refine ⟨table_start states, ?_, ?_⟩
  · intro index used
    simp [start, KthreadMutex.zeroed] at used
  · intro index unused
    exact ⟨KthreadMutex.zeroed_waiting, rfl, fun thread => ⟨rfl, rfl⟩⟩

theorem Sound.allocated_iff (sound : Sound state) :
    state.allocated index.val = true ↔ (state.mutex index).state = .usedMutex := by
  refine (sound.table.allocated index.val).trans ⟨?_, fun used => ⟨index, rfl, used⟩⟩
  rintro ⟨other, same, used⟩
  obtain rfl : other = index := Fin.ext (by omega)
  exact used

theorem Sound.queue_empty (sound : Sound state) (unlocked : (state.mutex index).locked = false)
    (slot : Fin NTHREAD) : (state.mutex index).threadsQueue slot = none := by
  simpa using (sound.waiting unlocked).1.stored.2 slot

variable [DecidableEq Thread]

theorem setHolds_same (state : State Thread) (thread : Thread) (id : Int) :
    state.setHolds thread id (state.holds thread id) = state := by
  have same : (fun other key => if other = thread ∧ key = id then state.holds thread id
      else state.holds other key) = state.holds := by
    funext other key
    grind
  rw [State.setHolds, same]

/-- A section on one mutex. -/
theorem Sound.act (sound : Sound state) (table : Table after.shape)
    (used : (state.mutex index).state = .usedMutex) (label : MutexHandoff.Label Thread)
    (moves : ∀ pushes handovers, ∃ pushes' handovers',
      MutexHandoff.step (state.view index pushes handovers) label =
        some (after.view index pushes' handovers'))
    (others : ∀ other, other ≠ index → ∀ pushes handovers,
      after.view other pushes handovers = state.view other pushes handovers) :
    Sound after := by
  obtain ⟨pushes, handovers, lock, agrees⟩ := sound.live index used
  obtain ⟨pushes', handovers', stepTo⟩ := moves pushes handovers
  obtain ⟨lock', agrees'⟩ := MutexHandoff.exists_agrees_of_step ⟨lock, agrees⟩ stepTo
  refine ⟨table, ?_, ?_⟩
  · intro other isUsed
    by_cases same : other = index
    · exact same ▸ ⟨pushes', handovers', lock', agrees'⟩
    · have mutex : after.mutex other = state.mutex other :=
        congrArg MutexHandoff.State.mutex (others other same [] [])
      simp only [others other same]
      exact sound.live other (mutex ▸ isUsed)
  · intro other isUnused
    have notIndex : other ≠ index := by
      rintro rfl
      have isUsed := agrees'.refines.used
      simp [State.view, isUnused] at isUsed
    have mutex := congrArg MutexHandoff.State.mutex (others other notIndex [] [])
    have phase := congrArg MutexHandoff.State.phase (others other notIndex [] [])
    have holds := congrArg MutexHandoff.State.holds (others other notIndex [] [])
    simp only [State.view] at mutex phase holds
    obtain ⟨waiting, unlocked, nobody⟩ := sound.idle other (mutex ▸ isUnused)
    rw [mutex]
    refine ⟨waiting, unlocked, fun thread => ?_⟩
    rw [congrFun phase thread, congrFun holds thread]
    exact nobody thread

theorem Sound.lock (sound : Sound state) (isOutside : state.place thread = .outside)
    (table : Table after.shape) (stepTo : (state.kthreadMutexLock thread index.val).next
      (fun value after => after.record thread (.lock index.val) value) = some after) :
    Sound after := by
  rw [State.kthreadMutexLock, sound.table.enter_eq] at stepTo
  split at stepTo
  next =>
    cases stepTo
    change Sound (state.setHolds thread index.val (state.holds thread index.val || false))
    rwa [Bool.or_false, setHolds_same]
  next isUsed =>
    have used := used_of_not_unused isUsed
    have enters : (state.place thread).phase index = .outside := by rw [isOutside]; rfl
    split at stepTo <;> cases stepTo
    next value mutex result =>
      refine sound.act table used (.lockEnter thread)
        (fun pushes handovers => ⟨pushes, handovers, ?_⟩)
        fun other notIndex _ _ => view_eq ?_ ?_ ?_
      on_goal 1 =>
        simp only [MutexHandoff.step, State.view, enters, result, if_true]
        refine congrArg some (view_eq ?_ ?_ ?_).symm
      all_goals
        simp only [State.record, State.setHolds, State.setMutex]
        grind [update_apply]
    next mutex result =>
      refine sound.act table used (.lockEnter thread)
        (fun pushes handovers => ⟨pushes ++ [thread], handovers, ?_⟩)
        fun other notIndex _ _ => view_eq ?_ ?_ ?_
      on_goal 1 =>
        simp only [MutexHandoff.step, State.view, enters, result, if_true]
        refine congrArg some (view_eq ?_ ?_ ?_).symm
      all_goals
        simp only [State.wait, State.setMutex]
        grind [Place.phase, update_apply]

theorem Sound.unlock (sound : Sound state) (isOutside : state.place thread = .outside)
    (owns : state.holds thread index.val = true) (table : Table after.shape)
    (stepTo : (state.kthreadMutexUnlock index.val).next
      (fun value after => after.record thread (.unlock index.val) value) = some after) :
    Sound after := by
  rw [State.kthreadMutexUnlock, sound.table.enter_eq] at stepTo
  split at stepTo
  next isUnused => simp [((sound.idle index isUnused).2.2 thread).1] at owns
  next isUsed =>
    have used := used_of_not_unused isUsed
    have enters : (state.place thread).phase index = .outside := by rw [isOutside]; rfl
    split at stepTo <;> cases stepTo
    next value mutex result =>
      refine sound.act table used (.unlock thread) (fun pushes handovers => ⟨pushes, handovers, ?_⟩)
        fun other notIndex _ _ => view_eq ?_ ?_ ?_
      on_goal 1 =>
        simp only [MutexHandoff.step, State.view, enters, owns, result, and_self, if_true]
        refine congrArg some (view_eq ?_ ?_ ?_).symm
      all_goals
        simp only [State.record, State.setHolds, State.setMutex]
        grind [update_apply]
    next value next mutex result =>
      have waits : state.place next = .queued index := by
        obtain ⟨_, _, lock, agrees⟩ := sound.live index used
        rcases agrees.refines.waiting.unlock_cases result with
          ⟨nobody, -⟩ | ⟨first, rest, waiters, isFirst, -⟩
        · cases nobody
        · cases isFirst
          exact Place.eq_queued ((agrees.queued_iff next).mpr (waiters ▸ mem_cons_self))
      refine sound.act table used (.unlock thread)
        (fun pushes handovers => ⟨pushes, handovers ++ [next], ?_⟩)
        fun other notIndex _ _ => view_eq ?_ ?_ ?_
      on_goal 1 =>
        simp only [MutexHandoff.step, State.view, enters, owns, result, and_self, if_true]
        refine congrArg some (view_eq ?_ ?_ ?_).symm
      all_goals
        simp only [State.record, State.setHolds, State.setMutex, State.wake, waits]
        grind [Place.wake, Place.phase, update_apply]

theorem Sound.resume (sound : Sound state) (table : Table after.shape)
    (stepTo : state.resume thread = some after) : Sound after := by
  unfold State.resume at stepTo
  split at stepTo <;> cases stepTo
  rename_i index isPopped
  have popped : (state.place thread).phase index = .popped := by simp [isPopped, Place.phase]
  have used : (state.mutex index).state = .usedMutex := by
    refine used_of_not_unused fun isUnused => ?_
    have away := ((sound.idle index isUnused).2.2 thread).2
    rw [popped] at away
    cases away
  refine sound.act table used (.lockResume thread) ?_ ?_
  · intro pushes handovers
    refine ⟨pushes, handovers, (if_pos popped).trans (congrArg some ?_)⟩
    refine (view_eq ?_ ?_ ?_).symm <;> simp only [State.view, State.setMutex, State.setHolds] <;>
      grind [Place.phase, update_apply]
  · intro other notIndex pushes handovers
    refine view_eq ?_ ?_ ?_ <;> simp only [State.setMutex, State.setHolds] <;>
      grind [Place.phase, update_apply]

/-- Only owners unlock. -/
def State.ByOwner (state : State Thread) : Label Thread → Prop
  | .call thread (.unlock id) => state.holds thread id = true
  | .call _ (.yieldlock _ _) => False
  | _ => True

instance (state : State Thread) : DecidablePred state.ByOwner
  | .call thread (.unlock id) => inferInstanceAs (Decidable (state.holds thread id = true))
  | .call _ (.yieldlock _ _) => isFalse id
  | .call _ (.lock _) | .alloc | .dealloc _ | .resume _ => isTrue trivial

theorem Sound.alloc (sound : Sound state) (stepTo : state.step .alloc = some after) :
    Sound after := by
  have table := sound.table.alloc stepTo
  rcases alloc_cases state with ⟨result, -⟩ | ⟨index, unused, result⟩
  · simp only [State.step, result, if_pos] at stepTo
    cases stepTo
    exact sound
  · have notError : ¬ (index.val : Int) = -1 := by omega
    simp only [State.step, result, if_neg notError] at stepTo
    cases stepTo
    obtain ⟨waiting, unlocked, nobody⟩ := sound.idle index unused
    exact sound.replace table rfl rfl rfl (waiting.allocate index.val) unlocked nobody

theorem Sound.dealloc (sound : Sound state) {id : Int}
    (stepTo : state.step (.dealloc id) = some after) : Sound after := by
  have table := sound.table.dealloc stepTo
  rcases sound.table.dealloc_cases id with ⟨index, isId, used, unlocked, result⟩ | ⟨result, -⟩
  · simp only [State.step, result, if_pos] at stepTo
    cases stepTo
    obtain ⟨waiting, nobody⟩ := sound.waiting unlocked
    refine sound.replace table rfl rfl rfl { waiting with }
      unlocked nobody
  · simp only [State.step, result] at stepTo
    cases stepTo
    exact sound

theorem Sound.step (sound : Sound state) {label : Label Thread} (byOwner : state.ByOwner label)
    (stepTo : state.step label = some after) : Sound after := by
  have table := sound.table.step stepTo
  cases label with
  | alloc => exact sound.alloc stepTo
  | dealloc id => exact sound.dealloc stepTo
  | call thread call =>
    obtain ⟨isOutside, stepTo⟩ := Option.ite_none_right_eq_some.mp stepTo
    cases call with
    | lock id =>
      obtain ⟨index, rfl⟩ := followed stepTo
      exact sound.lock isOutside table stepTo
    | unlock id =>
      obtain ⟨index, rfl⟩ := followed stepTo
      exact sound.unlock isOutside byOwner table stepTo
    | yieldlock first second => exact byOwner.elim
  | resume thread => exact sound.resume table stepTo

/-- While only owners unlock, the table allocates exactly the free ids and frees
exactly the allocated and unlocked ones. -/
theorem table_exact_allocator {states : Thread → RunState}
    (reaches : GuardedReaches State.step State.ByOwner (start states) state) :
    (state.kthreadMutexAlloc.1 = -1 ↔ ∀ index : MutexId, state.allocated index.val = true) ∧
    (state.kthreadMutexAlloc.1 ≠ -1 → ∃ index : MutexId,
      state.kthreadMutexAlloc.1 = index.val ∧ state.allocated index.val = false ∧
        (state.kthreadMutexAlloc.2.mutex index).state = .usedMutex ∧
        (state.kthreadMutexAlloc.2.mutex index).locked = false ∧
        ∀ slot, (state.kthreadMutexAlloc.2.mutex index).threadsQueue slot = none) ∧
    (∀ id, (state.kthreadMutexDealloc id).1 = 0 ↔ ∃ index : MutexId, index.val = id ∧
      state.allocated id = true ∧ (state.mutex index).locked = false) ∧
    (∀ index : MutexId, (state.kthreadMutexDealloc index.val).1 = 0 →
      ((state.kthreadMutexDealloc index.val).2.mutex index).state = .unusedMutex ∧
        ∀ other, other ≠ index →
          (state.kthreadMutexDealloc index.val).2.mutex other = state.mutex other) ∧
    ∀ index, (state.mutex index).locked = false →
      ∀ slot, (state.mutex index).threadsQueue slot = none := by
  have sound : Sound state := reaches.invariant Sound (sound_start states)
    fun _ _ _ sound byOwner stepTo => sound.step byOwner stepTo
  refine ⟨?_, ?_, ?_, ?_, fun index => sound.queue_empty⟩
  · simp only [sound.allocated_iff]
    rcases alloc_cases state with ⟨result, all⟩ | ⟨index, unused, result⟩
    · simpa [result] using all
    · rw [result]
      refine iff_of_false (by simp) fun all => ?_
      simp [all index] at unused
  · intro notError
    rcases alloc_cases state with ⟨result, -⟩ | ⟨index, unused, result⟩
    · simp [result] at notError
    · rw [result]
      have unlocked := (sound.idle index unused).2.1
      refine ⟨index, rfl, ?_, ?_⟩
      · simp [← Bool.not_eq_true, sound.allocated_iff, unused]
      · simpa [State.setMutex, KthreadMutex.allocate, unlocked] using sound.queue_empty unlocked
  · intro id
    rcases sound.table.dealloc_cases id with ⟨index, rfl, used, unlocked, result⟩ | ⟨result, held⟩
    · simp only [result, true_iff]
      exact ⟨index, rfl, sound.allocated_iff.mpr used, unlocked⟩
    · rw [result]
      refine iff_of_false (by simp) ?_
      rintro ⟨index, rfl, isAllocated, unlocked⟩
      simp [held index rfl (sound.allocated_iff.mp isAllocated)] at unlocked
  · intro index freed
    rcases sound.table.dealloc_cases index.val with ⟨other, same, -, -, result⟩ | ⟨result, -⟩
    · obtain rfl : other = index := Fin.ext (by omega)
      rw [result]
      exact ⟨by simp [State.setMutex], fun entry notOther => update_of_ne notOther _ _⟩
    · simp [result] at freed

end Owners

/-- A mutex has been locked, unlocked, freed and allocated again. -/
def reused : List (Label Unit) :=
  [.alloc, .call () (.lock 0), .call () (.unlock 0), .dealloc 0, .alloc]

theorem table_exact_allocator_reused :
    ∃ state : State Unit, state.allocated 0 = true ∧ (state.kthreadMutexDealloc 0).1 = 0 := by
  obtain ⟨state, run, isAllocated, unlocked⟩ :
      ∃ state ∈ runLabels (restrict State.step State.ByOwner)
      (start fun _ : Unit => .running) reused, state.allocated 0 = true ∧
        (state.mutex ⟨0, by decide⟩).locked = false := by
    decide +kernel
  have allocator := table_exact_allocator (guardedReaches_of_runLabels reused run)
  exact ⟨state, isAllocated, (allocator.2.2.1 0).mpr ⟨⟨0, by decide⟩, rfl, isAllocated, unlocked⟩⟩

end MutexTable

end Xv6Kthreads
