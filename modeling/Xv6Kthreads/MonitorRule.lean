import Xv6Kthreads.LockCalls
import Mathlib.Data.List.Nodup

/-!
# A rule for monitors

A monitor is user code whose threads hold one particular mutex in their
critical parts.  The rule of this file reduces an invariant of all runs to
conditions on the single accesses and sections of one thread: what the thread
itself knows, that it spoils nothing for the others, that it is in its critical
part only while it owns the mutex, and that it does not take the mutex away
from a thread in its critical part.
-/

namespace Xv6Kthreads

namespace MutexCalls

open Progress

open Function (update update_of_ne update_self)

variable {Thread Memory Point Choice : Type*}

abbrev Model (Thread Memory Point : Type*) :=
  Machine (FifoLock Thread) Thread Memory Point

def Result.queue : Result → Option MutexId
  | .continues progress => progress.queue
  | .returned _ => none

/-- The waiters of a lock after a section of `thread`. -/
def joined (thread : Thread) (result : Result) (index : MutexId)
    (waiters : List Thread) : List Thread :=
  if result.queue = some index then waiters ++ [thread] else waiters

variable {thread : Thread} {index : MutexId}

theorem mem_joined {other : Thread} {result : Result} {waiters : List Thread} :
    other ∈ joined thread result index waiters ↔
      other ∈ waiters ∨ result.queue = some index ∧ other = thread := by
  unfold joined
  split <;> simp [*]

/-- What a section can do to the queues: nothing but a push of its caller, or
that and a pop that hands the lock over. -/
inductive QueueEffect (locks : MutexId → FifoLock Thread) (thread : Thread)
    (outcome : Outcome (FifoLock Thread) Thread) : Prop where
  | keep (woken : outcome.woken = none) (waiters : ∀ index, (outcome.mutex index).waiters =
        joined thread outcome.result index (locks index).waiters)
  | pop (mutex : MutexId) (next : Thread) (rest : List Thread) (woken : outcome.woken = some next)
      (popped : (locks mutex).waiters = next :: rest)
      (owner : (outcome.mutex mutex).owner = some next)
      (waiters : (outcome.mutex mutex).waiters = joined thread outcome.result mutex rest)
      (others : ∀ index, index ≠ mutex → (outcome.mutex index).waiters =
        joined thread outcome.result index (locks index).waiters)

theorem releaseSection_queueEffect (locks : MutexId → FifoLock Thread) (thread : Thread)
    (index : MutexId) {result : Int → Result} (leaves : ∀ value, (result value).queue = none) :
    QueueEffect locks thread (releaseSection locks index result) := by
  unfold releaseSection
  split
  next => exact .keep rfl fun other => by simp [joined, leaves]
  next =>
    cases waiting : (locks index).waiters with
    | nil =>
      refine .keep rfl fun other => ?_
      rw [FifoLock.release_of_waiters_nil waiting]
      rcases eq_or_ne other index with rfl | same
      · simp [joined, leaves, waiting]
      · simp [joined, leaves, same]
    | cons next rest =>
      rw [FifoLock.release_of_waiters_cons waiting]
      refine .pop index next rest rfl waiting ?_ ?_ ?_
      · simp
      · simp [joined, leaves]
      · intro other differs
        simp [joined, leaves, differs]

variable {outcome : Outcome (FifoLock Thread) Thread}
variable {locks : MutexId → FifoLock Thread} {progress : Progress}

theorem lockSection_queueEffect (performs : lockSection locks thread progress = some outcome) :
    QueueEffect locks thread outcome := by
  cases progress with
  | lockEnter index =>
    cases performs
    refine .keep rfl fun other => ?_
    cases owned : (locks index).owner with
    | none =>
      rw [FifoLock.request_of_owner_none owned]
      rcases eq_or_ne other index with rfl | same
      · simp [joined, Result.queue, (locks other).waiters_eq_nil owned]
      · simp [joined, Result.queue, same]
    | some owner =>
      rw [FifoLock.request_of_owner_some owned]
      rcases eq_or_ne other index with rfl | same
      · simp [joined, Result.queue, queue]
      · simp [joined, Result.queue, queue, same, Ne.symm same]
  | lockQueued index | yieldlockQueued index => simp [lockSection] at performs
  | lockPopped index =>
    cases performs
    refine .keep rfl fun other => ?_
    rcases eq_or_ne other index with rfl | same
    · cases owned : (locks other).owner with
      | none =>
        simp [joined, Result.queue, FifoLock.claim_of_owner_none owned,
          (locks other).waiters_eq_nil owned]
      | some owner => simp [joined, Result.queue, FifoLock.claim_of_owner_some owned]
    · simp [joined, Result.queue, same]
  | unlock index =>
    cases performs
    exact releaseSection_queueEffect locks thread index fun _ => rfl
  | yieldlockTest first second =>
    cases performs
    refine .keep rfl fun other => ?_
    have leaves : (if (locks first).owner.isSome then
        Result.continues (.yieldlockSection first second)
        else .returned (-1)).queue = none := by
      split <;> rfl
    simp [joined, leaves]
  | yieldlockSection first second =>
    simp only [lockSection] at performs
    split at performs <;> cases performs
    next =>
      exact .keep rfl fun other => by
        simp [joined, Result.queue, queue]
    next next rest waiting =>
      rw [FifoLock.yieldTo_of_waiters_cons waiting]
      refine .pop second next rest rfl waiting ?_ ?_ ?_
      · simp
      · simp [joined, Result.queue, queue]
      · intro other differs
        simp [joined, Result.queue, queue, differs, Ne.symm differs]
  | yieldlockPopped index =>
    cases performs
    exact .keep rfl fun other => by simp [joined, Result.queue]
  | yieldlockUnlockSecond first second =>
    cases performs
    exact releaseSection_queueEffect locks thread second fun _ => rfl
  | yieldlockUnlockFirst first =>
    cases performs
    exact releaseSection_queueEffect locks thread first fun _ => rfl

theorem queue_eq_none_of_performs (performs : lockSection locks thread progress = some outcome) :
    progress.queue = none := by
  cases progress <;> simp_all [lockSection, queue]

theorem releaseSection_of_ne (locks : MutexId → FifoLock Thread)
    {other : MutexId} (differs : other ≠ index) (result : Int → Result) :
    (releaseSection locks index result).mutex other = locks other := by
  unfold releaseSection
  split
  · rfl
  · exact update_of_ne differs _ _

/-- A section leaves the mutexes alone that its call does not name. -/
theorem lockSection_of_notMem (notNamed : index ∉ progress.mutexes)
    (performs : lockSection locks thread progress = some outcome) :
    outcome.mutex index = locks index := by
  cases progress with
  | lockEnter named | lockPopped named =>
    cases performs
    exact update_of_ne (by simpa [mutexes] using notNamed)
      _ _
  | lockQueued named | yieldlockQueued named => simp [lockSection] at performs
  | unlock named | yieldlockUnlockFirst first =>
    cases performs
    exact releaseSection_of_ne locks (by simpa [mutexes] using notNamed) _
  | yieldlockTest first second | yieldlockPopped named =>
    cases performs
    rfl
  | yieldlockSection first second =>
    have differs : index ≠ second := by
      rintro rfl
      simp [mutexes] at notNamed
    simp only [lockSection] at performs
    split at performs <;> cases performs
    · rfl
    · exact update_of_ne differs _ _
  | yieldlockUnlockSecond first second =>
    have differs : index ≠ second := by
      rintro rfl
      simp [mutexes] at notNamed
    cases performs
    exact releaseSection_of_ne locks differs _

/-- The caller owns the mutex before the section, if all threads do as they
should. -/
def Progress.holding : Progress → Bool
  | .lockEnter _ => false
  | .lockQueued _ => false
  | .yieldlockQueued _ => false
  | .yieldlockUnlockFirst _ => false
  | _ => true

theorem Progress.mem_mutexes_of_queue (queued : progress.queue = some index) :
    index ∈ progress.mutexes := by
  cases progress <;> simp only [queue, Option.some.injEq,
    reduceCtorEq] at queued <;> simp [mutexes, queued]

/-- The owner before and after a section of a thread that unlocks a mutex only
while it owns it and yields it only while somebody waits. -/
inductive Ownership (mutex : MutexId) (thread : Thread) :
    Option Thread → Progress → Option Thread → Result → Prop where
  | acquire : Ownership mutex thread none (.lockEnter mutex) (some thread) (.returned 0)
  | wait (owner : Thread) : Ownership mutex thread (some owner)
      (.lockEnter mutex) (some owner) (.continues (.lockQueued mutex))
  | resume : Ownership mutex thread (some thread) (.lockPopped mutex) (some thread) (.returned 0)
  | release (next : Option Thread) : Ownership mutex thread (some thread)
      (.unlock mutex) next (.returned 0)
  | test : Ownership mutex thread (some thread) (.yieldlockTest mutex mutex)
      (some thread) (.continues (.yieldlockSection mutex mutex))
  | handOver (next : Thread) : Ownership mutex thread (some thread)
      (.yieldlockSection mutex mutex) (some next)
      (.continues (.yieldlockQueued mutex))
  | return : Ownership mutex thread (some thread) (.yieldlockPopped mutex)
      (some thread) (.returned 0)

theorem releaseSection_of_owner {owner : Thread}
    (owned : (locks index).owner = some owner) (result : Int → Result) :
    releaseSection locks index result = ⟨update locks index (locks index).release,
        (locks index).waiters.head?, result 0⟩ := by
  simp [releaseSection, owned]

theorem releaseSection_of_free (unowned : (locks index).owner = none) (result : Int → Result) :
    releaseSection locks index result = ⟨locks, none, result (-1)⟩ := by
  simp [releaseSection, unowned]

theorem ownership_of_performs {mutex : MutexId} (on : ∀ index ∈ progress.mutexes, index = mutex)
    (owned : progress.holding = true → (locks mutex).owner = some thread)
    (busy : progress = .yieldlockSection mutex mutex → (locks mutex).waiters ≠ [])
    (notSecond : progress ≠ .yieldlockUnlockSecond mutex mutex)
    (notFirst : progress ≠ .yieldlockUnlockFirst mutex)
    (performs : lockSection locks thread progress = some outcome) :
    Ownership mutex thread (locks mutex).owner progress
      (outcome.mutex mutex).owner outcome.result := by
  cases progress with
  | lockEnter index =>
    obtain rfl := on index (by simp [mutexes])
    cases performs
    cases owner : (locks index).owner with
    | none =>
      simp only [FifoLock.request_of_owner_none owner, update_self, FifoLock.ownedBy_owner]
      exact .acquire
    | some other =>
      simp only [FifoLock.request_of_owner_some owner, update_self, FifoLock.ownedBy_owner]
      exact .wait other
  | lockQueued index | yieldlockQueued index => simp [lockSection] at performs
  | lockPopped index =>
    obtain rfl := on index (by simp [mutexes])
    cases performs
    have owner := owned rfl
    simp only [FifoLock.claim_of_owner_some owner, update_self, owner]
    exact .resume
  | unlock index =>
    obtain rfl := on index (by simp [mutexes])
    cases performs
    rw [releaseSection_of_owner (owned rfl), owned rfl]
    exact .release _
  | yieldlockTest first second =>
    obtain rfl := on first (by simp [mutexes])
    obtain rfl := on second (by simp [mutexes])
    cases performs
    simp only [owned rfl, Option.isSome_some, if_true]
    exact .test
  | yieldlockSection first second =>
    obtain rfl := on first (by simp [mutexes])
    obtain rfl := on second (by simp [mutexes])
    simp only [lockSection] at performs
    split at performs
    next empty => exact absurd empty (busy rfl)
    next next rest waiting =>
      cases performs
      simp only [FifoLock.yieldTo_of_waiters_cons waiting,
        update_self, FifoLock.ownedBy_owner, owned rfl]
      exact .handOver next
  | yieldlockPopped index =>
    obtain rfl := on index (by simp [mutexes])
    cases performs
    simp only [owned rfl]
    exact .return
  | yieldlockUnlockSecond first second =>
    obtain rfl := on first (by simp [mutexes])
    obtain rfl := on second (by simp [mutexes])
    exact absurd rfl notSecond
  | yieldlockUnlockFirst first =>
    obtain rfl := on first (by simp [mutexes])
    exact absurd rfl notFirst

def Locks (mutex : MutexId) (progress : Progress) : Prop :=
  progress = .lockEnter mutex ∨ progress = .lockQueued mutex ∨ progress = .lockPopped mutex

structure Queued (model : Model Thread Memory Point) : Prop where
  nodup : ∀ index, (model.mutex index).waiters.Nodup
  waiting : ∀ index, ∀ thread ∈ (model.mutex index).waiters,
    (model.activity thread).queue = some index

/-- Where the threads of a monitor are in their critical part, what always
holds, and what each thread knows. -/
structure Assertions (Thread Memory Point : Type*) where
  critical : Activity Point → Prop
  invariant : (MutexId → FifoLock Thread) → Memory → Prop
  holds : Thread → Memory → Activity Point → Prop

variable {activity : Activity Point} {point : Point}

namespace Assertions

variable (assertions : Assertions Thread Memory Point)

structure Valid (mutex : MutexId) (model : Model Thread Memory Point) : Prop where
  queued : Queued model
  owned : ∀ thread, assertions.critical (model.activity thread) →
    (model.mutex mutex).owner = some thread
  invariant : assertions.invariant model.mutex model.memory
  holds : ∀ thread, assertions.holds thread model.memory (model.activity thread)

/-- A thread establishes what it knows next and others keep what they know. -/
structure Keeps (thread : Thread) (before : Memory) (old : Activity Point)
    (locks : MutexId → FifoLock Thread) (after : Memory) (new : Activity Point) : Prop where
  invariant : assertions.invariant locks after
  holds : assertions.holds thread after new
  frame : ∀ other activity, other ≠ thread →
    (assertions.critical old → ¬ assertions.critical activity) →
      assertions.holds other before activity → assertions.holds other after activity

/-- A section takes the thread out of the queue of a mutex and leaves the given
memory. -/
structure Wakes (program : Program Thread Memory Point Choice) (mutex : MutexId)
    (guard : Model Thread Memory Point → Thread × Choice → Prop)
    (model : Model Thread Memory Point) (memory : Memory) (thread : Thread) (index : MutexId) :
    Prop where
  valid : assertions.Valid mutex model
  front : (model.mutex index).waiters.head? = some thread
  waker : ∃ waker choice point progress outcome, guard model (waker, choice) ∧
    model.activity waker = .calling point progress ∧
    lockSection model.mutex waker progress = some outcome ∧ outcome.woken = some thread ∧
    memory = (program.resume waker model.memory point outcome.result).1

structure Rules (program : Program Thread Memory Point Choice) (mutex : MutexId)
    (guard : Model Thread Memory Point → Thread × Choice → Prop) : Prop where
  woken : ∀ model memory thread index,
    assertions.Wakes program mutex guard model memory thread index → ∀ point progress,
      model.activity thread = .calling point progress → progress.queue = some index →
        assertions.holds thread memory (.calling point progress) →
          assertions.holds thread memory (.calling point progress.wake) ∧
            (assertions.critical (.calling point progress.wake) → index = mutex)
  access : ∀ model thread choice point memory next,
    assertions.Valid mutex model → guard model (thread, choice) →
      model.activity thread = .user point → program.access thread model.memory point choice =
            some (memory, next) → assertions.Keeps thread model.memory (.user point) model.mutex
              memory (next.activity point) ∧ (assertions.critical (next.activity point) →
              assertions.critical (.user point))
  performs : ∀ model thread choice point progress outcome,
    assertions.Valid mutex model → guard model (thread, choice) →
      model.activity thread = .calling point progress →
        lockSection model.mutex thread progress = some outcome →
          assertions.Keeps thread model.memory (.calling point progress) outcome.mutex
              (program.resume thread model.memory point outcome.result).1
              (program.resume thread model.memory point outcome.result).2 ∧ (assertions.critical
                (program.resume thread model.memory point outcome.result).2 →
              (outcome.mutex mutex).owner = some thread) ∧
            ((outcome.mutex mutex).owner = (model.mutex mutex).owner ∨ ∀ other, other ≠ thread →
                ¬ assertions.critical (model.activity other))

variable {assertions}
variable {mutex : MutexId} {model : Model Thread Memory Point}

theorem Valid.sole (valid : assertions.Valid mutex model) {other : Thread}
    (differs : other ≠ thread) (critical : assertions.critical (model.activity thread)) :
    ¬ assertions.critical (model.activity other) := by
  intro otherCritical
  have owner := valid.owned thread critical
  rw [valid.owned other otherCritical] at owner
  exact differs (Option.some.inj owner)

section

variable (valid : assertions.Valid mutex model) {activity : Activity Point}
include valid

theorem Valid.holds_at (current : model.activity thread = activity) :
    assertions.holds thread model.memory activity :=
  current ▸ valid.holds thread

/-- A thread in the critical part owns the mutex and is alone there. -/
theorem Valid.caller (current : model.activity thread = activity)
    (critical : assertions.critical activity) :
    (model.mutex mutex).owner = some thread ∧
      ∀ other, other ≠ thread → ¬ assertions.critical (model.activity other) := by
  subst current
  exact ⟨valid.owned thread critical, fun other differs => valid.sole differs critical⟩

theorem Valid.unowned (free : (model.mutex mutex).owner = none) (other : Thread) :
    ¬ assertions.critical (model.activity other) := by
  intro critical
  have owner := valid.owned other critical
  simp [free] at owner

end

/-- What a section of `kthread_mutex_lock` or `kthread_mutex_unlock` on the
monitor's mutex does to its owner. -/
inductive LockStep (assertions : Assertions Thread Memory Point)
    (mutex : MutexId) (model : Model Thread Memory Point) (thread : Thread)
    (progress : Progress) (outcome : Outcome (FifoLock Thread) Thread) : Prop where
  | acquires (result : outcome.result = .returned 0)
      (gets : progress = .lockPopped mutex ∧ (model.mutex mutex).owner = some thread ∨
        progress = .lockEnter mutex ∧ (model.mutex mutex).owner = none)
      (owner : (outcome.mutex mutex).owner = some thread)
      (others : (outcome.mutex mutex).owner = (model.mutex mutex).owner ∨ ∀ other, other ≠ thread →
          ¬ assertions.critical (model.activity other))
  | waits (locks : Locks mutex progress) (result : outcome.result = .continues (.lockQueued mutex))
      (same : (outcome.mutex mutex).owner = (model.mutex mutex).owner)
  | releases (unlocks : progress = .unlock mutex) (owner : (model.mutex mutex).owner = some thread)
      (result : outcome.result = .returned 0)
      (others : ∀ other, other ≠ thread → ¬ assertions.critical (model.activity other))

/-- The sections on the mutex of a monitor in which a call that holds the mutex
is in the critical part. -/
theorem Valid.lockStep (valid : assertions.Valid mutex model)
    (current : model.activity thread = .calling point progress)
    (critical : progress.holding = true → assertions.critical (.calling point progress))
    (sections : progress = .unlock mutex ∨ Locks mutex progress)
    (performs : lockSection model.mutex thread progress = some outcome) :
    LockStep assertions mutex model thread progress outcome := by
  have caller := fun holding => valid.caller current (critical holding)
  have ownership := ownership_of_performs (by rcases sections with rfl | rfl | rfl | rfl <;>
      simp [mutexes]) (fun holding => (caller holding).1)
    (by rcases sections with rfl | rfl | rfl | rfl <;> simp)
    (by rcases sections with rfl | rfl | rfl | rfl <;> simp)
    (by rcases sections with rfl | rfl | rfl | rfl <;> simp) performs
  generalize before : (model.mutex mutex).owner = ownerBefore at ownership
  generalize after : (outcome.mutex mutex).owner = ownerAfter at ownership
  generalize left : outcome.result = result at ownership
  cases ownership with
  | acquire =>
    exact .acquires left (Or.inr ⟨rfl, before⟩) after
      (Or.inr fun other _ => valid.unowned before other)
  | wait owner => exact .waits (Or.inl rfl) left (after.trans before.symm)
  | resume => exact .acquires left (Or.inl ⟨rfl, before⟩) after (Or.inl (after.trans before.symm))
  | release next => exact .releases rfl before left (caller rfl).2
  | test | handOver next | «return» => simp [Locks] at sections

/-- A monitor whose mutex is free and that no thread has entered. -/
theorem valid_withFreeLocks {machine : Machine (KthreadMutex Thread) Thread Memory Point}
    (outside : ∀ thread, ¬ assertions.critical (machine.activity thread))
    (invariant : assertions.invariant (fun _ => FifoLock.free) machine.memory)
    (holds : ∀ thread, assertions.holds thread machine.memory (machine.activity thread)) :
    assertions.Valid mutex machine.withFreeLocks where
  queued := ⟨fun _ => List.nodup_nil, by simp [Machine.withFreeLocks]⟩
  owned thread critical := absurd critical (outside thread)
  invariant := invariant
  holds := holds

theorem Rules.wake {program : Program Thread Memory Point Choice}
    {guard : Model Thread Memory Point → Thread × Choice → Prop}
    (rules : assertions.Rules program mutex guard) {memory : Memory}
    (wakes : assertions.Wakes program mutex guard model memory thread index)
    (waits : (model.activity thread).queue = some index)
    (holds : assertions.holds thread memory (model.activity thread)) :
    assertions.holds thread memory (model.activity thread).wake ∧
      (assertions.critical (model.activity thread).wake → index = mutex) := by
  cases current : model.activity thread with
  | user point => simp [current, Activity.queue] at waits
  | calling point progress =>
    rw [current] at waits holds
    exact rules.woken model memory thread index wakes point progress current waits holds

end Assertions

section Preservation

variable [DecidableEq Thread]
variable {model : Model Thread Memory Point} {thread : Thread}

theorem Queued.update (queued : Queued model) (outside : (model.activity thread).queue = none)
    (memory : Memory) (activity : Activity Point) :
    Queued { model with activity := update model.activity thread activity, memory } where
  nodup := queued.nodup
  waiting index other isWaiter := by
    have waits := queued.waiting index other isWaiter
    have differs : other ≠ thread := by
      rintro rfl
      simp [outside] at waits
    simpa [differs] using waits

theorem Queued.performs (queued : Queued model) (outside : (model.activity thread).queue = none)
    (effect : QueueEffect model.mutex thread outcome) (memory : Memory)
    (joins : outcome.result.queue = activity.queue) :
    Queued
      { mutex := outcome.mutex
        activity := Function.update (Machine.wake model.activity outcome.woken) thread activity
        memory := memory } := by
  have absent : ∀ index, thread ∉ (model.mutex index).waiters := by
    intro index isWaiter
    have waits := queued.waiting index thread isWaiter
    simp [outside] at waits
  have joinedNodup : ∀ index waiters, waiters.Nodup → thread ∉ waiters →
      (joined thread outcome.result index waiters).Nodup := by
    intro index waiters nodup notWaiter
    unfold joined
    split
    · rw [← List.concat_eq_append]
      exact List.Nodup.concat notWaiter nodup
    · exact nodup
  cases effect with
  | keep woken waiters =>
    constructor
    · intro index
      simp only [waiters]
      exact joinedNodup index _ (queued.nodup index) (absent index)
    · intro index other isWaiter
      simp only [waiters, mem_joined] at isWaiter
      rcases isWaiter with before | ⟨joinsIndex, rfl⟩
      · have differs : other ≠ thread := by
          rintro rfl
          exact absent index before
        simpa [Machine.wake, woken, differs] using queued.waiting index other before
      · simpa [← joins] using joinsIndex
  | pop mutex next rest woken popped owner waiters others =>
    have nextWaits : (model.activity next).queue = some mutex :=
      queued.waiting mutex next (by simp [popped])
    have nodup := queued.nodup mutex
    rw [popped, List.nodup_cons] at nodup
    constructor
    · intro index
      rcases eq_or_ne index mutex with rfl | same
      · simp only [waiters]
        apply joinedNodup index rest nodup.2
        intro isWaiter
        apply absent index
        rw [popped]
        exact List.mem_cons_of_mem next isWaiter
      · simp only [others index same]
        exact joinedNodup index _ (queued.nodup index) (absent index)
    · intro index other isWaiter
      have cases : (other ∈ (model.mutex index).waiters ∧ other ≠ next) ∨
          outcome.result.queue = some index ∧ other = thread := by
        rcases eq_or_ne index mutex with rfl | same
        · simp only [waiters, mem_joined] at isWaiter
          refine isWaiter.imp_left fun inRest => ⟨?_, ?_⟩
          · rw [popped]
            exact List.mem_cons_of_mem next inRest
          · rintro rfl
            exact nodup.1 inRest
        · simp only [others index same, mem_joined] at isWaiter
          refine isWaiter.imp_left fun before => ⟨before, ?_⟩
          rintro rfl
          have waits := queued.waiting index other before
          rw [nextWaits] at waits
          exact same (Option.some.inj waits).symm
      rcases cases with ⟨before, notNext⟩ | ⟨joinsIndex, rfl⟩
      · have differs : other ≠ thread := by
          rintro rfl
          exact absent index before
        simpa [Machine.wake, woken, differs, notNext] using queued.waiting index other before
      · simpa [← joins] using joinsIndex

namespace Assertions

variable {assertions : Assertions Thread Memory Point} {mutex : MutexId}
variable {program : Program Thread Memory Point Choice}
variable {guard : Model Thread Memory Point → Thread × Choice → Prop}
variable {next : Model Thread Memory Point}

section

variable (rules : assertions.Rules program mutex guard) (valid : assertions.Valid mutex model)

include rules valid

theorem Rules.access_valid {choice : Choice} {memory : Memory} {following : Next Point}
    (allowed : guard model (thread, choice)) (current : model.activity thread = .user point)
    (accessed : program.access thread model.memory point choice = some (memory, following)) :
    assertions.Valid mutex { model with
        activity := update model.activity thread (following.activity point), memory } := by
  obtain ⟨keeps, stillCritical⟩ := rules.access model thread choice point
    memory following valid allowed current accessed
  refine ⟨valid.queued.update (by rw [current]; rfl) memory _, ?_, keeps.invariant, ?_⟩
  · intro other critical
    apply valid.owned
    rcases eq_or_ne other thread with rfl | same
    · simp only [update_self] at critical
      rw [current]
      exact stillCritical critical
    · simpa only [update_of_ne same] using critical
  · intro other
    rcases eq_or_ne other thread with rfl | same
    · simp only [update_self]
      exact keeps.holds
    · simp only [update_of_ne same]
      apply keeps.frame other _ same _ (valid.holds other)
      intro ownCritical
      apply valid.sole same
      rw [current]
      exact ownCritical

theorem Rules.performs_valid {choice : Choice} (allowed : guard model (thread, choice))
    (current : model.activity thread = .calling point progress)
    (performs : lockSection model.mutex thread progress = some outcome) :
    assertions.Valid mutex
      { mutex := outcome.mutex
        activity := Function.update (Machine.wake model.activity outcome.woken) thread
          (program.resume thread model.memory point outcome.result).2
        memory :=
          (program.resume thread model.memory point outcome.result).1 } := by
  obtain ⟨keeps, ownCritical, othersKeep⟩ := rules.performs model thread
    choice point progress outcome valid allowed current performs
  have outside : (model.activity thread).queue = none := by
    rw [current]
    exact queue_eq_none_of_performs performs
  have effect := lockSection_queueEffect performs
  have joins : outcome.result.queue = (program.resume thread model.memory point
        outcome.result).2.queue := by
    cases outcome.result <;> rfl
  have framed : ∀ other, other ≠ thread → assertions.holds other
      (program.resume thread model.memory point outcome.result).1
      (model.activity other) := by
    intro other differs
    apply keeps.frame other _ differs _ (valid.holds other)
    intro oldCritical
    apply valid.sole differs
    rw [current]
    exact oldCritical
  have stillOwned : ∀ other, other ≠ thread → assertions.critical (model.activity other) →
        (outcome.mutex mutex).owner = some other := by
    intro other differs critical
    rcases othersKeep with same | noneCritical
    · rw [same]
      exact valid.owned other critical
    · exact absurd critical (noneCritical other differs)
  have wakes : ∀ {popMutex next rest}, outcome.woken = some next →
      (model.mutex popMutex).waiters = next :: rest → assertions.Wakes program mutex guard model
        (program.resume thread model.memory point outcome.result).1 next popMutex := by
    intro popMutex next rest woken popped
    refine ⟨valid, by rw [popped]; rfl, ?_⟩
    exact ⟨thread, choice, point, progress, outcome, allowed, current, performs, woken, rfl⟩
  refine ⟨valid.queued.performs outside effect _ joins, ?_, keeps.invariant, ?_⟩
  · intro other critical
    rcases eq_or_ne other thread with rfl | same
    · simp only [Function.update_self] at critical
      exact ownCritical critical
    · simp only [Function.update_of_ne same] at critical
      cases effect with
      | keep woken waiters =>
        rw [woken] at critical
        exact stillOwned other same critical
      | pop popMutex next rest woken popped owner waiters others =>
        rw [woken] at critical
        rcases eq_or_ne other next with rfl | isNext
        · simp only [Machine.wake, Function.update_self] at critical
          have waits := valid.queued.waiting popMutex other (by simp [popped])
          rw [← (rules.wake (wakes woken popped) waits (framed other same)).2 critical]
          exact owner
        · simp only [Machine.wake, Function.update_of_ne isNext] at critical
          exact stillOwned other same critical
  · intro other
    rcases eq_or_ne other thread with rfl | same
    · simp only [Function.update_self]
      exact keeps.holds
    · simp only [Function.update_of_ne same]
      cases effect with
      | keep woken waiters =>
        rw [woken]
        exact framed other same
      | pop popMutex next rest woken popped owner waiters others =>
        rw [woken]
        rcases eq_or_ne other next with rfl | isNext
        · simp only [Machine.wake, Function.update_self]
          have waits := valid.queued.waiting popMutex other (by simp [popped])
          exact (rules.wake (wakes woken popped) waits (framed other same)).1
        · simp only [Machine.wake, Function.update_of_ne isNext]
          exact framed other same

/-- The rule for one step: it keeps what the threads rely on. -/
theorem Rules.step_valid {label : Thread × Choice} (allowed : guard model label)
    (stepTo : model.step lockSection program label = some next) :
    assertions.Valid mutex next := by
  unfold Machine.step at stepTo
  split at stepTo
  next point current =>
    split at stepTo <;> cases stepTo
    next memory following accessed => exact rules.access_valid valid allowed current accessed
  next point progress current =>
    split at stepTo <;> cases stepTo
    next outcome performs => exact rules.performs_valid valid allowed current performs

end

theorem Rules.reaches (rules : assertions.Rules program mutex guard) {allocated : MutexId → Prop}
    {machine after : Machine (KthreadMutex Thread) Thread Memory Point}
    {kernelGuard : Machine (KthreadMutex Thread) Thread Memory Point → Thread × Choice → Prop}
    (within : ∀ model, assertions.Valid mutex model → model.Within allocated)
    (guards : ∀ machine model label, Simulates allocated machine model →
      kernelGuard machine label → guard model label)
    (simulates : Simulates allocated machine model)
    (valid : assertions.Valid mutex model)
    (reaches : LabelledRun.GuardedReaches
      (Machine.step callSection program) kernelGuard machine after) :
    ∃ model, Simulates allocated after model ∧
      assertions.Valid mutex model :=
  simulates.reaches (assertions.Valid mutex) valid within
    (fun machine model label _ simulates valid allowed stepTo =>
      rules.step_valid valid (guards machine model label simulates allowed) stepTo)
    reaches

end Assertions

end Preservation

end MutexCalls

end Xv6Kthreads
