import Xv6Kthreads.LabelledRun
import Xv6Kthreads.LockTable
import Xv6Kthreads.MutexSpinlocks
import Xv6Kthreads.ThreadTable

/-!
# The order of `ptable.lock` and `queueLock`

`kthread_mutex_unlock` and `kthread_mutex_yieldlock` take `ptable.lock` while
they hold a `queueLock`; a thread that resumes in `kthread_mutex_lock` takes the
`queueLock` while it holds `ptable.lock`.  Two processors that do so for one
mutex block each other.  This file shows that this does not happen in the runs
in which a waiter is taken out of a queue only when it has blocked and every
waiter taken out of that queue before has come back to the `queueLock`.
-/

namespace Xv6Kthreads

namespace MutexSpinlocks

open List

open Function (update update_eq_self update_of_ne update_self)

open LabelledRun

variable {Cpu Thread : Type*} {mutex : MutexId} {pc : Pc Thread}
variable {thread : Thread}

namespace Pc

/-- The mutex in whose queue a thread with this next operation has put
itself. -/
def queue : Pc Thread → Option MutexId
  | .lockReleasePushed mutex => some mutex
  | .lockAcquirePtable mutex => some mutex
  | .lockBlock mutex => some mutex
  | .yieldlockRelease mutex => some mutex
  | .yieldlockSched mutex => some mutex
  | .yieldAcquire place => place.queue
  | .yieldSched place => place.queue
  | .yieldResume place => place.queue
  | _ => none

/-- The mutex for which a thread that resumes here has been blocked. -/
def awaited : Pc Thread → Option MutexId
  | .lockReacquire mutex => some mutex
  | .yieldlockResume mutex => some mutex
  | _ => none

/-- The mutex for which a thread on a processor is marked `BLOCKED`. -/
def parked : Pc Thread → Option MutexId
  | .yieldlockPush mutex => some mutex
  | .yieldlockRelease mutex => some mutex
  | .yieldlockSched mutex => some mutex
  | _ => none

/-- The thread that has been taken out of a mutex queue and not yet been made
runnable. -/
def popped : Pc Thread → Option (MutexId × Thread)
  | .unlockAcquirePtable mutex thread _ => some (mutex, thread)
  | .unlockWake mutex thread _ => some (mutex, thread)
  | .yieldlockAcquirePtable mutex thread => some (mutex, thread)
  | .yieldlockBlock mutex thread => some (mutex, thread)
  | _ => none

/-- `yield` is called only at places that hold no spinlock. -/
def Valid : Pc Thread → Prop
  | .yieldAcquire place => place.interruptible
  | .yieldSched place => place.interruptible
  | .yieldResume place => place.interruptible
  | _ => True

/-- The places at which a thread resumes inside `sched`. -/
inductive Resumes : Pc Thread → Prop where
  | lock (mutex : MutexId) : Resumes (.lockReacquire mutex)
  | yieldlock (mutex : MutexId) : Resumes (.yieldlockResume mutex)
  | yield (place : Pc Thread) : Resumes (.yieldResume place)

theorem Resumes.holds_eq (resumes : pc.Resumes) : pc.holds = [.ptable] := by
  cases resumes <;> rfl

theorem Resumes.parked_eq (resumes : pc.Resumes) : pc.parked = none := by
  cases resumes <;> rfl

theorem Resumes.popped_eq (resumes : pc.Resumes) : pc.popped = none := by
  cases resumes <;> rfl

theorem resumes_of_awaited (awaited : pc.awaited = some mutex) : pc.Resumes := by
  cases pc <;> simp only [Pc.awaited, reduceCtorEq] at awaited
  · exact .lock _
  · exact .yieldlock _

theorem valid_of_awaited (awaited : pc.awaited = some mutex) : pc.Valid := by
  cases pc <;> simp only [Pc.awaited, reduceCtorEq] at awaited <;> trivial

theorem holds_queue_of_popped (popped : pc.popped = some (mutex, thread)) :
    Lock.queue mutex ∈ pc.holds := by
  cases pc <;> simp only [Pc.popped, Option.some.injEq, Prod.mk.injEq, reduceCtorEq] at popped
  all_goals
    rw [← popped.1]
    simp [holds]

theorem holds_ptable_of_parked (parked : pc.parked = some mutex) : Lock.ptable ∈ pc.holds := by
  cases pc <;> simp only [Pc.parked, reduceCtorEq] at parked <;>
    simp [holds]

/-- Only a thread that resumes in `kthread_mutex_lock` waits for a `queueLock`
under `ptable.lock`. -/
theorem eq_lockReacquire (holds : Lock.ptable ∈ pc.holds) (wants : pc.wants = some (.queue mutex)) :
    pc = .lockReacquire mutex := by
  cases pc <;> simp only [Pc.wants, Option.some.injEq, Lock.queue.injEq, reduceCtorEq] at wants
  · simp [Pc.holds] at holds
  · rw [wants]
  · simp [Pc.holds] at holds
  · simp [Pc.holds] at holds

/-- Only a thread that has taken a waiter out of a queue waits for
`ptable.lock` under a `queueLock`. -/
theorem popped_of_wants_ptable
    (holds : Lock.queue mutex ∈ pc.holds) (wants : pc.wants = some .ptable) :
    ∃ taken, pc.popped = some (mutex, taken) := by
  cases pc <;> simp only [Pc.wants, Option.some.injEq, reduceCtorEq] at wants
  · simp [Pc.holds] at holds
  · simp only [Pc.holds, mem_singleton, Lock.queue.injEq] at holds
    exact ⟨_, by rw [holds]; rfl⟩
  · simp only [Pc.holds, mem_singleton, Lock.queue.injEq] at holds
    exact ⟨_, by rw [holds]; rfl⟩
  · simp [Pc.holds] at holds

structure Passes (pc next : Pc Thread) : Prop where
  parked : next.parked = pc.parked := by rfl
  queue : next.queue = pc.queue := by rfl
  popped : ∀ taken, next.popped = some taken → pc.popped = some taken := by simp [Pc.popped]
  notReturning : ∀ mutex, next ≠ .lockReacquire mutex := by simp
  valid : next.Valid := by trivial

structure Enters (lock : Lock) (pc next : Pc Thread) : Prop extends Passes pc next where
  holds : ∀ other, other ∈ next.holds ↔ other = lock ∨ other ∈ pc.holds := by
    rintro (_ | _) <;> simp [Pc.holds]

structure Leaves (lock : Lock) (pc next : Pc Thread) : Prop extends Passes pc next where
  inside : lock ∈ pc.holds := by simp [Pc.holds]
  holds : ∀ other, other ∈ next.holds ↔ other ≠ lock ∧ other ∈ pc.holds := by
    rintro (_ | _) <;> simp [Pc.holds]

structure Stays (pc next : Pc Thread) : Prop extends Passes pc next where
  holds : next.holds = pc.holds := by rfl

structure Pushes (pc next : Pc Thread) (mutex : MutexId) : Prop where
  outside : pc.queue = none := by rfl
  queue : next.queue = some mutex := by rfl
  parked : next.parked = pc.parked := by rfl
  guarded : ∀ other, pc.parked = some other → Lock.queue other ∈ pc.holds := by
    simp [Pc.parked, Pc.holds]
  notPopped : pc.popped = none := by rfl
  popped : next.popped = none := by rfl
  notReturning : ∀ other, next ≠ .lockReacquire other := by simp
  valid : next.Valid := by trivial
  holds : next.holds = pc.holds := by rfl

structure Takes (pc next : Pc Thread) (mutex : MutexId) (item : Thread) : Prop where
  queue : next.queue = pc.queue := by rfl
  parked : next.parked = pc.parked := by rfl
  popped : next.popped = some (mutex, item) := by rfl
  notReturning : ∀ other, next ≠ .lockReacquire other := by simp
  valid : next.Valid := by trivial
  holds : next.holds = pc.holds := by rfl

structure Wakes (pc next : Pc Thread) (mutex : MutexId) (item : Thread) : Prop where
  taken : pc.popped = some (mutex, item) := by rfl
  inside : Lock.ptable ∈ pc.holds := by simp [Pc.holds]
  notParked : pc.parked = none := by rfl
  queue : next.queue = pc.queue := by rfl
  popped : next.popped = none := by rfl
  notReturning : ∀ other, next ≠ .lockReacquire other := by simp
  valid : next.Valid := by trivial
  holds : next.holds = pc.holds := by rfl

theorem leaves_yieldResume {place : Pc Thread} (interruptible : place.interruptible) :
    Leaves .ptable (.yieldResume place) place := by
  cases place <;> simp [Pc.interruptible, Pc.holds] at interruptible <;>
    exact {}

theorem stays_yieldAcquire {place : Pc Thread} (interruptible : place.interruptible) :
    Stays place (.yieldAcquire place) := by
  cases place <;> simp [Pc.interruptible, Pc.holds] at interruptible <;>
    exact {}

theorem leaves_afterUnlock (mutex : MutexId) (next : Option MutexId) :
    Leaves (.queue mutex) (.unlockRelease mutex next) (afterUnlock next : Pc Thread) := by
  cases next <;> simp only [afterUnlock] <;> exact {}

theorem stays_afterUnlock (mutex : MutexId) (next : Option MutexId) :
    Stays (.unlockEnter mutex next) (afterUnlock next : Pc Thread) := by
  cases next <;> simp only [afterUnlock] <;> exact {}

end Pc

inductive Status (Cpu Thread : Type*) where
  | onCpu (cpu : Cpu) (pc : Pc Thread)
  | runnable (pc : Pc Thread)
  | blocked (pc : Pc Thread)
  | inactive (state : RunState)

namespace Status

def state : Status Cpu Thread → RunState
  | .onCpu _ pc => if pc.parked.isSome then .blocked else .running
  | .runnable _ => .runnable
  | .blocked _ => .blocked
  | .inactive state => state

def saved : Status Cpu Thread → Option (Pc Thread)
  | .runnable pc => some pc
  | .blocked pc => some pc
  | _ => none

def place : Status Cpu Thread → Option (Cpu × Pc Thread)
  | .onCpu cpu pc => some (cpu, pc)
  | _ => none

def queue : Status Cpu Thread → Option MutexId
  | .onCpu _ pc => pc.queue
  | .runnable pc => pc.queue
  | .blocked pc => pc.awaited
  | .inactive _ => none

/-- The mutex for which the thread is marked `BLOCKED`. -/
def parked : Status Cpu Thread → Option MutexId
  | .onCpu _ pc => pc.parked
  | .blocked pc => pc.awaited
  | _ => none

/-- The waiter that the thread has taken out of a queue and not yet made
runnable. -/
def popped : Status Cpu Thread → Option (MutexId × Thread)
  | .onCpu _ pc => pc.popped
  | _ => none

/-- The thread has been taken out of the queue and has not come back to the
`queueLock`. -/
def Returning (mutex : MutexId) : Status Cpu Thread → Prop
  | .onCpu _ pc => pc = .lockReacquire mutex
  | .runnable pc => pc = .lockReacquire mutex
  | _ => False

def WellFormed : Status Cpu Thread → Prop
  | .onCpu _ pc => pc.Valid
  | .runnable pc => pc.Resumes ∧ pc.Valid
  | .blocked pc => ∃ mutex, pc.awaited = some mutex
  | .inactive state => state ≠ .runnable ∧ state ≠ .blocked

variable {status : Status Cpu Thread}

theorem onCpu_of_popped {taken : MutexId × Thread} (popped : status.popped = some taken) :
    ∃ cpu pc, status = .onCpu cpu pc ∧ pc.popped = some taken := by
  cases status with
  | onCpu cpu pc => exact ⟨cpu, pc, rfl, popped⟩
  | _ => simp [Status.popped] at popped

/-- A thread that is in a queue and marked `BLOCKED` waits for that mutex. -/
theorem parked_of_queue (queued : status.queue = some mutex) (blocked : status.state = .blocked) :
    status.parked = some mutex := by
  cases status with
  | onCpu cpu pc =>
    have marked : pc.parked.isSome := by
      by_contra unmarked
      simp [state, unmarked] at blocked
    cases pc <;> simp [Pc.parked] at marked
    · simp [Status.queue, Pc.queue] at queued
    · exact queued
    · exact queued
  | runnable pc => simp [state] at blocked
  | blocked pc => exact queued
  | inactive state => simp [Status.queue] at queued

/-- A change of status that keeps the queue and the mark of the thread, if it
has them, and does not make the thread return from a queue. -/
structure Follows (old new : Status Cpu Thread) : Prop where
  wellFormed : new.WellFormed
  queue : old.queue = none ∨ new.queue = old.queue
  parked : old.parked = none ∨ new.parked = old.parked
  returning : ∀ mutex, new.Returning mutex → old.Returning mutex

theorem follows_self (wellFormed : status.WellFormed) : status.Follows status :=
  ⟨wellFormed, Or.inr rfl, Or.inr rfl, fun _ => id⟩

theorem follows_of_passes {cpu : Cpu} {next : Pc Thread} (passes : pc.Passes next) :
    Follows (.onCpu cpu pc) (.onCpu cpu next) where
  wellFormed := passes.valid
  queue := Or.inr passes.queue
  parked := Or.inr passes.parked
  returning mutex returns := absurd returns (passes.notReturning mutex)

end Status

/-- The waiter `item` has been taken out of the queue of `mutex` and is on its
way back. -/
structure Taken (status : Thread → Status Cpu Thread)
    (waiters : MutexId → List Thread) (mutex : MutexId) (item : Thread) : Prop where
  parked : (status item).parked = some mutex
  absent : ∀ other, item ∉ waiters other
  settled : ∀ other, ¬ (status other).Returning mutex

structure Order (status : Thread → Status Cpu Thread) (waiters : MutexId → List Thread) : Prop where
  wellFormed : ∀ thread, (status thread).WellFormed
  nodup : ∀ mutex, (waiters mutex).Nodup
  queued : ∀ mutex, ∀ thread ∈ waiters mutex, (status thread).queue = some mutex
  taken : ∀ thread mutex item, (status thread).popped = some (mutex, item) →
      Taken status waiters mutex item

variable {item : Thread}

namespace Order

variable {status changed : Thread → Status Cpu Thread}
variable {waiters : MutexId → List Thread}

section

variable (order : Order status waiters)
include order

/-- The threads change their statuses and stay in their queues. -/
theorem pointwise (follows : ∀ thread, (status thread).Follows (changed thread))
    (popped : ∀ thread mutex item, (changed thread).popped = some (mutex, item) →
        Taken status waiters mutex item) :
    Order changed waiters where
  wellFormed thread := (follows thread).wellFormed
  nodup := order.nodup
  queued mutex thread isWaiter := by
    have queued := order.queued mutex thread isWaiter
    rcases (follows thread).queue with outside | same
    · simp [outside] at queued
    · rw [same, queued]
  taken thread mutex item itemPopped := by
    have taken := popped thread mutex item itemPopped
    refine ⟨?_, taken.absent, fun other returns =>
      taken.settled other ((follows other).returning mutex returns)⟩
    have parked := taken.parked
    rcases (follows item).parked with unmarked | same
    · simp [unmarked] at parked
    · rw [same, parked]

theorem absent_of_queue_none (outside : (status thread).queue = none) (mutex : MutexId) :
    thread ∉ waiters mutex := by
  intro isWaiter
  have queued := order.queued mutex thread isWaiter
  simp [outside] at queued

theorem enqueue (queue : (status thread).queue = some mutex) (absent : thread ∉ waiters mutex)
    (notTaken : ∀ owner other, (status owner).popped ≠ some (other, thread)) :
    Order status (update waiters mutex (waiters mutex ++ [thread])) := by
  have isWaiterInv : ∀ other item, item ∈ update waiters mutex (waiters mutex ++ [thread]) other →
        item ∈ waiters other ∨ other = mutex ∧ item = thread := by
    intro other item isWaiter
    rcases eq_or_ne other mutex with rfl | same
    · rw [update_self, mem_append, mem_singleton] at isWaiter
      exact isWaiter.imp_right fun isThread => ⟨rfl, isThread⟩
    · rw [update_of_ne same] at isWaiter
      exact Or.inl isWaiter
  refine ⟨order.wellFormed, ?_, ?_, ?_⟩
  · intro other
    rcases eq_or_ne other mutex with rfl | same
    · rw [update_self, nodup_append]
      refine ⟨order.nodup other, nodup_singleton thread, ?_⟩
      rintro item isWaiter last isLast rfl
      rw [mem_singleton] at isLast
      exact absent (isLast ▸ isWaiter)
    · rw [update_of_ne same]
      exact order.nodup other
  · intro other item isWaiter
    rcases isWaiterInv other item isWaiter with before | ⟨rfl, rfl⟩
    · exact order.queued other item before
    · exact queue
  · intro owner other item itemPopped
    have taken := order.taken owner other item itemPopped
    refine ⟨taken.parked, ?_, taken.settled⟩
    intro which isWaiter
    rcases isWaiterInv which item isWaiter with before | ⟨-, rfl⟩
    · exact taken.absent which before
    · exact notTaken owner other itemPopped

theorem dequeue {rest : List Thread} (first : waiters mutex = item :: rest) :
    Order status (update waiters mutex rest) ∧ ∀ other, item ∉ update waiters mutex rest other := by
  have fewer : ∀ other who, who ∈ update waiters mutex rest other → who ∈ waiters other := by
    intro other who isWaiter
    rcases eq_or_ne other mutex with rfl | same
    · rw [update_self] at isWaiter
      rw [first]
      exact mem_cons_of_mem item isWaiter
    · rwa [update_of_ne same] at isWaiter
  have nodup := order.nodup mutex
  rw [first, nodup_cons] at nodup
  have itemQueued : (status item).queue = some mutex := order.queued mutex item (by simp [first])
  refine ⟨⟨order.wellFormed, ?_, ?_, ?_⟩, ?_⟩
  · intro other
    rcases eq_or_ne other mutex with rfl | same
    · rw [update_self]
      exact nodup.2
    · rw [update_of_ne same]
      exact order.nodup other
  · intro other who isWaiter
    exact order.queued other who (fewer other who isWaiter)
  · intro owner other who whoPopped
    have taken := order.taken owner other who whoPopped
    exact ⟨taken.parked, fun which isWaiter =>
      taken.absent which (fewer which who isWaiter), taken.settled⟩
  · intro other isWaiter
    rcases eq_or_ne other mutex with rfl | same
    · rw [update_self] at isWaiter
      exact nodup.1 isWaiter
    · have queued := order.queued other item (fewer other item isWaiter)
      rw [itemQueued] at queued
      exact same (Option.some.inj queued).symm

end

variable [DecidableEq Thread] {thread : Thread} {new : Status Cpu Thread}

theorem replace (order : Order status waiters) (follows : (status thread).Follows new)
    (popped : ∀ mutex item, new.popped = some (mutex, item) → Taken status waiters mutex item) :
    Order (update status thread new) waiters := by
  apply order.pointwise
  · intro other
    rcases eq_or_ne other thread with rfl | same
    · rw [update_self]
      exact follows
    · rw [update_of_ne same]
      exact Status.follows_self (order.wellFormed other)
  · intro other mutex item itemPopped
    rcases eq_or_ne other thread with rfl | same
    · rw [update_self] at itemPopped
      exact popped mutex item itemPopped
    · rw [update_of_ne same] at itemPopped
      exact order.taken other mutex item itemPopped

/-- A waiter that has been taken out of its queue becomes runnable. -/
theorem wake (order : Order status waiters) (current : status thread = .blocked pc)
    (awaited : pc.awaited = some mutex) (absent : ∀ other, thread ∉ waiters other)
    (noTaker : ∀ owner item, (status owner).popped ≠ some (mutex, item)) :
    Order (update status thread (.runnable pc)) waiters := by
  refine ⟨?_, order.nodup, ?_, ?_⟩
  · intro other
    rcases eq_or_ne other thread with rfl | same
    · rw [update_self]
      exact ⟨Pc.resumes_of_awaited awaited, Pc.valid_of_awaited awaited⟩
    · rw [update_of_ne same]
      exact order.wellFormed other
  · intro other who isWaiter
    have differs : who ≠ thread := by
      rintro rfl
      exact absent other isWaiter
    rw [update_of_ne differs]
    exact order.queued other who isWaiter
  · intro owner other who whoPopped
    have before : (status owner).popped = some (other, who) := by
      rcases eq_or_ne owner thread with rfl | same
      · simp [Status.popped] at whoPopped
      · rwa [update_of_ne same] at whoPopped
    have taken := order.taken owner other who before
    have otherMutex : other ≠ mutex := by
      rintro rfl
      exact noTaker owner who before
    refine ⟨?_, taken.absent, ?_⟩
    · have differs : who ≠ thread := by
        rintro rfl
        have parked := taken.parked
        rw [current, Status.parked, awaited] at parked
        exact otherMutex (Option.some.inj parked).symm
      rw [update_of_ne differs]
      exact taken.parked
    · intro someone returns
      rcases eq_or_ne someone thread with rfl | same
      · rw [update_self] at returns
        have resumes : pc = .lockReacquire other := returns
        rw [resumes, Pc.awaited] at awaited
        exact otherMutex (Option.some.inj awaited)
      · rw [update_of_ne same] at returns
        exact taken.settled someone returns

end Order

def reading : ThreadTable.Reading Cpu (Pc Thread) RunState (Status Cpu Thread) where
  state := Status.state
  saved := Status.saved
  place := Status.place

def Activity.current : Activity Thread → Option (Thread × Pc Thread)
  | .running thread pc => some (thread, pc)
  | _ => none

theorem Activity.current_eq_some_iff {activity : Activity Thread} :
    activity.current = some (thread, pc) ↔ activity = .running thread pc := by
  cases activity <;> simp [Activity.current]

/-- The recorded holders of the spinlocks are the processors inside them. -/
def Locks (machine : Machine Cpu Thread) : Prop :=
  LockTable.Exact machine.holder fun cpu lock => lock ∈ (machine.cpu cpu).holds

/-- A machine that keeps the lock order, with the statuses of its threads and
the waiters of its mutexes. -/
structure Sound (machine : Machine Cpu Thread) (status : Thread → Status Cpu Thread)
    (waiters : MutexId → List Thread) : Prop where
  view : ThreadTable.View reading machine.state machine.context
    (fun cpu => (machine.cpu cpu).current) status
  locks : Locks machine
  waiting : ∀ mutex, (machine.mutex mutex).Waiting (waiters mutex)
  order : Order status waiters

namespace Sound

variable {machine after : Machine Cpu Thread}
variable {status : Thread → Status Cpu Thread}
variable {waiters : MutexId → List Thread}
variable {cpu : Cpu} {thread : Thread} {pc next : Pc Thread}

section

variable (sound : Sound machine status waiters)

include sound

theorem status_of_runs (runs : machine.cpu cpu = .running thread pc) :
    status thread = .onCpu cpu pc := by
  have placed := (sound.view.running_iff cpu thread pc).mp (Activity.current_eq_some_iff.mpr runs)
  cases current : status thread with
  | onCpu other place =>
    simp only [current, reading, Status.place, Option.some.injEq, Prod.mk.injEq] at placed
    rw [placed.1, placed.2]
  | _ => simp [current, reading, Status.place] at placed

theorem runs_of_status (current : status thread = .onCpu cpu pc) :
    machine.cpu cpu = .running thread pc := by
  rw [← Activity.current_eq_some_iff]
  apply (sound.view.running_iff cpu thread pc).mpr
  rw [current]
  rfl

/-- Two threads at places inside the same spinlock are one thread. -/
theorem thread_unique {otherCpu : Cpu} {other : Thread} {place : Pc Thread} {lock : Lock}
    (runs : machine.cpu cpu = .running thread pc) (holds : lock ∈ pc.holds)
    (current : status other = .onCpu otherCpu place) (otherHolds : lock ∈ place.holds) :
    other = thread := by
  have otherRuns := sound.runs_of_status current
  have sameCpu : otherCpu = cpu := by
    apply sound.locks.unique
    · rwa [otherRuns]
    · rwa [runs]
  rw [sameCpu, runs] at otherRuns
  cases otherRuns
  rfl

/-- The holder of a `queueLock` is the only thread that has taken a waiter out
of that queue. -/
theorem sole_taker (runs : machine.cpu cpu = .running thread pc)
    (holds : Lock.queue mutex ∈ pc.holds) {owner : Thread}
    (popped : (status owner).popped = some (mutex, item)) :
    owner = thread := by
  obtain ⟨ownerCpu, place, current, placePopped⟩ := Status.onCpu_of_popped popped
  exact sound.thread_unique runs holds current (Pc.holds_queue_of_popped placePopped)

theorem no_deadlock : ¬ machine.Deadlock := by
  rintro ⟨first, second, mutex, firstHolds, firstWants, secondHolds, secondWants⟩
  rw [sound.locks] at firstHolds secondHolds
  cases firstRuns : machine.cpu first with
  | idle | scanning => simp [firstRuns, Activity.wants] at firstWants
  | running returner pc =>
    rw [firstRuns] at firstWants firstHolds
    have isReturning := Pc.eq_lockReacquire firstHolds firstWants
    cases secondRuns : machine.cpu second with
    | idle => simp [secondRuns, Activity.holds] at secondHolds
    | scanning => simp [secondRuns, Activity.wants] at secondWants
    | running thread place =>
      rw [secondRuns] at secondWants secondHolds
      obtain ⟨taken, popped⟩ := Pc.popped_of_wants_ptable secondHolds secondWants
      have current := sound.status_of_runs secondRuns
      have settled := (sound.order.taken thread mutex taken (by rw [current]; exact popped)).settled
      apply settled returner
      rw [sound.status_of_runs firstRuns, isReturning]
      rfl

/-- A mutex is changed in a field that its queue does not depend on. -/
theorem setMutex {entry : KthreadMutex Thread} (waiting : entry.Waiting (waiters mutex)) :
    Sound (machine.setMutex mutex entry) status waiters where
  __ := sound
  waiting other := by
    rcases eq_or_ne other mutex with rfl | same
    · simpa [Machine.setMutex] using waiting
    · simpa [Machine.setMutex, same] using sound.waiting other

/-- Nobody takes a thread out of a queue that is marked for no mutex, or only
for one whose `queueLock` it holds itself. -/
theorem not_taken (runs : machine.cpu cpu = .running thread pc) (popped : pc.popped = none)
    (guarded : ∀ other, pc.parked = some other → Lock.queue other ∈ pc.holds)
    (owner : Thread) (other : MutexId) :
    (status owner).popped ≠ some (other, thread) := by
  intro takes
  have current := sound.status_of_runs runs
  have parked := (sound.order.taken owner other thread takes).parked
  rw [current] at parked
  have same := sound.sole_taker runs (guarded other parked) takes
  rw [same, current, Status.popped, popped] at takes
  simp at takes

/-- A waiter that a thread has taken out of a queue has left its processor
when `ptable.lock` is held. -/
theorem taken_blocked (runs : machine.cpu cpu = .running thread pc)
    (popped : pc.popped = some (mutex, item))
    (holds : Lock.ptable ∈ pc.holds) (unmarked : pc.parked = none) :
    item ≠ thread ∧ ∃ place, status item = .blocked place ∧ place.awaited = some mutex := by
  have current := sound.status_of_runs runs
  have parked := (sound.order.taken thread mutex item (by rw [current]; exact popped)).parked
  have differs : item ≠ thread := by
    rintro rfl
    rw [current, Status.parked, unmarked] at parked
    simp at parked
  refine ⟨differs, ?_⟩
  cases itemStatus : status item with
  | onCpu other place =>
    rw [itemStatus] at parked
    exact absurd (sound.thread_unique runs holds itemStatus
      (Pc.holds_ptable_of_parked parked)) differs
  | runnable place | inactive state => simp [itemStatus, Status.parked] at parked
  | blocked place =>
    rw [itemStatus] at parked
    exact ⟨place, rfl, parked⟩

end

end Sound

section Changes

variable [DecidableEq Cpu]
variable {machine after : Machine Cpu Thread}
variable {cpu : Cpu} {activity : Activity Thread} {lock : Lock}

theorem current_update (cpus : Cpu → Activity Thread) (cpu : Cpu) (activity : Activity Thread) :
    (fun other => (update cpus cpu activity other).current) =
      update (fun other => (cpus other).current) cpu
        activity.current := by
  funext other
  rcases eq_or_ne other cpu with rfl | same
  · simp
  · simp [same]

theorem Locks.keep (locks : Locks machine) (cpus : after.cpu = update machine.cpu cpu activity)
    (holders : after.holder = machine.holder) (same : activity.holds = (machine.cpu cpu).holds) :
    Locks after := by
  rw [Locks, holders]
  apply LockTable.Exact.keep locks
  intro other lock
  rw [cpus]
  rcases eq_or_ne other cpu with rfl | sameCpu
  · rw [update_self, same]
  · rw [update_of_ne sameCpu]

theorem Locks.acquire (locks : Locks machine) (own : ∀ other, other ∈ activity.holds ↔
      other = lock ∨ other ∈ (machine.cpu cpu).holds)
    (acquired : machine.acquire cpu lock activity = some after) :
    Locks after := by
  unfold Machine.acquire at acquired
  split at acquired <;> cases acquired
  rename_i free
  apply LockTable.Exact.acquire locks free
  · intro other
    simp only [Machine.goTo, update_self]
    exact own other
  · intro other differs which
    simp [Machine.goTo, differs]

theorem Locks.release (locks : Locks machine) (holds : lock ∈ (machine.cpu cpu).holds)
    (own : ∀ other, other ∈ activity.holds ↔ other ≠ lock ∧ other ∈ (machine.cpu cpu).holds) :
    Locks (machine.release cpu lock activity) := by
  apply LockTable.Exact.release locks holds
  · intro other
    simp only [Machine.release, Machine.goTo, update_self]
    exact own other
  · intro other differs which
    simp [Machine.release, Machine.goTo, differs]

theorem acquire_fields (acquired : machine.acquire cpu lock activity = some after) :
    after.cpu = update machine.cpu cpu activity ∧
      after.state = machine.state ∧ after.context = machine.context ∧
      after.mutex = machine.mutex := by
  unfold Machine.acquire at acquired
  split at acquired <;> cases acquired
  next free => exact ⟨rfl, rfl, rfl, rfl⟩

namespace Sound

variable {status : Thread → Status Cpu Thread}
variable {waiters : MutexId → List Thread}

/-- A processor in `scheduler` enters or leaves its section. -/
theorem schedule (sound : Sound machine status waiters)
    (offThread : (machine.cpu cpu).current = none) (stillOff : activity.current = none)
    (cpus : after.cpu = update machine.cpu cpu activity) (states : after.state = machine.state)
    (contexts : after.context = machine.context) (mutexes : after.mutex = machine.mutex)
    (locks : Locks after) :
    Sound after status waiters where
  view := by
    apply sound.view.congr (by simp [states]) (by simp [contexts])
    rw [cpus, current_update, stillOff, ← offThread]
    exact update_eq_self cpu _
  locks := locks
  waiting := by
    rw [mutexes]
    exact sound.waiting
  order := sound.order

variable [DecidableEq Thread]
variable {thread : Thread} {pc next : Pc Thread} {mutex : MutexId}

section

variable (sound : Sound machine status waiters) (runs : machine.cpu cpu = .running thread pc)

include sound runs

/-- The view after an operation of a thread that leaves its mark. -/
theorem view_goTo (parked : next.parked = pc.parked)
    (cpus : after.cpu = update machine.cpu cpu (.running thread next))
    (states : after.state = machine.state) (contexts : after.context = machine.context) :
    ThreadTable.View reading after.state after.context (fun cpu => (after.cpu cpu).current)
      (update status thread (.onCpu cpu next)) := by
  refine sound.view.stay (Activity.current_eq_some_iff.mpr runs) rfl rfl
    (by simp [states, contexts]) ?_ ?_
  · rw [states, sound.view.state_eq, sound.status_of_runs runs]
    simp [reading, Status.state, parked]
  · rw [cpus, current_update]
    rfl

/-- A thread performs an operation that changes no queue and no other
thread. -/
theorem advance (passes : pc.Passes next)
    (cpus : after.cpu = update machine.cpu cpu (.running thread next))
    (states : after.state = machine.state) (contexts : after.context = machine.context)
    (mutexes : after.mutex = machine.mutex) (locks : Locks after) :
    Sound after (update status thread (.onCpu cpu next)) waiters where
  view := sound.view_goTo runs passes.parked cpus states contexts
  locks := locks
  waiting := by
    rw [mutexes]
    exact sound.waiting
  order := by
    have current := sound.status_of_runs runs
    apply sound.order.replace
    · rw [current]
      exact Status.follows_of_passes passes
    · intro mutex item popped
      apply sound.order.taken thread mutex item
      rw [current]
      exact passes.popped _ popped

theorem acquire (enters : Pc.Enters lock pc next)
    (acquired : machine.acquire cpu lock (.running thread next) = some after) :
    Sound after (update status thread (.onCpu cpu next))
      waiters := by
  obtain ⟨cpus, states, contexts, mutexes⟩ := acquire_fields acquired
  apply sound.advance runs enters.toPasses cpus states contexts mutexes
  apply sound.locks.acquire _ acquired
  rw [runs]
  exact enters.holds

theorem release (leaves : Pc.Leaves lock pc next) :
    Sound (machine.release cpu lock (.running thread next))
      (update status thread (.onCpu cpu next)) waiters := by
  have locks : Locks (machine.release cpu lock (.running thread next)) := by
    apply sound.locks.release
    · rw [runs]
      exact leaves.inside
    · rw [runs]
      exact leaves.holds
  exact sound.advance runs leaves.toPasses rfl rfl rfl rfl locks

theorem goTo (stays : pc.Stays next) : Sound (machine.goTo cpu (.running thread next))
      (update status thread (.onCpu cpu next)) waiters := by
  have sameHolds : next.holds = (machine.cpu cpu).holds := by
    rw [runs]
    exact stays.holds
  exact sound.advance runs stays.toPasses rfl rfl rfl rfl (sound.locks.keep rfl rfl sameHolds)

theorem sched {resume : Pc Thread} {new : Status Cpu Thread} (offCpu : new.place = none)
    (saved : new.saved = some resume) (notPopped : new.popped = none)
    (follows : Status.Follows (.onCpu cpu pc) new) (holds : pc.holds = [.ptable]) :
    Sound (machine.sched cpu thread new.state resume) (update status thread new) waiters where
  view := by
    refine sound.view.leave (Activity.current_eq_some_iff.mpr runs) offCpu ?_ ?_ ?_ ?_
    · intro other differs
      simp [Machine.sched, Machine.setState, Machine.goTo, differs]
    · simp [Machine.sched, Machine.setState, Machine.goTo, reading]
    · intro place isSaved
      have same : resume = place := Option.some.inj (saved.symm.trans isSaved)
      simp [Machine.sched, same]
    · exact current_update machine.cpu cpu .scanning
  locks := by
    have sameHolds : [.ptable] = (machine.cpu cpu).holds := by
      rw [runs]
      exact holds.symm
    exact sound.locks.keep rfl rfl sameHolds
  waiting := sound.waiting
  order := by
    apply sound.order.replace
    · rw [sound.status_of_runs runs]
      exact follows
    · simp [notPopped]

theorem push (pushes : pc.Pushes next mutex) {pushed : KthreadMutex Thread}
    (result : (machine.mutex mutex).pushThreadToMutexQueue thread = some pushed) :
    Sound ((machine.setMutex mutex pushed).goTo cpu (.running thread next))
      (update status thread (.onCpu cpu next))
      (update waiters mutex (waiters mutex ++ [thread])) := by
  have current := sound.status_of_runs runs
  have absent := sound.order.absent_of_queue_none
    (by rw [current]; exact pushes.outside : (status thread).queue = none)
  refine ⟨?_, ?_, ?_, ?_⟩
  · exact sound.view_goTo runs pushes.parked rfl rfl rfl
  · have sameHolds : next.holds = (machine.cpu cpu).holds := by
      rw [runs]
      exact pushes.holds
    exact sound.locks.keep rfl rfl sameHolds
  · intro other
    rcases eq_or_ne other mutex with rfl | sameMutex
    · simpa [Machine.setMutex, Machine.goTo] using ((sound.waiting other).push result).1
    · simpa [Machine.setMutex, Machine.goTo, sameMutex] using sound.waiting other
  · have moved : Order (update status thread (.onCpu cpu next))
        waiters := by
      apply sound.order.replace
      · rw [current]
        exact ⟨pushes.valid, Or.inl pushes.outside, Or.inr pushes.parked,
          fun other returns => absurd returns (pushes.notReturning other)⟩
      · simp [Status.popped, pushes.popped]
    apply moved.enqueue
    · rw [update_self]
      exact pushes.queue
    · exact absent mutex
    · intro owner other
      rcases eq_or_ne owner thread with rfl | sameThread
      · simp [Status.popped, pushes.popped]
      · rw [update_of_ne sameThread]
        exact sound.not_taken runs pushes.notPopped pushes.guarded owner other

theorem take {rest : List Thread} (first : waiters mutex = item :: rest)
    (blocked : machine.state item = .blocked) (settled : ∀ other, ¬ (status other).Returning mutex)
    (takes : pc.Takes next mutex item) :
    Sound ((machine.setMutex mutex (machine.mutex mutex).dropFirstThread).goTo cpu
          (.running thread next))
      (update status thread (.onCpu cpu next))
      (update waiters mutex rest) := by
  have current := sound.status_of_runs runs
  refine ⟨?_, ?_, ?_, ?_⟩
  · exact sound.view_goTo runs takes.parked rfl rfl rfl
  · have sameHolds : next.holds = (machine.cpu cpu).holds := by
      rw [runs]
      exact takes.holds
    exact sound.locks.keep rfl rfl sameHolds
  · intro other
    rcases eq_or_ne other mutex with rfl | sameMutex
    · have waiting := sound.waiting other
      rw [first] at waiting
      simpa [Machine.setMutex, Machine.goTo] using waiting.pop.2
    · simpa [Machine.setMutex, Machine.goTo, sameMutex] using sound.waiting other
  · obtain ⟨order, absent⟩ := sound.order.dequeue first
    apply order.replace
    · rw [current]
      exact ⟨takes.valid, Or.inr takes.queue, Or.inr takes.parked,
        fun other returns => absurd returns (takes.notReturning other)⟩
    · intro other who whoPopped
      simp only [Status.popped, takes.popped] at whoPopped
      cases whoPopped
      refine ⟨?_, absent, settled⟩
      apply Status.parked_of_queue
      · exact sound.order.queued mutex item (by simp [first])
      · rw [← blocked, sound.view.state_eq]
        rfl

/-- A thread makes the waiter runnable that it has taken out of a queue. -/
theorem wake (wakes : pc.Wakes next mutex item) {state : RunState}
    (stateEq : state = (Status.onCpu cpu next).state) :
    ∃ changed, Sound (((machine.setState thread state).setState item
      .runnable).goTo cpu (.running thread next)) changed waiters := by
  have current := sound.status_of_runs runs
  have taken := sound.order.taken thread mutex item (by rw [current]; exact wakes.taken)
  obtain ⟨differs, place, isBlocked, awaited⟩ :=
    sound.taken_blocked runs wakes.taken wakes.inside wakes.notParked
  have stillBlocked : update status thread (.onCpu cpu next) item =
        .blocked place := by
    rw [update_of_ne differs, isBlocked]
  refine ⟨update (update status thread (.onCpu cpu next))
    item (.runnable place), ?_, ?_, sound.waiting, ?_⟩
  · have stays : ThreadTable.View reading (update machine.state thread state) machine.context
        (update (fun other => (machine.cpu other).current) cpu (some (thread, next)))
        (update status thread (.onCpu cpu next)) := by
      refine sound.view.stay (Activity.current_eq_some_iff.mpr runs) rfl rfl ?_ ?_ rfl
      · intro other otherThread
        simp [otherThread]
      · simpa [reading] using stateEq
    refine stays.change ?_ rfl ?_ ?_ ?_ ?_
    · rw [stillBlocked]
      rfl
    · intro other otherItem
      simp [Machine.setState, Machine.goTo, otherItem]
    · simp [Machine.setState, Machine.goTo, reading, Status.state]
    · intro resume saved
      apply stays.context_eq
      rw [stillBlocked]
      exact saved
    · exact current_update machine.cpu cpu _
  · have sameHolds : next.holds = (machine.cpu cpu).holds := by
      rw [runs]
      exact wakes.holds
    exact sound.locks.keep rfl rfl sameHolds
  · have moved : Order (update status thread (.onCpu cpu next))
        waiters := by
      apply sound.order.replace
      · rw [current]
        exact ⟨wakes.valid, Or.inr wakes.queue, Or.inl wakes.notParked,
          fun other returns => absurd returns (wakes.notReturning other)⟩
      · simp [Status.popped, wakes.popped]
    apply moved.wake stillBlocked awaited taken.absent
    intro owner who whoPopped
    rcases eq_or_ne owner thread with rfl | sameThread
    · simp [Status.popped, wakes.popped] at whoPopped
    · rw [update_of_ne sameThread] at whoPopped
      exact sameThread (sound.sole_taker runs (Pc.holds_queue_of_popped wakes.taken) whoPopped)

end

theorem dispatch (sound : Sound machine status waiters) (scanning : machine.cpu cpu = .scanning)
    (current : status thread = .runnable pc) :
    Sound ((machine.setState thread .running).goTo cpu (.running thread pc))
      (update status thread (.onCpu cpu pc)) waiters := by
  have wellFormed := sound.order.wellFormed thread
  rw [current] at wellFormed
  obtain ⟨resumes, valid⟩ := wellFormed
  refine ⟨?_, ?_, sound.waiting, ?_⟩
  · refine sound.view.enter ?_ ?_ rfl rfl ?_ ?_ ?_
    · simp [scanning, Activity.current]
    · simp [current, reading, Status.place]
    · intro other differs
      simp [Machine.setState, Machine.goTo, differs]
    · simp [Machine.setState, Machine.goTo, reading, Status.state, resumes.parked_eq]
    · exact current_update machine.cpu cpu _
  · have sameHolds : pc.holds = (machine.cpu cpu).holds := by
      rw [scanning, resumes.holds_eq]
      rfl
    exact sound.locks.keep rfl rfl sameHolds
  · apply sound.order.replace
    · rw [current]
      exact ⟨valid, Or.inr rfl, Or.inl rfl, fun _ => id⟩
    · simp [Status.popped, resumes.popped_eq]

end Sound

end Changes

end MutexSpinlocks

end Xv6Kthreads
