import Xv6Kthreads.KernelView

/-!
# Mutex queues and thread statuses

Every entry of a mutex queue should stand for a thread that waits on that very
mutex.  This file states the agreement of the queues with the threads'
statuses and shows that the scheduling and mutex sections keep it, provided
that no section takes a thread out of a queue while that thread still runs.
-/

namespace Xv6Kthreads

/-- The places that neither a queue entry nor an allocation in progress
depends on. -/
def Location.Plain : Location → Prop
  | .lockQueued _ => False
  | .createAllocated _ => False
  | .forkAllocated _ => False
  | .forkCopied _ => False
  | _ => True

theorem SleepCall.resume_plain (call : SleepCall) : call.resume.Plain := by
  cases call <;> trivial

namespace Kernel

variable {Cpu : Type*}

namespace Status

/-- The status changes that scheduling makes without touching a queue. -/
inductive Quiet : Status Cpu → Status Cpu → Prop where
  | refl (status : Status Cpu) : Quiet status status
  | dispatch (cpu : Cpu) (location : Location) : Quiet (.runnable location) (.onCpu cpu location)
  | preempt (cpu : Cpu) (location : Location) : Quiet (.onCpu cpu location) (.runnable location)
  | wake (location : Location) : Quiet (.sleeping location) (.runnable location)
  | fallAsleep (cpu : Cpu) {location : Location} (call : SleepCall) (plain : location.Plain) :
      Quiet (.onCpu cpu location) (.sleeping (.asleep call))
  | move (cpu : Cpu) {location target : Location} (plain : location.Plain)
      (targetPlain : target.Plain) :
      Quiet (.onCpu cpu location) (.onCpu cpu target)
  | block (cpu : Cpu) (index : MutexId) :
      Quiet (.onCpu cpu (.lockQueued index)) (.blocked (.lockResumed index))

/-- The status changes of all scheduling and mutex sections. -/
inductive Tame : Status Cpu → Status Cpu → Prop where
  | quiet {before after : Status Cpu} (quiet : Quiet before after) : Tame before after
  | enqueue (cpu : Cpu) (index : MutexId) : Tame (.onCpu cpu .user) (.onCpu cpu (.lockQueued index))
  | release (location : Location) : Tame (.blocked location) (.runnable location)
  | yieldlock (cpu : Cpu) (first second : MutexId) :
      Tame (.onCpu cpu (.yieldlockChecked first second)) (.blocked (.yieldlockResumed second))

theorem Quiet.queuedOn {before after : Status Cpu} {index : MutexId}
    (quiet : Quiet before after) (queued : before.QueuedOn index) :
    after.QueuedOn index := by
  cases queued with
  | lock =>
    cases quiet
    exact .lock
  | yieldlock =>
    cases quiet
    exact .yieldlock
  | onCpu cpu =>
    cases quiet with
    | refl => exact .onCpu cpu
    | preempt => exact .preempted
    | fallAsleep _ _ plain | move _ plain => exact plain.elim
    | block => exact .lock
  | preempted =>
    cases quiet with
    | refl => exact .preempted
    | dispatch cpu => exact .onCpu cpu

/-- Only the section that blocks a queued thread makes a thread blocked
quietly. -/
theorem Quiet.blocked_inv {before : Status Cpu} {location : Location}
    (quiet : Quiet before (.blocked location)) :
    before = .blocked location ∨ ∃ cpu index, before = .onCpu cpu (.lockQueued index) := by
  cases quiet with
  | refl => exact Or.inl rfl
  | block cpu index => exact Or.inr ⟨cpu, index, rfl⟩

theorem Quiet.location_lockQueued {before after : Status Cpu} {index : MutexId}
    (quiet : Quiet before after) (location : after.location = some (.lockQueued index)) :
    before.location = some (.lockQueued index) := by
  cases quiet with
  | refl | dispatch | preempt | wake => exact location
  | fallAsleep | block => simp [Status.location] at location
  | move _ _ targetPlain =>
    cases location
    exact targetPlain.elim

/-- No scheduling or mutex section makes a thread finish `exit` as a zombie. -/
theorem Tame.lastExit_inv {before : Status Cpu} {cpu : Cpu} (tame : Tame before (.lastExit cpu)) :
    before = .lastExit cpu := by
  cases tame with
  | quiet quiet =>
    cases quiet
    rfl

end Status

/-- The queue entry that a section takes out of a mutex queue.
`kthread_mutex_unlock` takes the first entry of an allocated, locked mutex. -/
def unlockedEntry (mutex : KthreadMutex QueueEntry) : Option QueueEntry :=
  if mutex.state = .usedMutex ∧ mutex.locked = true then
    mutex.threadsQueue ⟨0, nthread_pos⟩
  else
    none

/-- The queue entry that the labelled section takes out of a mutex queue. -/
def takenEntry (kernel : Kernel Cpu) : Label Cpu → Option QueueEntry
  | .unlock _ index => unlockedEntry (kernel.mutex index)
  | .yieldlockSection cpu =>
    match kernel.running cpu with
    | some (_, .yieldlockChecked _ second) => (kernel.mutex second).threadsQueue ⟨0, nthread_pos⟩
    | _ => none
  | .yieldlockUnlockSecond cpu =>
    match kernel.running cpu with
    | some (_, .yieldlockNoWaiter _ second) =>
      (mutexIndex (kernel.mutex second).id).bind fun index =>
        unlockedEntry (kernel.mutex index)
    | _ => none
  | .yieldlockUnlockFirst cpu =>
    match kernel.running cpu with
    | some (_, .yieldlockUnlockFirst first) =>
      (mutexIndex (kernel.mutex first).id).bind fun index =>
        unlockedEntry (kernel.mutex index)
    | _ => none
  | _ => none

/-- The section takes no thread out of a queue whose state is `RUNNING`. -/
def TakesStopped (kernel : Kernel Cpu) (label : Label Cpu) : Prop :=
  ∀ entry, kernel.takenEntry label = some entry → (kernel.thread entry.slot).state ≠ .running

/-- The section takes only threads out of a queue whose state is `BLOCKED`. -/
def TakesBlocked (kernel : Kernel Cpu) (label : Label Cpu) : Prop :=
  ∀ entry, kernel.takenEntry label = some entry → (kernel.thread entry.slot).state = .blocked

def InQueue (kernel : Kernel Cpu) (slot : Slot) : Prop :=
  ∃ index position, ((kernel.mutex index).threadsQueue position).map QueueEntry.slot = some slot

instance (kernel : Kernel Cpu) (slot : Slot) : Decidable (kernel.InQueue slot) :=
  decidable_of_iff
    (¬ ∀ index position, ((kernel.mutex index).threadsQueue position).map QueueEntry.slot ≠
        some slot)
    (by simp [InQueue])

/-- The mutex queues hold the lists `waiters`, and every entry stands for a
thread that waits on the mutex of its queue. -/
structure Queues (kernel : Kernel Cpu) (status : Slot → Status Cpu)
    (waiters : MutexId → List QueueEntry) : Prop where
  waiting : ∀ index, (kernel.mutex index).Waiting (waiters index)
  nodup : ∀ index, ((waiters index).map QueueEntry.slot).Nodup
  queuedOn : ∀ index, ∀ entry ∈ waiters index, (status entry.slot).QueuedOn index
  incarnation : ∀ index, ∀ entry ∈ waiters index,
    (kernel.thread entry.slot).incarnation = entry.incarnation
  unlocked : ∀ index, (kernel.mutex index).locked = false → waiters index = []
  unused : ∀ index, (kernel.mutex index).state = .unusedMutex → waiters index = []

structure Attached (status : Slot → Status Cpu) (waiters : MutexId → List QueueEntry) : Prop where
  blocked : ∀ slot location, status slot = .blocked location →
    ∃ index, slot ∈ (waiters index).map QueueEntry.slot
  queued : ∀ slot index, (status slot).location = some (.lockQueued index) →
      slot ∈ (waiters index).map QueueEntry.slot

section Effects

variable {kernel after : Kernel Cpu} {status changed : Slot → Status Cpu}
variable {waiters : MutexId → List QueueEntry}

/-- A section that leaves the queues alone and changes no queued thread. -/
theorem Queues.transfer (queues : Queues kernel status waiters)
    (waiting : ∀ index, (after.mutex index).Waiting (waiters index))
    (queuedOn : ∀ index, ∀ entry ∈ waiters index, (status entry.slot).QueuedOn index →
        (changed entry.slot).QueuedOn index)
    (incarnations : ∀ index, ∀ entry ∈ waiters index, (after.thread entry.slot).incarnation =
        (kernel.thread entry.slot).incarnation)
    (unlocked : ∀ index, (after.mutex index).locked = false →
      (kernel.mutex index).locked = false ∨ waiters index = [])
    (unused : ∀ index, (after.mutex index).state = .unusedMutex →
      (kernel.mutex index).state = .unusedMutex ∨ waiters index = []) :
    Queues after changed waiters where
  waiting := waiting
  nodup := queues.nodup
  queuedOn index entry listed := queuedOn index entry listed (queues.queuedOn index entry listed)
  incarnation index entry listed :=
    (incarnations index entry listed).trans (queues.incarnation index entry listed)
  unlocked index released := (unlocked index released).elim (queues.unlocked index) id
  unused index freed := (unused index freed).elim (queues.unused index) id

/-- A section that changes no mutex and makes only quiet changes. -/
theorem Queues.quiet (queues : Queues kernel status waiters)
    (quiet : ∀ slot, (status slot).Quiet (changed slot)) (mutexes : after.mutex = kernel.mutex)
    (incarnations : ∀ slot, (after.thread slot).incarnation = (kernel.thread slot).incarnation) :
    Queues after changed waiters := by
  apply queues.transfer
  · rw [mutexes]
    exact queues.waiting
  · exact fun index entry _ queued => (quiet entry.slot).queuedOn queued
  · exact fun index entry _ => incarnations entry.slot
  · intro index released
    rw [mutexes] at released
    exact Or.inl released
  · intro index freed
    rw [mutexes] at freed
    exact Or.inl freed

theorem Attached.quiet (attached : Attached status waiters)
    (quiet : ∀ slot, (status slot).Quiet (changed slot)) :
    Attached changed waiters where
  blocked slot location isBlocked := by
    have change := quiet slot
    rw [isBlocked] at change
    rcases change.blocked_inv with same | ⟨cpu, index, onCpu⟩
    · exact attached.blocked slot location same
    · exact ⟨index, attached.queued slot index (by simp [onCpu, Status.location])⟩
  queued slot index located := attached.queued slot index ((quiet slot).location_lockQueued located)

theorem Queues.not_listed (queues : Queues kernel status waiters) {slot : Slot} (index : MutexId)
    (notQueued : ¬ (status slot).QueuedOn index) :
    slot ∉ (waiters index).map QueueEntry.slot := by
  intro listed
  obtain ⟨entry, member, rfl⟩ := List.mem_map.mp listed
  exact notQueued (queues.queuedOn index entry member)

theorem Queues.inQueue_iff (queues : Queues kernel status waiters) (slot : Slot) :
    kernel.InQueue slot ↔ ∃ index, slot ∈ (waiters index).map QueueEntry.slot := by
  constructor
  · rintro ⟨index, position, found⟩
    rw [(queues.waiting index).stored.2, ← List.getElem?_map] at found
    exact ⟨index, List.mem_of_getElem? found⟩
  · rintro ⟨index, listed⟩
    obtain ⟨position, found⟩ := List.mem_iff_getElem?.mp listed
    obtain ⟨inRange, -⟩ := List.getElem?_eq_some_iff.mp found
    have stored := (queues.waiting index).stored
    refine ⟨index, ⟨position, ?_⟩, ?_⟩
    · rw [List.length_map] at inRange
      exact Nat.lt_of_lt_of_le inRange stored.1
    · rw [stored.2, ← List.getElem?_map]
      exact found

end Effects

end Kernel

end Xv6Kthreads
