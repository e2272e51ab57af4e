import Xv6Kthreads.KernelScheduling

/-!
# Mutex sections

This file computes, for each section of `kthread_mutex_lock`,
`kthread_mutex_unlock` and `kthread_mutex_yieldlock`, the change of thread
statuses and of the waiter lists.  The sections that take a thread out of a
queue are treated under the assumption that the thread does not run.
-/

namespace Xv6Kthreads

open Function List

namespace Kernel

variable {Cpu : Type*}

section MutexSections

variable {kernel after : Kernel Cpu} {status changed : Slot → Status Cpu}
variable {waiters updated : MutexId → List QueueEntry} {takesBlocked : Prop}
variable {index : MutexId} {mutex : KthreadMutex QueueEntry}

section

variable (view : View kernel status) (queues : Queues kernel status waiters)
variable (waiting : mutex.Waiting (waiters index))
variable (locked : mutex.locked = false → (kernel.mutex index).locked = false ∨ waiters index = [])
variable (unused : mutex.state = .unusedMutex →
  (kernel.mutex index).state = .unusedMutex ∨ waiters index = [])

include queues waiting locked unused

theorem Queues.setMutex : Queues (kernel.setMutex index mutex) status waiters := by
  apply queues.transfer
  · intro other
    rcases eq_or_ne other index with rfl | same
    · simpa [Kernel.setMutex] using waiting
    · simpa [Kernel.setMutex, update_of_ne same] using queues.waiting other
  · exact fun _ _ _ queued => queued
  · exact fun _ _ _ => rfl
  · intro other released
    rcases eq_or_ne other index with rfl | same
    · exact locked (by simpa [Kernel.setMutex] using released)
    · exact Or.inl (by simpa [Kernel.setMutex, update_of_ne same] using released)
  · intro other freed
    rcases eq_or_ne other index with rfl | same
    · exact unused (by simpa [Kernel.setMutex] using freed)
    · exact Or.inl (by simpa [Kernel.setMutex, update_of_ne same] using freed)

include view in
theorem setMutex_effect :
    Effect kernel (kernel.setMutex index mutex) status status waiters waiters takesBlocked where
  view := view.congr (fun _ => rfl) (fun _ => rfl) rfl
  queues := queues.setMutex waiting locked unused
  tame _ := .quiet (.refl _)
  procs _ := rfl
  incarnations _ := rfl
  attached _ attached := attached

end

variable {entry : QueueEntry} {rest : List QueueEntry}

/-- The first entry of a well-formed queue is what an unlock takes. -/
theorem unlockedEntry_eq (waiting : mutex.Waiting (entry :: rest))
    (used : mutex.state = .usedMutex) (locked : mutex.locked = true) :
    unlockedEntry mutex = some entry := by
  rw [unlockedEntry, if_pos ⟨used, locked⟩, waiting.stored.2]
  rfl

/-- The entries that stay behind when the first one is taken out belong to
other threads. -/
theorem Queues.rest_ne (queues : Queues kernel status waiters)
    (listed : waiters index = entry :: rest) {other : MutexId} {stays : QueueEntry}
    (member : stays ∈ update waiters index rest other) :
    stays ∈ waiters other ∧ stays.slot ≠ entry.slot := by
  rcases eq_or_ne other index with rfl | same
  · rw [update_self] at member
    have nodup := queues.nodup other
    rw [listed, map_cons, nodup_cons] at nodup
    refine ⟨by simp [listed, member], ?_⟩
    intro equal
    exact nodup.1 (equal ▸ mem_map_of_mem member)
  · rw [update_of_ne same] at member
    refine ⟨member, ?_⟩
    intro equal
    have onOther := queues.queuedOn other stays member
    have onIndex := queues.queuedOn index entry (by simp [listed])
    rw [equal] at onOther
    exact same (onOther.unique onIndex)

/-- A waiter that does not run is taken out of its queue and made runnable. -/
theorem takeWaiter_effect (view : View kernel status) (queues : Queues kernel status waiters)
    (listed : waiters index = entry :: rest) (locked : (kernel.mutex index).locked = true)
    (notRunning : (kernel.thread entry.slot).state ≠ .running) :
    ∃ changed, Effect kernel ((kernel.setMutex index
          (kernel.mutex index).dropFirstThread).setState entry.slot .runnable)
        status changed waiters (update waiters index rest)
        ((kernel.thread entry.slot).state = .blocked) ∧
      ∀ slot, slot ≠ entry.slot → changed slot = status slot := by
  have queued := queues.queuedOn index entry (by simp [listed])
  rw [view.state_eq] at notRunning
  obtain ⟨location, saved, waits⟩ := queued.off_cpu notRunning
  have offCpu : (status entry.slot).place = none := by
    rcases waits with ⟨blocked, -⟩ | runnable
    · rw [blocked]
      rfl
    · rw [runnable]
      rfl
  have waiting := queues.waiting index
  rw [listed] at waiting
  obtain ⟨-, dropped⟩ := waiting.pop
  refine ⟨update status entry.slot (.runnable location),
    ⟨?_, ?_, ?_, fun process => rfl, fun slot => by simp, ?_⟩,
    fun slot differs => update_of_ne differs _ _⟩
  · apply view.change offCpu rfl
    · intro other differs
      simp [setState, setThread, Kernel.setMutex, update_of_ne differs]
    · simp [setState, setThread, Status.state]
    · intro place placeSaved
      have context := view.context_eq entry.slot location saved
      simp only [reading_saved, Status.saved, Option.some.injEq] at placeSaved
      simpa [setState, setThread, Kernel.setMutex, placeSaved] using context
    · rfl
  · refine ⟨?_, ?_, ?_, ?_, ?_, ?_⟩
    · intro other
      rcases eq_or_ne other index with rfl | same
      · simpa [setState, setThread, Kernel.setMutex] using dropped
      · simpa [setState, setThread, Kernel.setMutex, update_of_ne same] using queues.waiting other
    · intro other
      rcases eq_or_ne other index with rfl | same
      · have nodup := queues.nodup other
        rw [listed, map_cons, nodup_cons] at nodup
        simpa using nodup.2
      · simpa [update_of_ne same] using queues.nodup other
    · intro other stays member
      obtain ⟨staysListed, differs⟩ := queues.rest_ne listed member
      rw [update_of_ne differs]
      exact queues.queuedOn other stays staysListed
    · intro other stays member
      rw [setState_incarnation]
      exact queues.incarnation other stays (queues.rest_ne listed member).1
    · intro other released
      rcases eq_or_ne other index with rfl | same
      · simp [setState, setThread, Kernel.setMutex, locked] at released
      · rw [update_of_ne same]
        exact queues.unlocked other (by
          simpa [setState, setThread, Kernel.setMutex, update_of_ne same] using released)
    · intro other freed
      rcases eq_or_ne other index with rfl | same
      · have wasFreed := queues.unused other (by
          simpa [setState, setThread, Kernel.setMutex] using freed)
        simp [listed] at wasFreed
      · rw [update_of_ne same]
        exact queues.unused other (by
          simpa [setState, setThread, Kernel.setMutex, update_of_ne same] using freed)
  · intro slot
    rcases eq_or_ne slot entry.slot with rfl | same
    · rw [update_self]
      rcases waits with ⟨blocked, -⟩ | runnable
      · rw [blocked]
        exact .release location
      · rw [runnable]
        exact .quiet (.refl _)
    · rw [update_of_ne same]
      exact .quiet (.refl _)
  · intro takesBlocked attached
    rw [view.state_eq] at takesBlocked
    have staysListed : ∀ slot other, slot ≠ entry.slot →
        slot ∈ (waiters other).map QueueEntry.slot → slot ∈ (update waiters index rest other).map
            QueueEntry.slot := by
      intro slot other differs member
      rcases eq_or_ne other index with rfl | same
      · simpa [listed, differs] using member
      · rwa [update_of_ne same]
    constructor
    · intro slot place isBlocked
      have differs : slot ≠ entry.slot := by
        rintro rfl
        simp at isBlocked
      rw [update_of_ne differs] at isBlocked
      obtain ⟨other, member⟩ := attached.blocked slot place isBlocked
      exact ⟨other, staysListed slot other differs member⟩
    · intro slot other located
      have differs : slot ≠ entry.slot := by
        rintro rfl
        rw [update_self] at located
        rcases waits with ⟨blocked, notQueued⟩ | runnable
        · simp only [Status.location, Option.some.injEq] at located
          rw [blocked, located] at queued
          cases queued
        · rw [runnable] at takesBlocked
          simp [Status.state] at takesBlocked
      rw [update_of_ne differs] at located
      exact staysListed slot other differs (attached.queued slot other located)

theorem unlockSection_effect (view : View kernel status) (queues : Queues kernel status waiters)
    (notRunning : ∀ entry, unlockedEntry (kernel.mutex index) = some entry →
      (kernel.thread entry.slot).state ≠ .running)
    (result : kernel.unlockSection index = some after) :
    ∃ changed updated, Effect kernel after status changed waiters updated
        (∀ entry, unlockedEntry (kernel.mutex index) = some entry →
          (kernel.thread entry.slot).state = .blocked) ∧
      (∀ slot, ¬ (status slot).QueuedOn index → changed slot = status slot) ∧
      after.running = kernel.running := by
  unfold unlockSection at result
  split at result <;> cases result
  next value mutex unlockResult =>
    rcases (queues.waiting index).unlock_cases unlockResult with quiet | pops
    · obtain ⟨-, waiting, stateEq, unlocked⟩ := quiet
      exact ⟨status, waiters, setMutex_effect view queues waiting unlocked
        (fun freed => Or.inl (stateEq ▸ freed)), fun _ _ => rfl, rfl⟩
    · obtain ⟨next, rest, -, woken, -⟩ := pops
      simp at woken
  next value entry mutex unlockResult =>
    rcases (queues.waiting index).unlock_cases unlockResult with quiet | pops
    · simp at quiet
    · obtain ⟨next, rest, listed, woken, used, locked, released, -⟩ := pops
      cases woken
      subst released
      have waiting := queues.waiting index
      rw [listed] at waiting
      have taken := unlockedEntry_eq waiting used locked
      obtain ⟨changed, effect, others⟩ := takeWaiter_effect view queues
        listed locked (notRunning entry taken)
      refine ⟨changed, update waiters index rest, ?_, ?_, rfl⟩
      · exact { effect with
          attached := fun blocked => effect.attached (blocked entry taken) }
      · intro slot notQueued
        apply others
        rintro rfl
        exact notQueued (queues.queuedOn index entry (by simp [listed]))

theorem Effect.trans {middle : Kernel Cpu} {final : Slot → Status Cpu}
    {last : MutexId → List QueueEntry}
    (first : Effect kernel middle status changed waiters updated takesBlocked)
    (second : Effect middle after changed final updated last takesBlocked)
    (apart : ∀ slot, changed slot = status slot ∨ final slot = changed slot) :
    Effect kernel after status final waiters last takesBlocked where
  __ := second
  tame slot := by
    rcases apart slot with same | same
    · rw [← same]
      exact second.tame slot
    · rw [same]
      exact first.tame slot
  procs process := (second.procs process).trans (first.procs process)
  incarnations slot := (second.incarnations slot).trans (first.incarnations slot)
  attached blocked attached := second.attached blocked (first.attached blocked attached)

variable {slot : Slot} {new : Status Cpu}

theorem Queues.push (queues : Queues kernel status waiters) (entrySlot : entry.slot = slot)
    (entryIncarnation : (kernel.thread slot).incarnation = entry.incarnation)
    (notQueued : ∀ other, ¬ (status slot).QueuedOn other) (queued : new.QueuedOn index)
    (waiting : mutex.Waiting (waiters index ++ [entry])) (locked : mutex.locked = true)
    (used : mutex.state = .usedMutex) (mutexes : after.mutex = update kernel.mutex index mutex)
    (incarnations : ∀ other, (after.thread other).incarnation = (kernel.thread other).incarnation) :
    Queues after (update status slot new) (update waiters index (waiters index ++ [entry])) := by
  have oldNe : ∀ other, ∀ old ∈ waiters other, old.slot ≠ slot := by
    rintro other old listed rfl
    exact notQueued other (queues.queuedOn other old listed)
  refine ⟨?_, ?_, ?_, ?_, ?_, ?_⟩
  · intro other
    rw [mutexes]
    rcases eq_or_ne other index with rfl | same
    · simpa using waiting
    · simpa [update_of_ne same] using queues.waiting other
  · intro other
    rcases eq_or_ne other index with rfl | same
    · rw [update_self, map_append, map_singleton, ← concat_eq_append]
      apply List.Nodup.concat _ (queues.nodup other)
      rw [entrySlot]
      exact queues.not_listed other (notQueued other)
    · simpa [update_of_ne same] using queues.nodup other
  · intro other old listed
    rcases eq_or_ne other index with rfl | same
    · rw [update_self, mem_append, mem_singleton] at listed
      rcases listed with listed | rfl
      · rw [update_of_ne (oldNe other old listed)]
        exact queues.queuedOn other old listed
      · rw [entrySlot, update_self]
        exact queued
    · rw [update_of_ne same] at listed
      rw [update_of_ne (oldNe other old listed)]
      exact queues.queuedOn other old listed
  · intro other old listed
    rw [incarnations]
    rcases eq_or_ne other index with rfl | same
    · rw [update_self, mem_append, mem_singleton] at listed
      rcases listed with listed | rfl
      · exact queues.incarnation other old listed
      · rw [entrySlot, entryIncarnation]
    · rw [update_of_ne same] at listed
      exact queues.incarnation other old listed
  · intro other released
    rcases eq_or_ne other index with rfl | same
    · simp [mutexes, locked] at released
    · rw [update_of_ne same]
      exact queues.unlocked other (by simpa [mutexes, update_of_ne same] using released)
  · intro other freed
    rcases eq_or_ne other index with rfl | same
    · simp [mutexes, used] at freed
    · rw [update_of_ne same]
      exact queues.unused other (by simpa [mutexes, update_of_ne same] using freed)

theorem Attached.push (attached : Attached status waiters) (entrySlot : entry.slot = slot)
    (located : ∀ other, new.location = some (.lockQueued other) → other = index) :
    Attached (update status slot new) (update waiters index (waiters index ++ [entry])) := by
  have kept : ∀ thread other, thread ∈ (waiters other).map QueueEntry.slot →
        thread ∈ (update waiters index (waiters index ++ [entry]) other).map QueueEntry.slot := by
    intro thread other listed
    rcases eq_or_ne other index with rfl | same
    · rw [update_self, map_append]
      exact mem_append_left _ listed
    · rwa [update_of_ne same]
  have added : slot ∈ (update waiters index
      (waiters index ++ [entry]) index).map QueueEntry.slot := by
    simp [entrySlot]
  constructor
  · intro thread location isBlocked
    rcases eq_or_ne thread slot with rfl | same
    · exact ⟨index, added⟩
    · rw [update_of_ne same] at isBlocked
      obtain ⟨other, listed⟩ := attached.blocked thread location isBlocked
      exact ⟨other, kept thread other listed⟩
  · intro thread other isLocated
    rcases eq_or_ne thread slot with rfl | same
    · rw [update_self] at isLocated
      rw [located other isLocated]
      exact added
    · rw [update_of_ne same] at isLocated
      exact kept thread other (attached.queued thread other isLocated)

theorem tame_update (tame : (status slot).Tame new) (other : Slot) :
    (status other).Tame (update status slot new other) := by
  rcases eq_or_ne other slot with rfl | same
  · simpa using tame
  · rw [update_of_ne same]
    exact .quiet (.refl _)

variable [DecidableEq Cpu] {cpu : Cpu}

section

variable (view : View kernel status) (queues : Queues kernel status waiters)

include view queues

theorem lockEnter_effect (result : kernel.lockEnter cpu index = some after) : ∃ changed updated,
      Effect kernel after status changed waiters updated takesBlocked := by
  unfold lockEnter at result
  split at result
  swap
  · simp at result
  rename_i slot runs
  have onCpu := view.onCpu_of_running runs (by simp)
  split at result <;> cases result
  next value mutex entered =>
    rcases (queues.waiting index).lockEnter_cases entered with returns | queue
    · obtain ⟨-, -, waiting, stateEq, unlocked⟩ := returns
      exact ⟨status, waiters, setMutex_effect view queues waiting
        (fun released => Or.inl (unlocked released))
        (fun freed => Or.inl (stateEq ▸ freed))⟩
    · simp at queue
  next mutex entered =>
    rcases (queues.waiting index).lockEnter_cases entered with returns | queue
    · simp at returns
    · obtain ⟨-, used, -, waiting, stateEq, locked⟩ := queue
      refine ⟨_, _, ?_, queues.push rfl rfl ?_ (.onCpu cpu) waiting locked
        (stateEq.trans used) rfl (fun other => rfl), ?_, fun process => rfl,
        fun other => rfl, ?_⟩
      · exact view.move onCpu (fun other => rfl) (fun other _ => rfl) rfl
      · rw [onCpu]
        rintro other ⟨⟩
      · exact tame_update (by rw [onCpu]; exact .enqueue cpu index)
      · intro _ attached
        apply attached.push rfl
        intro other located
        simpa [Status.location, eq_comm] using located

theorem lockFinish_effect (result : kernel.lockFinish cpu = some after) :
    ∃ changed, Effect kernel after status changed waiters waiters
      takesBlocked := by
  unfold lockFinish at result
  split at result <;> cases result
  rename_i slot index runs
  have stored : Effect _ _ _ _ _ _ takesBlocked :=
    setMutex_effect view queues ((queues.waiting index).with_locked true) (by simp) Or.inl
  refine ⟨_, stored.trans (goTo_effect stored.view stored.queues
    (view.onCpu_of_running runs (by simp)) trivial trivial) ?_⟩
  exact fun slot => Or.inl rfl

theorem unlockId_effect {id : Int} {location target : Location} {unlocked : Kernel Cpu}
    {label : Label Cpu} (onCpu : status slot = .onCpu cpu location) (plain : location.Plain)
    (targetPlain : target.Plain) (taken : kernel.takenEntry label =
      (mutexIndex id).bind fun index => unlockedEntry (kernel.mutex index))
    (stopped : kernel.TakesStopped label) (result : kernel.unlockId id = some unlocked) :
    ∃ changed updated, Effect kernel (unlocked.goTo cpu slot target) status changed waiters
        updated (kernel.TakesBlocked label) := by
  unfold unlockId at result
  split at result
  · simp at result
  rename_i index indexEq
  simp only [TakesStopped, TakesBlocked, taken, indexEq, Option.bind_some] at stopped ⊢
  obtain ⟨changed, updated, effect, others, -⟩ := unlockSection_effect view queues stopped result
  have same : changed slot = status slot := by
    apply others
    rw [onCpu]
    intro queued
    cases queued
    exact plain
  refine ⟨_, updated, effect.trans (goTo_effect effect.view effect.queues
    (same.trans onCpu) plain targetPlain) ?_⟩
  intro other
  by_cases equal : other = slot
  · exact Or.inl (equal ▸ same)
  · exact Or.inr (update_of_ne equal _ _)

theorem yieldlockUnlockSecond_effect (stopped : kernel.TakesStopped (.yieldlockUnlockSecond cpu))
    (result : kernel.yieldlockUnlockSecond cpu = some after) :
    ∃ changed updated, Effect kernel after status changed waiters updated
      (kernel.TakesBlocked (.yieldlockUnlockSecond cpu)) := by
  unfold yieldlockUnlockSecond at result
  split at result
  next slot first second runs =>
    obtain ⟨unlocked, unlocks, rfl⟩ := Option.map_eq_some_iff.mp result
    exact unlockId_effect view queues (view.onCpu_of_running runs (by simp)) trivial trivial
      (by simp [takenEntry, runs]) stopped unlocks
  next => simp at result

theorem yieldlockUnlockFirst_effect (stopped : kernel.TakesStopped (.yieldlockUnlockFirst cpu))
    (result : kernel.yieldlockUnlockFirst cpu = some after) :
    ∃ changed updated, Effect kernel after status changed waiters updated
      (kernel.TakesBlocked (.yieldlockUnlockFirst cpu)) := by
  unfold yieldlockUnlockFirst at result
  split at result
  next slot first runs =>
    obtain ⟨unlocked, unlocks, rfl⟩ := Option.map_eq_some_iff.mp result
    exact unlockId_effect view queues (view.onCpu_of_running runs (by simp)) trivial trivial
      (by simp [takenEntry, runs]) stopped unlocks
  next => simp at result

theorem yieldlockSection_effect (notRunning : kernel.TakesStopped (.yieldlockSection cpu))
    (result : kernel.yieldlockSection cpu = some after) :
    ∃ changed updated, Effect kernel after status changed waiters updated
      (kernel.TakesBlocked (.yieldlockSection cpu)) := by
  unfold yieldlockSection at result
  split at result
  swap
  · simp at result
  rename_i slot first second runs
  have onCpu := view.onCpu_of_running runs (by simp)
  simp only [TakesStopped, TakesBlocked, takenEntry, runs] at notRunning ⊢
  cases listed : waiters second with
  | nil =>
    have empty := (queues.waiting second).emptyQueue_iff.mpr listed
    simp only [empty, Bool.not_true, Bool.false_eq_true, if_false] at result
    cases result
    exact ⟨_, waiters, goTo_effect view queues onCpu trivial trivial⟩
  | cons entry rest =>
    have waiting := queues.waiting second
    rw [listed] at waiting
    have notEmpty : (kernel.mutex second).emptyQueue = false := by
      rw [Bool.eq_false_iff]
      intro empty
      simpa using waiting.emptyQueue_iff.mp empty
    have locked : (kernel.mutex second).locked = true := by
      rw [← Bool.not_eq_false]
      intro unlocked
      simpa [listed] using queues.unlocked second unlocked
    have used : (kernel.mutex second).state = .usedMutex := by
      cases state : (kernel.mutex second).state with
      | unusedMutex => simpa [listed] using queues.unused second state
      | usedMutex => rfl
    have taken : (kernel.mutex second).threadsQueue ⟨0, by decide⟩ =
        some entry := by
      rw [waiting.stored.2]
      rfl
    obtain ⟨popResult, dropped⟩ := waiting.pop
    simp only [notEmpty, Bool.not_false, if_true, popResult] at result
    split at result <;> cases result
    rename_i pushed pushResult
    obtain ⟨pushedWaiting, stateEq, -, lockedEq⟩ := dropped.push pushResult
    obtain ⟨changed, effect, others⟩ := takeWaiter_effect view queues
      listed locked (notRunning entry taken)
    have differs : slot ≠ entry.slot := by
      rintro rfl
      have queued := queues.queuedOn second entry (by simp [listed])
      rw [onCpu] at queued
      cases queued
    have same := (others slot differs).trans onCpu
    have queue : pushed.Waiting (update waiters second rest
        second ++ [⟨slot, (kernel.thread slot).incarnation⟩]) := by
      rw [update_self]
      exact pushedWaiting
    refine ⟨_, _, Effect.trans { effect with
      attached := fun blocked => effect.attached (blocked entry taken) }
      ⟨?_, effect.queues.push rfl ?_ ?_ (.yieldlock) queue (lockedEq.trans locked)
        (stateEq.trans used) ?_ ?_, ?_, fun process => rfl, ?_, ?_⟩ ?_⟩
    · apply effect.view.leave runs rfl
      · intro other otherNe
        rcases eq_or_ne other entry.slot with rfl | equal
        · simp [sched, setState, setThread, otherNe]
        · simp [sched, setState, setThread, otherNe, equal]
      · simp [sched, setState, setThread, differs, Status.state]
      · intro location saved
        simpa [sched, setThread, Status.saved] using saved
      · rfl
    · exact effect.incarnations slot
    · rw [same]
      rintro other ⟨⟩
    · simp [sched, setState, setThread, Kernel.setMutex]
    · intro other
      simp
    · apply tame_update
      rw [same]
      exact .yieldlock cpu first second
    · intro other
      simp
    · intro _ attached
      apply attached.push rfl
      intro other located
      simp [Status.location] at located
    · intro other
      rcases eq_or_ne other slot with rfl | equal
      · exact Or.inl (same.trans onCpu.symm)
      · exact Or.inr (update_of_ne equal _ _)

end

end MutexSections

end Kernel

end Xv6Kthreads
