import Xv6Kthreads.KernelExit

/-!
# Dead threads stay dead

A zombie should stay a zombie until it is reaped, and an unused slot unused
until it is allocated.  The source breaks this in five places: an unlock can
take a running thread out of a queue; `exit` kills threads that a mutex queue
still points to or that `kthread_create` has not finished; `kthread_exit` runs
`exit`, which can sleep, as a zombie; and `wait` leaves the threads of the
child it reaps as zombies, which `allocproc` then reuses.  In every run that
avoids these, dead threads stay dead.
-/

namespace Xv6Kthreads

namespace Kernel

open LabelledRun Function

variable {Cpu : Type*}

def Label.Reaps : Label Cpu → Prop
  | .join _ _ => True
  | .joinRescan _ => True
  | .wait _ => True
  | .waitRescan _ => True
  | _ => False

def Label.Allocates : Label Cpu → Prop
  | .create _ => True
  | .fork _ => True
  | _ => False

/-- The section leaves dead threads dead, and an entry taken out of a mutex
queue stands for the live thread that was pushed. -/
structure StaysDead (kernel : Kernel Cpu) (label : Label Cpu) (after : Kernel Cpu) : Prop where
  zombie : ∀ slot, (kernel.thread slot).state = .zombie → (after.thread slot).state = .zombie ∨
      label.Reaps ∧ (after.thread slot).state = .unused
  unused : ∀ slot, (kernel.thread slot).state = .unused → (after.thread slot).state = .unused ∨
      label.Allocates ∧ (after.thread slot).state = .embryo
  taken : ∀ entry, kernel.takenEntry label = some entry → ¬ (kernel.thread entry.slot).state.Dead ∧
      (kernel.thread entry.slot).incarnation = entry.incarnation

/-- The thread whose `exit` the labelled section finishes. -/
def exiter (kernel : Kernel Cpu) : Label Cpu → Option Slot
  | .exitFinish cpu =>
    match kernel.running cpu with
    | some (slot, .exiting) => some slot
    | _ => none
  | _ => none

def allocated (kernel : Kernel Cpu) : Label Cpu → Option ProcId
  | .fork _ => kernel.unusedProc
  | _ => none

/-- The condition on a section under which no thread is brought back from the
dead: it takes no running thread out of a mutex queue, it puts no zombie to
sleep, no sibling that `exit` kills is under construction or in a mutex queue,
and the main thread of a process that `fork` takes is unused. -/
structure Orderly (kernel : Kernel Cpu) (label : Label Cpu) : Prop where
  stopped : kernel.TakesStopped label
  alive : kernel.SleepsAlive label
  exits : ∀ slot, kernel.exiter label = some slot → ∀ index, (slot.1, index) ≠ slot →
      (kernel.thread (slot.1, index)).state ≠ .running →
        (kernel.thread (slot.1, index)).state ≠ .embryo ∧ ¬ kernel.InQueue (slot.1, index)
  forks : ∀ child, kernel.allocated label = some child →
    (kernel.thread (mainThread child)).state = .unused

theorem Status.Tame.eq_of_dead {before after : Status Cpu}
    (tame : Tame before after) (dead : before.state.Dead) :
    after = before := by
  cases tame with
  | quiet quiet =>
    cases quiet with
    | refl => rfl
    | _ => simp [state, RunState.Dead] at dead
  | _ => simp [state, RunState.Dead] at dead

section Steps

variable {kernel after : Kernel Cpu} {status : Slot → Status Cpu}
variable {waiters : MutexId → List QueueEntry} {label : Label Cpu}

theorem Queues.taken_live (queues : Queues kernel status waiters) (view : View kernel status)
    {entry : QueueEntry} (taken : kernel.takenEntry label = some entry) :
    ¬ (kernel.thread entry.slot).state.Dead ∧
      (kernel.thread entry.slot).incarnation = entry.incarnation := by
  have front : ∀ index, (kernel.mutex index).threadsQueue ⟨0, by decide⟩ = some entry →
        entry ∈ waiters index := by
    intro index first
    rw [(queues.waiting index).stored.2] at first
    exact List.mem_of_getElem? first
  have unlocked : ∀ index, unlockedEntry (kernel.mutex index) = some entry →
        entry ∈ waiters index := by
    intro index first
    unfold unlockedEntry at first
    split at first
    · exact front index first
    · simp at first
  have listed : ∃ index, entry ∈ waiters index := by
    unfold takenEntry at taken
    split at taken
    · exact ⟨_, unlocked _ taken⟩
    · split at taken
      · exact ⟨_, front _ taken⟩
      · simp at taken
    · split at taken
      · obtain ⟨index, -, first⟩ := Option.bind_eq_some_iff.mp taken
        exact ⟨index, unlocked index first⟩
      · simp at taken
    · split at taken
      · obtain ⟨index, -, first⟩ := Option.bind_eq_some_iff.mp taken
        exact ⟨index, unlocked index first⟩
      · simp at taken
    · simp at taken
  obtain ⟨index, member⟩ := listed
  refine ⟨?_, queues.incarnation index entry member⟩
  rw [view.state_eq]
  have queued := queues.queuedOn index entry member
  cases current : status entry.slot <;> rw [current] at queued <;>
    cases queued <;> simp [Status.state, RunState.Dead]

theorem Coherent.staysDead (coherent : Coherent kernel status waiters)
    (same : ∀ slot, (kernel.thread slot).state.Dead →
      (after.thread slot).state = (kernel.thread slot).state) :
    StaysDead kernel label after where
  zombie slot zombie := Or.inl ((same slot (Or.inl zombie)).trans zombie)
  unused slot unused := Or.inl ((same slot (Or.inr unused)).trans unused)
  taken _ taken := coherent.queues.taken_live coherent.view taken

section

variable {cpu : Cpu} {slot : Slot} {place : Location} (coherent : Coherent kernel status waiters)
  (runs : kernel.running cpu = some (slot, place))
include coherent runs

theorem Coherent.running_state (notExiting : place ≠ .exiting) :
    (kernel.thread slot).state = .running := by
  rw [coherent.view.state_eq, coherent.view.onCpu_of_running runs notExiting]
  rfl

theorem Coherent.embryo_state {construction : Construction}
    (builds : place.construction = some construction) :
    (kernel.thread construction.target).state = .embryo := by
  have notExiting : place ≠ .exiting := by
    rintro rfl
    simp [Location.construction] at builds
  have embryo := coherent.life.embryo slot construction (by
    rw [coherent.view.onCpu_of_running runs notExiting]
    exact builds)
  rw [coherent.view.state_eq, embryo]
  rfl

end

/-- A section that stores into one thread record, and not into a dead one. -/
theorem same_of_stored {target : Slot} {thread : Thread}
    (threads : after.thread = update kernel.thread target thread)
    (alive : ¬ (kernel.thread target).state.Dead) (slot : Slot)
    (dead : (kernel.thread slot).state.Dead) :
    (after.thread slot).state = (kernel.thread slot).state := by
  have differs : slot ≠ target := by
    rintro rfl
    exact alive dead
  rw [threads, update_of_ne differs]

section

variable (coherent : Coherent kernel status waiters)
include coherent

theorem setMutex_coherent {index : MutexId} {mutex : KthreadMutex QueueEntry}
    (nobody : waiters index = []) (waiting : mutex.Waiting []) :
    Coherent (kernel.setMutex index mutex) status waiters := by
  refine ⟨coherent.view.congr (fun _ => rfl) (fun _ => rfl) rfl, ?_,
    coherent.life.tame (fun slot => .quiet (.refl _)) fun process => rfl⟩
  exact coherent.queues.setMutex (nobody ▸ waiting) (fun _ => Or.inr nobody) fun _ => Or.inr nobody

theorem mutexAlloc_coherent : Coherent kernel.mutexAlloc status waiters := by
  unfold mutexAlloc
  split
  next => exact coherent
  next index found =>
    have isUnused := List.find?_some found
    have nobody := coherent.queues.unused index (by simpa using isUnused)
    have waiting := coherent.queues.waiting index
    rw [nobody] at waiting
    exact setMutex_coherent coherent nobody (waiting.allocate _)

theorem mutexDealloc_coherent (id : Int) : Coherent (kernel.mutexDealloc id) status waiters := by
  unfold mutexDealloc
  split
  next => exact coherent
  next index found =>
    split
    next free =>
      have nobody := coherent.queues.unlocked index free.2
      have waiting := coherent.queues.waiting index
      rw [nobody] at waiting
      exact setMutex_coherent coherent nobody ⟨waiting.stored, waiting.first_eq, waiting.last_eq⟩
    next => exact coherent

end

theorem mutexAlloc_thread (kernel : Kernel Cpu) : kernel.mutexAlloc.thread = kernel.thread := by
  unfold mutexAlloc
  split <;> rfl

theorem mutexDealloc_thread (kernel : Kernel Cpu) (id : Int) :
    (kernel.mutexDealloc id).thread = kernel.thread := by
  unfold mutexDealloc
  split
  · rfl
  · split <;> rfl

variable [DecidableEq Cpu] {cpu : Cpu}

section

variable (coherent : Coherent kernel status waiters)

include coherent

omit [DecidableEq Cpu] in
/-- A section that allocates an unused slot. -/
theorem Coherent.staysDead_allocated {target : Slot} {thread : Thread}
    (isUnused : (kernel.thread target).state = .unused)
    (threads : after.thread = update kernel.thread target thread)
    (embryo : thread.state = .embryo) (allocates : label.Allocates) :
    StaysDead kernel label after := by
  refine ⟨?_, ?_, fun _ => coherent.queues.taken_live coherent.view⟩
  · intro other zombie
    have differs : other ≠ target := by
      rintro rfl
      simp [isUnused] at zombie
    left
    rwa [threads, update_of_ne differs]
  · intro other unused
    rcases eq_or_ne other target with rfl | same
    · exact Or.inr ⟨allocates, by rw [threads, update_self, embryo]⟩
    · left
      rwa [threads, update_of_ne same]

theorem create_staysDead (result : kernel.create cpu = some after) :
    StaysDead kernel (.create cpu) after := by
  unfold create at result
  split at result
  next slot runs =>
    split at result <;> cases result
    next => exact coherent.staysDead fun slot _ => rfl
    next target found =>
      exact coherent.staysDead_allocated (unusedThread_spec found).2 rfl rfl trivial
  next => simp at result

theorem fork_staysDead (clean : ∀ child, kernel.unusedProc = some child →
      (kernel.thread (mainThread child)).state = .unused)
    (result : kernel.fork cpu = some after) :
    StaysDead kernel (.fork cpu) after := by
  unfold fork at result
  split at result
  next slot runs =>
    split at result <;> cases result
    next => exact coherent.staysDead fun slot _ => rfl
    next child found => exact coherent.staysDead_allocated (clean child found) rfl rfl trivial
  next => simp at result

omit [DecidableEq Cpu] in
/-- A section that stores into the thread under construction. -/
theorem Coherent.staysDead_built {slot : Slot} {place : Location} {construction : Construction}
    {thread : Thread} (runs : kernel.running cpu = some (slot, place))
    (builds : place.construction = some construction)
    (threads : after.thread = update kernel.thread construction.target thread) :
    StaysDead kernel label after := by
  have embryo := coherent.embryo_state runs builds
  exact coherent.staysDead (same_of_stored threads (by simp [embryo, RunState.Dead]))

theorem createFinish_staysDead {kstack : Option Nat}
    (result : kernel.createFinish cpu kstack = some after) :
    StaysDead kernel label after := by
  unfold createFinish at result
  split at result
  next slot target runs =>
    split at result <;> cases result <;> exact coherent.staysDead_built runs rfl rfl
  next => simp at result

theorem exitFinish_staysDead (result : kernel.exitFinish cpu = some after) :
    StaysDead kernel label after := by
  unfold exitFinish at result
  split at result <;> cases result
  rename_i slot runs
  apply coherent.staysDead
  intro other dead
  rcases eq_or_ne other slot with rfl | same
  · have isZombie : (kernel.thread other).state = .zombie := by
      rcases coherent.view.status_of_running runs with onCpu | ⟨last, -⟩
      · simp [coherent.view.state_eq, onCpu, Status.state, RunState.Dead] at dead
      · rw [coherent.view.state_eq, last]
        rfl
    rw [isZombie]
    split <;> simp [sched, setState, setThread, setProc]
  · rw [← kernel.endProcess_dead slot other dead]
    split <;> simp [sched, setState, setThread, setProc, same]

theorem threadExit_staysDead (result : kernel.threadExit cpu = some after) :
    StaysDead kernel label after := by
  unfold threadExit at result
  split at result
  swap
  · simp at result
  rename_i slot runs
  have running := coherent.running_state runs (by simp)
  have alive : ¬ (kernel.thread slot).state.Dead := by
    simp [running, RunState.Dead]
  have ended : ∀ other, (kernel.thread other).state.Dead →
      ((kernel.setState slot .zombie).thread other).state = (kernel.thread other).state :=
    same_of_stored rfl alive
  dsimp only at result
  split at result
  next =>
    cases result
    apply coherent.staysDead
    intro other dead
    have differs : other ≠ slot := by
      rintro rfl
      exact alive dead
    rcases (kernel.setState slot .zombie).wakeup1_state
      (some (.thread slot)) other with same | ⟨asleep, -⟩
    · simpa [sched, setThread, differs, ended other dead] using same
    · rw [ended other dead] at asleep
      simp [asleep, RunState.Dead] at dead
  next =>
    split at result <;> cases result
    exact coherent.staysDead ended

end

theorem fallAsleep_same {slot : Slot} (running : (kernel.thread slot).state = .running)
    (chan : Chan) (call : SleepCall) (other : Slot) (dead : (kernel.thread other).state.Dead) :
    ((kernel.fallAsleep cpu slot chan call).thread other).state = (kernel.thread other).state := by
  have differs : other ≠ slot := by
    rintro rfl
    simp [running, RunState.Dead] at dead
  simp [fallAsleep, sched, setThread, differs]

section

variable (coherent : Coherent kernel status waiters)
include coherent

theorem joinSection_staysDead {slot : Slot} (running : (kernel.thread slot).state = .running)
    (id : Int) (reaps : label.Reaps) :
    StaysDead kernel label (kernel.joinSection cpu slot id) := by
  unfold joinSection
  split
  next target found =>
    have isZombie := (joinable_spec found).2
    refine ⟨?_, ?_, fun entry taken =>
      coherent.queues.taken_live coherent.view taken⟩
    · intro other zombie
      rcases eq_or_ne other target with rfl | same
      · exact Or.inr ⟨reaps, by simp [goTo, setThread, reapThread]⟩
      · left
        simpa [goTo, setThread, same] using zombie
    · intro other unused
      have differs : other ≠ target := by
        rintro rfl
        simp [isZombie] at unused
      left
      simpa [goTo, setThread, differs] using unused
  next =>
    split
    next => exact coherent.staysDead fun other _ => rfl
    next =>
      split
      · exact coherent.staysDead fun other _ => rfl
      · exact coherent.staysDead (fallAsleep_same running _ _)

theorem waitSection_staysDead {slot : Slot} (running : (kernel.thread slot).state = .running)
    (reaps : label.Reaps) :
    StaysDead kernel label (kernel.waitSection cpu slot) := by
  unfold waitSection
  split
  next child found =>
    refine ⟨?_, ?_, fun entry taken =>
      coherent.queues.taken_live coherent.view taken⟩
    · intro other zombie
      simp only [goTo, setProc, reapZombies]
      split
      · exact Or.inr ⟨reaps, rfl⟩
      · exact Or.inl zombie
    · intro other unused
      left
      simp [goTo, setProc, reapZombies, unused]
  next =>
    split
    · exact coherent.staysDead (fallAsleep_same running _ _)
    · exact coherent.staysDead fun other _ => rfl

/-- A scheduling or mutex section leaves dead threads alone. -/
theorem scheduling_staysDead (scheduling : label.Scheduling) (orderly : Orderly kernel label)
    (stepTo : kernel.step label = some after) :
    StaysDead kernel label after := by
  obtain ⟨changed, updated, effect⟩ := step_effect coherent.view
    coherent.queues scheduling orderly.stopped orderly.alive stepTo
  apply coherent.staysDead
  intro slot dead
  rw [coherent.view.state_eq] at dead ⊢
  rw [effect.view.state_eq, (effect.tame slot).eq_of_dead dead]

/-- Every section that meets the condition leaves dead threads dead. -/
theorem orderly_staysDead (orderly : Orderly kernel label) (stepTo : kernel.step label = some after)
    :
    StaysDead kernel label after := by
  by_cases scheduling : label.Scheduling
  · exact scheduling_staysDead coherent scheduling orderly stepTo
  · cases label with
    | create cpu => exact create_staysDead coherent stepTo
    | createFinish cpu kstack => exact createFinish_staysDead coherent stepTo
    | fork cpu => exact fork_staysDead coherent orderly.forks stepTo
    | forkFail | forkCopy | forkFinish =>
      simp only [step, forkFail, forkCopy, forkFinish] at stepTo
      split at stepTo <;> cases stepTo
      next runs => exact coherent.staysDead_built runs rfl rfl
    | exit cpu =>
      simp only [step, exit] at stepTo
      split at stepTo
      next slot runs =>
        split at stepTo <;> cases stepTo
        exact coherent.staysDead fun slot _ => rfl
      next => simp at stepTo
    | exitFinish cpu => exact exitFinish_staysDead coherent stepTo
    | threadExit cpu => exact threadExit_staysDead coherent stepTo
    | join | joinRescan =>
      simp only [step] at stepTo
      split at stepTo <;> cases stepTo
      next runs =>
        exact joinSection_staysDead coherent (coherent.running_state runs (by simp)) _ trivial
    | wait cpu | waitRescan cpu =>
      simp only [step] at stepTo
      split at stepTo <;> cases stepTo
      next slot runs =>
        exact waitSection_staysDead coherent (coherent.running_state runs (by simp)) trivial
    | mutexAlloc | mutexDealloc =>
      simp only [step] at stepTo
      split at stepTo <;> cases stepTo
      exact coherent.staysDead (by simp [mutexAlloc_thread, mutexDealloc_thread])
    | _ => exact absurd trivial scheduling

end

/-- Which threads have a kernel stack after the labelled section. -/
def holdersAfter (kernel : Kernel Cpu) (status : Slot → Status Cpu)
    (label : Label Cpu) : Slot → Bool :=
  match kernel.kstackTarget label with
  | some target => update (stackHolders status) target (kalloced label).isSome
  | none => holdersWithout status (kernel.reapedBy label)

/-- The ties are kept; a thread whose `kstack` the section sets has had no
stack. -/
def Ties (kernel : Kernel Cpu) (status : Slot → Status Cpu)
    (label : Label Cpu) (after : Kernel Cpu) : Prop :=
  (∃ updated, Stacked after updated (kernel.holdersAfter status label)) ∧
    ∀ target, kernel.kstackTarget label = some target → status target = .embryo none

section

omit [DecidableEq Cpu]

theorem Ties.of_reaped {reaped : List Slot}
    (next : Stacked after waiters (holdersWithout status reaped))
    (isReaped : kernel.reapedBy label = reaped) (noTarget : kernel.kstackTarget label = none) :
    kernel.Ties status label after := by
  rw [Ties, holdersAfter, noTarget, isReaped]
  exact ⟨⟨waiters, next⟩, nofun⟩

theorem Ties.of_plain (next : Stacked after waiters (stackHolders status))
    (noneReaped : kernel.reapedBy label = []) (noTarget : kernel.kstackTarget label = none) :
    kernel.Ties status label after :=
  .of_reaped (by rwa [holdersWithout_nil]) noneReaped noTarget

theorem Ties.of_target {target : Slot} (embryo : status target = .embryo none)
    (next : Stacked after waiters (update (stackHolders status) target (kalloced label).isSome))
    (targetEq : kernel.kstackTarget label = some target) :
    kernel.Ties status label after := by
  rw [Ties, holdersAfter, targetEq]
  refine ⟨⟨waiters, next⟩, ?_⟩
  rintro _ ⟨⟩
  exact embryo

end

theorem orderly_stacked (coherent : Coherent kernel status waiters) (orderly : Orderly kernel label)
    (stepTo : kernel.step label = some after) : kernel.Ties status label after := by
  by_cases scheduling : label.Scheduling
  · obtain ⟨changed, updated, effect⟩ := step_effect coherent.view
      coherent.queues scheduling orderly.stopped orderly.alive stepTo
    have next := coherent.stacked_of_effect effect
    cases label with
    | create | createFinish | fork | forkFail | forkCopy | forkFinish | exit
    | exitFinish | threadExit | join | joinRescan | wait | waitRescan
    | mutexAlloc | mutexDealloc => exact scheduling.elim
    | _ => exact .of_plain next rfl rfl
  · cases label with
    | create cpu => exact .of_plain (create_coherent coherent stepTo) rfl rfl
    | createFinish cpu kstack =>
      obtain ⟨slot, target, runs, embryo, next⟩ := createFinish_coherent coherent stepTo
      exact .of_target embryo next (by simp only [kstackTarget, runs])
    | fork cpu => exact .of_plain (fork_coherent coherent orderly.forks stepTo) rfl rfl
    | forkFail cpu =>
      obtain ⟨slot, child, runs, embryo, next⟩ := forkFail_coherent coherent stepTo
      exact .of_target embryo next (by simp only [kstackTarget, runs])
    | forkCopy cpu kstack =>
      obtain ⟨slot, child, runs, embryo, next⟩ := forkCopy_coherent coherent stepTo
      exact .of_target embryo next (by simp only [kstackTarget, runs])
    | forkFinish cpu => exact .of_plain (forkFinish_coherent coherent stepTo) rfl rfl
    | exit cpu =>
      simp only [step, exit] at stepTo
      split at stepTo
      next slot runs =>
        split at stepTo <;> cases stepTo
        exact .of_plain (goTo_coherent coherent
          (coherent.view.onCpu_of_running runs (by simp)) trivial trivial) rfl rfl
      next => simp at stepTo
    | exitFinish cpu =>
      have next := exitFinish_coherent coherent (by
        intro slot runs sibling sameProc differs
        have exits := orderly.exits slot (by simp [exiter, runs]) sibling.2
        rw [← sameProc] at exits
        exact exits differs) stepTo
      exact .of_plain next rfl rfl
    | threadExit cpu => exact .of_plain (threadExit_coherent coherent stepTo) rfl rfl
    | join | joinRescan =>
      simp only [step] at stepTo
      split at stepTo <;> cases stepTo
      next runs =>
        exact .of_reaped (joinSection_coherent coherent
          (coherent.view.onCpu_of_running runs (by simp)) trivial _)
          (by simp only [reapedBy, runs]) rfl
    | wait cpu | waitRescan cpu =>
      simp only [step] at stepTo
      split at stepTo <;> cases stepTo
      next slot runs =>
        exact .of_reaped (waitSection_coherent coherent
          (coherent.view.onCpu_of_running runs (by simp)) trivial)
          (by simp only [reapedBy, runs]) rfl
    | mutexAlloc cpu =>
      simp only [step] at stepTo
      split at stepTo <;> cases stepTo
      exact .of_plain (mutexAlloc_coherent coherent).stacked rfl rfl
    | mutexDealloc cpu id =>
      simp only [step] at stepTo
      split at stepTo <;> cases stepTo
      exact .of_plain (mutexDealloc_coherent coherent id).stacked rfl rfl
    | _ => exact absurd trivial scheduling

theorem orderly_coherent (coherent : ∃ status waiters, Coherent kernel status waiters)
    (orderly : Orderly kernel label) (stepTo : kernel.step label = some after) :
    ∃ status waiters, Coherent after status waiters := by
  obtain ⟨status, waiters, coherent⟩ := coherent
  obtain ⟨updated, changed, next, -⟩ := (orderly_stacked coherent orderly stepTo).1
  exact ⟨changed, updated, next⟩

end Steps

def bootStatus (slot : Slot) : Status Cpu :=
  if slot = mainThread initproc then .runnable .user else .unused

theorem boot_coherent : Coherent (boot : Kernel Cpu) bootStatus fun _ => [] where
  view :=
    { state_eq := by
        intro slot
        simp only [boot, bootStatus]
        split <;> rfl
      context_eq := by
        intro slot location saved
        simp only [boot, bootStatus] at saved ⊢
        split at saved
        next isMain => simpa [isMain, Status.saved] using saved
        next => simp [Status.saved] at saved
      running_iff := by
        intro cpu slot location
        simp only [boot, bootStatus]
        split <;> simp [Status.place] }
  queues :=
    { waiting := fun _ => KthreadMutex.zeroed_waiting
      nodup := fun _ => List.nodup_nil
      queuedOn := by simp
      incarnation := by simp
      unlocked := fun _ _ => rfl
      unused := fun _ _ => rfl }
  life := by
    have builds : ∀ slot, (bootStatus slot : Status Cpu).construction = none := by
      intro slot
      simp only [bootStatus]
      split <;> rfl
    refine ⟨?_, ?_, ?_, ?_, ?_, ?_⟩
    · simp [builds]
    · simp [builds]
    · simp [builds]
    · simp [builds]
    · intro slot somewhere
      simp only [bootStatus] at somewhere
      split at somewhere
      next isMain =>
        subst isMain
        rfl
      next => simp [Status.location] at somewhere
    · intro slot cpu exiting
      simp only [bootStatus] at exiting
      split at exiting <;> simp at exiting

instance (kernel : Kernel Cpu) (label : Label Cpu) : Decidable (kernel.Orderly label) :=
  decidable_of_iff (kernel.TakesStopped label ∧ kernel.SleepsAlive label ∧
      ((kernel.exiter label).all fun slot => decide (∀ index, (slot.1, index) ≠ slot →
          (kernel.thread (slot.1, index)).state ≠ .running →
            (kernel.thread (slot.1, index)).state ≠ .embryo ∧ ¬ kernel.InQueue (slot.1, index))) ∧
      (kernel.allocated label).all fun child =>
        decide ((kernel.thread (mainThread child)).state = .unused))
    (by
      simp only [Option.all_eq_true, decide_eq_true_eq]
      exact ⟨fun ⟨stopped, alive, exits, forks⟩ =>
          ⟨stopped, alive, exits, forks⟩,
        fun orderly => ⟨orderly.stopped, orderly.alive, orderly.exits, orderly.forks⟩⟩)

/-- In every run from the start of the kernel whose sections all meet the
condition, every section leaves dead threads dead. -/
theorem dead_threads_stay_dead [DecidableEq Cpu] {kernel after : Kernel Cpu}
    {label : Label Cpu} (reaches : GuardedReaches step Orderly boot kernel)
    (orderly : kernel.Orderly label)
    (stepTo : kernel.step label = some after) :
    StaysDead kernel label after := by
  have coherent := reaches.invariant
    (fun kernel => ∃ status waiters, Coherent kernel status waiters)
    ⟨_, _, boot_coherent⟩ fun before label next coherent orderly stepTo =>
      orderly_coherent coherent orderly stepTo
  obtain ⟨status, waiters, coherent⟩ := coherent
  exact orderly_staysDead coherent orderly stepTo

def createdThread : Slot := (initproc, ⟨1, one_lt_nthread⟩)

def createAndEnd (first second : Fin 2) : List (Label (Fin 2)) :=
  [.scheduler first, .create first, .createFinish first (some 1), .scheduler second,
    .threadExit second]

theorem dead_threads_stay_dead_join : ∃ kernel after : Kernel (Fin 2),
      runLabels step boot (createAndEnd 0 1) = some kernel ∧
      kernel.step (.join 0 3) = some after ∧
      (kernel.thread createdThread).state = .zombie ∧
      (after.thread createdThread).state = .unused ∧
      StaysDead kernel (.join 0 3) after :=
  ⟨_, _, rfl, rfl, by decide, by decide, dead_threads_stay_dead
    (guardedReaches_of_runLabels (createAndEnd 0 1) rfl) (by decide) rfl⟩

def killedThread : Slot := (⟨1, one_lt_nproc⟩, ⟨1, one_lt_nthread⟩)

/-- A child process has a thread that waits for a mutex when its other thread
exits. -/
def exitWhileBlocked (first second third : Fin 3) : List (Label (Fin 3)) :=
  [.scheduler first, .mutexAlloc first, .lockEnter first sharedMutex, .fork first,
    .forkCopy first 1, .forkFinish first, .scheduler second, .create second,
    .createFinish second (some 2), .scheduler third, .lockEnter third sharedMutex,
    .lockBlock third, .exit second, .exitFinish second]

/-- An unlock makes a zombie runnable, because `exit` has left it in the queue
of the mutex. -/
theorem unlock_revives_zombie : ∃ kernel after : Kernel (Fin 3), Reaches step boot kernel ∧
      kernel.step (.unlock 0 sharedMutex) = some after ∧
      (kernel.thread killedThread).state = .zombie ∧
      (after.thread killedThread).state = .runnable :=
  ⟨_, _, guardedReaches_of_runLabels (exitWhileBlocked 0 1 2) rfl, rfl, by decide,
    by decide⟩

end Kernel

end Xv6Kthreads
