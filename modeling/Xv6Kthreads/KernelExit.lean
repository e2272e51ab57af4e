import Xv6Kthreads.KernelCreation

/-!
# Ending and reaping threads

This file follows the sections of `exit`, `kthread_exit`, `kthread_join` and
`wait`.  `exit` turns the siblings of its caller into zombies wherever they
are; here it is followed for callers without a sibling under construction or
in a mutex queue.
-/

namespace Xv6Kthreads

open Function

namespace Kernel

variable {Cpu : Type*}

section Dying

variable {kernel after : Kernel Cpu} {status : Slot → Status Cpu}
variable {waiters : MutexId → List QueueEntry}

theorem wakeup1_coherent (coherent : Coherent kernel status waiters) (chan : Option Chan) :
    Stacked (kernel.wakeup1 chan) waiters (stackHolders status) := by
  have woken : ∃ changed, Effect kernel (kernel.wakeup1 chan) status changed
      waiters waiters True :=
    wakeup1_effect coherent.view coherent.queues chan
  obtain ⟨changed, effect⟩ := woken
  exact coherent.stacked_of_effect effect

theorem wakeup1_state (kernel : Kernel Cpu) (chan : Option Chan) (slot : Slot) :
    ((kernel.wakeup1 chan).thread slot).state = (kernel.thread slot).state ∨
      (kernel.thread slot).state = .sleeping ∧
        ((kernel.wakeup1 chan).thread slot).state = .runnable := by
  simp only [wakeup1]
  split
  next woken => exact Or.inr ⟨woken.1, rfl⟩
  next => exact Or.inl rfl

theorem adopt_state (kernel : Kernel Cpu) (process child : ProcId) :
    (kernel.adopt process child).state = (kernel.proc child).state := by
  unfold adopt
  split <;> rfl

theorem abandonChildren_cases (kernel : Kernel Cpu) (process : ProcId) : ∃ adopted : Kernel Cpu,
      adopted = { kernel.wakeup1 ((kernel.proc process).parent.map .proc) with
        proc := kernel.adopt process } ∧
      (kernel.abandonChildren process = adopted ∨ kernel.abandonChildren process =
          adopted.wakeup1 (some (.proc initproc))) := by
  refine ⟨_, rfl, ?_⟩
  unfold abandonChildren
  split
  · exact Or.inr rfl
  · exact Or.inl rfl

theorem abandonChildren_coherent (coherent : Coherent kernel status waiters) (process : ProcId) :
    Stacked (kernel.abandonChildren process) waiters (stackHolders status) := by
  obtain ⟨adopted, adoptedEq, result⟩ := kernel.abandonChildren_cases process
  obtain ⟨woken, notified, same⟩ :=
    wakeup1_coherent coherent ((kernel.proc process).parent.map .proc)
  have adopting : Coherent adopted woken waiters := by
    rw [adoptedEq]
    exact notified.congr rfl rfl rfl (kernel.adopt_state process)
  rcases result with done | wakes
  · rw [done]
    exact ⟨woken, adopting, same⟩
  · rw [wakes]
    exact (wakeup1_coherent adopting _).congr same

/-- `exit` changes no thread state before it kills the siblings, except that
it wakes sleepers. -/
theorem abandonChildren_state (kernel : Kernel Cpu) (process : ProcId) (slot : Slot) :
    ((kernel.abandonChildren process).thread slot).state = (kernel.thread slot).state ∨
      (kernel.thread slot).state = .sleeping ∧
        ((kernel.abandonChildren process).thread slot).state = .runnable := by
  obtain ⟨adopted, adoptedEq, result⟩ := kernel.abandonChildren_cases process
  have first := kernel.wakeup1_state ((kernel.proc process).parent.map .proc) slot
  have threads : adopted.thread =
      (kernel.wakeup1 ((kernel.proc process).parent.map .proc)).thread := by
    rw [adoptedEq]
  rw [← threads] at first
  rcases result with same | wakes
  · rw [same]
    exact first
  · rw [wakes]
    rcases adopted.wakeup1_state (some (.proc initproc)) slot with
      second | ⟨asleep, second⟩
    · rw [second]
      exact first
    · rw [second]
      rcases first with first | ⟨-, first⟩
      · exact Or.inr ⟨first ▸ asleep, rfl⟩
      · simp [first] at asleep

theorem abandonChildren_eq (kernel : Kernel Cpu) (process : ProcId) :
    ∃ thread, kernel.abandonChildren process =
      { kernel with proc := kernel.adopt process, thread } := by
  unfold abandonChildren
  split <;> exact ⟨_, rfl⟩

variable {slot : Slot}

/-- `exit` kills siblings that are neither under construction nor in a mutex
queue. -/
theorem killSiblings_coherent (coherent : Coherent kernel status waiters)
    (orderly : ∀ sibling, sibling.1 = slot.1 → sibling ≠ slot →
      (kernel.thread sibling).state ≠ .running →
        (kernel.thread sibling).state ≠ .embryo ∧ ¬ kernel.InQueue sibling)
    (noLastExit : ∀ sibling cpu, sibling.1 = slot.1 → sibling ≠ slot →
      status sibling ≠ .lastExit cpu) :
    Stacked (kernel.killSiblings slot) waiters (stackHolders status) := by
  refine ⟨fun other =>
    if other.1 = slot.1 ∧ (kernel.thread other).state ≠ .running ∧
        (kernel.thread other).state ≠ .unused ∧ other ≠ slot then
      .zombie
    else
      status other, coherent.bury ?_ ?_ rfl rfl fun process => rfl, ?_⟩
  · intro other
    by_cases dies : other.1 = slot.1 ∧ (kernel.thread other).state ≠ .running ∧
          (kernel.thread other).state ≠ .unused ∧ other ≠ slot
    · rw [if_pos dies]
      have notRunning := dies.2.1
      obtain ⟨notEmbryo, notQueued⟩ := orderly other dies.1 dies.2.2.2 notRunning
      have notLast := noLastExit other
      rw [coherent.queues.inQueue_iff, not_exists] at notQueued
      rw [coherent.view.state_eq] at notRunning notEmbryo
      refine Or.inr ⟨.zombie, ?_, ?_, ?_, notQueued⟩
      · simp [killSiblings, dies, Status.state]
      · cases current : status other <;>
          simp_all [Status.state, Status.place]
      · rintro prepared isEmbryo
        simp [isEmbryo, Status.state] at notEmbryo
    · rw [if_neg dies]
      exact Or.inl ⟨rfl, by simp only [killSiblings, if_neg dies],
        by simp only [killSiblings, if_neg dies]⟩
  · intro other
    simp only [killSiblings]
    split <;> rfl
  · intro other
    dsimp only
    split
    next dies =>
      have notUnused := dies.2.2.1
      have notEmbryo := (orderly other dies.1 dies.2.2.2 dies.2.1).1
      rw [coherent.view.state_eq] at notUnused notEmbryo
      rw [stackHolders, Status.stacked_of_state notUnused notEmbryo]
      rfl
    next => rfl

variable {process : ProcId}

theorem dead_of_not_procIsAlive (dead : kernel.procIsAlive process = false) (slot : Slot)
    (inProcess : slot.1 = process) : (kernel.thread slot).state.Dead := by
  simp only [procIsAlive, List.any_eq_false, List.mem_finRange, true_implies,
    decide_eq_true_eq, Decidable.not_not] at dead
  rw [← inProcess] at dead
  exact dead slot.2

variable {place : Location}

section

variable (coherent : Coherent kernel status waiters)
include coherent

/-- No sibling of a thread on a processor finishes `exit` as a zombie. -/
theorem Coherent.siblings_notLast {cpu : Cpu} (runs : kernel.running cpu = some (slot, place))
    (sibling : Slot) (exitCpu : Cpu) (sameProc : sibling.1 = slot.1) (differs : sibling ≠ slot) :
    status sibling ≠ .lastExit exitCpu := by
  intro exiting
  have gone := coherent.life.lastExit sibling exitCpu exiting slot sameProc.symm (Ne.symm differs)
  rcases coherent.view.status_of_running runs with onCpu | ⟨lastExit, -⟩
  · rw [onCpu] at gone
    cases gone
  · rw [lastExit] at gone
    cases gone

/-- The state of a process without live threads and outside construction
changes. -/
theorem Coherent.setProcState (process : ProcId) (notEmbryo : (kernel.proc process).state ≠ .embryo)
    (nowhere : ∀ slot, slot.1 = process → (status slot).location = none)
    (threads : after.thread = kernel.thread) (mutexes : after.mutex = kernel.mutex)
    (running : after.running = kernel.running)
    (procs : ∀ other, other ≠ process → (after.proc other).state = (kernel.proc other).state) :
    Coherent after status waiters := by
  refine ⟨?_, ?_, ?_⟩
  · exact coherent.view.congr (by simp [threads]) (by simp [threads]) running
  · exact coherent.queues.untouched mutexes fun slot index _ =>
      ⟨rfl, by rw [threads]⟩
  · apply coherent.life.setProcState procs nowhere
    intro slot copied builds
    exact notEmbryo (coherent.life.child slot process copied builds)

theorem endProcess_coherent {cpu : Cpu} (runs : kernel.running cpu = some (slot, place))
    (orderly : ∀ sibling, sibling.1 = slot.1 → sibling ≠ slot →
      (kernel.thread sibling).state ≠ .running →
        (kernel.thread sibling).state ≠ .embryo ∧ ¬ kernel.InQueue sibling) :
    Stacked (kernel.endProcess slot) waiters (stackHolders status) := by
  obtain ⟨woken, left, same⟩ := abandonChildren_coherent coherent slot.1
  obtain ⟨thread, isLeft⟩ := kernel.abandonChildren_eq slot.1
  have leftRuns : (kernel.abandonChildren slot.1).running cpu = some (slot, place) := by
    rw [isLeft]
    exact runs
  have marked : Coherent ((kernel.abandonChildren slot.1).setKilled slot.1)
      woken waiters :=
    left.congr rfl rfl rfl ((kernel.abandonChildren slot.1).setKilled_proc_state slot.1)
  refine (killSiblings_coherent marked ?_ ?_).congr same
  · intro sibling sameProc differs notRunning
    have inQueue : (kernel.abandonChildren slot.1).InQueue sibling ↔
        kernel.InQueue sibling := by
      simp [InQueue, isLeft]
    change (kernel.abandonChildren slot.1 |>.thread sibling).state ≠ _ ∧
      ¬ (kernel.abandonChildren slot.1).InQueue sibling
    rw [inQueue]
    rcases kernel.abandonChildren_state slot.1 sibling with same | woken
    · simp only [setKilled_thread, same] at notRunning
      rw [same]
      exact orderly sibling sameProc differs notRunning
    · refine ⟨by simp [woken.2], ?_⟩
      exact (orderly sibling sameProc differs (by simp [woken.1])).2
  · exact left.siblings_notLast leftRuns

end

theorem endProcess_running (kernel : Kernel Cpu) (slot : Slot) :
    (kernel.endProcess slot).running = kernel.running := by
  obtain ⟨thread, isLeft⟩ := kernel.abandonChildren_eq slot.1
  rw [endProcess, isLeft]
  rfl

theorem killSiblings_dead (kernel : Kernel Cpu) (slot other : Slot)
    (dead : (kernel.thread other).state.Dead) :
    ((kernel.killSiblings slot).thread other).state = (kernel.thread other).state := by
  simp only [killSiblings]
  split
  next dies =>
    rcases dead with zombie | unused
    · exact zombie.symm
    · exact absurd unused dies.2.2.1
  next => rfl

/-- A dead thread stays as it is in `exit`, up to the death of the caller. -/
theorem endProcess_dead (kernel : Kernel Cpu) (slot other : Slot)
    (dead : (kernel.thread other).state.Dead) :
    ((kernel.endProcess slot).thread other).state = (kernel.thread other).state := by
  have same : ((kernel.abandonChildren slot.1).thread other).state =
      (kernel.thread other).state := by
    rcases kernel.abandonChildren_state slot.1 other with same | woken
    · exact same
    · simp [RunState.Dead, woken.1] at dead
  rw [← same] at dead ⊢
  exact killSiblings_dead _ slot other dead

/-- The thread that one pass of `kthread_join`'s loop reaps. -/
def joinReaps (kernel : Kernel Cpu) (process : ProcId) (id : Int) : List Slot :=
  (kernel.joinable process id).toList

/-- The threads that one pass of `wait`'s loop reaps, in the order of the
source. -/
def waitReaps (kernel : Kernel Cpu) (process : ProcId) : List Slot :=
  match kernel.zombieChild process with
  | none => []
  | some _ =>
    ((List.finRange NTHREAD).map fun index => (process, index)).filter
      fun slot => (kernel.thread slot).state == .zombie

def reapedBy (kernel : Kernel Cpu) : Label Cpu → List Slot
  | .join cpu id =>
    match kernel.running cpu with
    | some (slot, .user) => kernel.joinReaps slot.1 id
    | _ => []
  | .joinRescan cpu =>
    match kernel.running cpu with
    | some (slot, .joining id) => kernel.joinReaps slot.1 id
    | _ => []
  | .wait cpu =>
    match kernel.running cpu with
    | some (slot, .user) => kernel.waitReaps slot.1
    | _ => []
  | .waitRescan cpu =>
    match kernel.running cpu with
    | some (slot, .waiting) => kernel.waitReaps slot.1
    | _ => []
  | _ => []

theorem mem_waitReaps {child : ProcId}
    (found : kernel.zombieChild process = some child) (slot : Slot) :
    slot ∈ kernel.waitReaps process ↔ slot.1 = process ∧ (kernel.thread slot).state = .zombie := by
  obtain ⟨owner, index⟩ := slot
  simp only [waitReaps, found, List.mem_filter, List.mem_map,
    List.mem_finRange, true_and, beq_iff_eq, Prod.mk.injEq]
  constructor
  · rintro ⟨⟨_, rfl, rfl⟩, zombie⟩
    exact ⟨rfl, zombie⟩
  · rintro ⟨rfl, zombie⟩
    exact ⟨⟨index, rfl, rfl⟩, zombie⟩

def holdersWithout (status : Slot → Status Cpu) (reaped : List Slot) (slot : Slot) : Bool :=
  stackHolders status slot && decide (slot ∉ reaped)

theorem holdersWithout_nil (status : Slot → Status Cpu) :
    holdersWithout status [] = stackHolders status := by
  funext slot
  simp [holdersWithout]

def released (status : Slot → Status Cpu) (reaped : Slot → Prop)
    [DecidablePred reaped] (slot : Slot) : Status Cpu :=
  if reaped slot then .unused else status slot

theorem released_stacked {reaped : Slot → Prop} [DecidablePred reaped] {slots : List Slot}
    (same : ∀ slot, slot ∈ slots ↔ reaped slot) (slot : Slot) :
    (released status reaped slot).stacked =
      holdersWithout status slots slot := by
  unfold released holdersWithout
  by_cases isReaped : reaped slot
  · simp [isReaped, (same slot).mpr isReaped, Status.stacked]
  · simp [isReaped, (same slot).not.mpr isReaped, stackHolders]

/-- Zombies of the process of a running thread are released. -/
theorem reap_coherent (coherent : Coherent kernel status waiters) {cpu : Cpu}
    (acting : status slot = .onCpu cpu place) (reaped : Slot → Prop)
    [DecidablePred reaped] (zombies : ∀ other, reaped other →
      other.1 = slot.1 ∧ (kernel.thread other).state = .zombie)
    (threads : after.thread = fun other =>
      if reaped other then reapThread (kernel.thread other)
      else kernel.thread other) (mutexes : after.mutex = kernel.mutex)
    (running : after.running = kernel.running) (procs : ∀ process,
      (after.proc process).state = (kernel.proc process).state) :
    Coherent after (released status reaped) waiters := by
  refine coherent.bury ?_ ?_ mutexes running procs
  · intro other
    by_cases isReaped : reaped other
    · obtain ⟨sameProc, isZombie⟩ := zombies other isReaped
      have zombie : status other = .zombie := by
        rcases coherent.view.status_of_zombie isZombie with
          zombie | ⟨exitCpu, last⟩
        · exact zombie
        · exact absurd sameProc (coherent.life.no_lastExit acting other exitCpu last)
      rw [released, if_pos isReaped, threads, zombie]
      refine Or.inr ⟨.unused, by simp [isReaped, reapThread, Status.state], rfl, by simp, ?_⟩
      intro index
      apply coherent.queues.not_listed index
      rw [zombie]
      rintro ⟨⟩
    · rw [released, if_neg isReaped, threads]
      exact Or.inl ⟨rfl, by simp [isReaped], by simp [isReaped]⟩
  · intro other
    rw [threads]
    dsimp only
    split <;> rfl

theorem joinable_spec {id : Int} {target : Slot}
    (found : kernel.joinable process id = some target) :
    target.1 = process ∧ (kernel.thread target).state = .zombie := by
  obtain ⟨index, isJoinable, rfl⟩ := Option.map_eq_some_iff.mp found
  have zombie := List.find?_some isJoinable
  simp only [Bool.and_eq_true, beq_iff_eq] at zombie
  exact ⟨rfl, zombie.2⟩

theorem zombieChild_spec {child : ProcId} (found : kernel.zombieChild process = some child) :
    (kernel.proc child).state = .zombie := by
  have zombie := List.find?_some found
  simp only [Bool.and_eq_true, beq_iff_eq] at zombie
  exact zombie.2

variable [DecidableEq Cpu] {cpu : Cpu}

section

variable (coherent : Coherent kernel status waiters)

include coherent

theorem exitFinish_coherent (orderly : ∀ slot, kernel.running cpu = some (slot, .exiting) →
      ∀ sibling, sibling.1 = slot.1 → sibling ≠ slot → (kernel.thread sibling).state ≠ .running →
          (kernel.thread sibling).state ≠ .embryo ∧ ¬ kernel.InQueue sibling)
    (result : kernel.exitFinish cpu = some after) :
    Stacked after waiters (stackHolders status) := by
  unfold exitFinish at result
  split at result
  swap
  · simp at result
  rename_i slot runs
  simp only [Option.some.injEq] at result
  obtain ⟨changed, ended, same⟩ := endProcess_coherent coherent runs (orderly slot runs)
  have endedRuns : (kernel.endProcess slot).running cpu = some (slot, .exiting) := by
    rw [endProcess_running]
    exact runs
  have runnable : ((kernel.endProcess slot).proc slot.1).state =
      .runnable := by
    apply ended.life.live slot
    rcases ended.view.status_of_running endedRuns with onCpu | ⟨last, -⟩
    · rw [onCpu]
      rfl
    · rw [last]
      rfl
  have died : Coherent (((kernel.endProcess slot).setState slot .zombie).sched cpu slot .zombieExit)
      (update changed slot .zombie) waiters := by
    apply ended.die endedRuns (by simp)
    · intro other differs
      simp [sched, setState, setThread, differs]
    · simp [sched, setState, setThread]
    · rfl
    · rfl
    · exact fun process => rfl
  have holders : ∀ other, (update changed slot .zombie other).stacked =
        stackHolders status other := by
    intro other
    rw [stacked_update (ended.view.stacked_of_running endedRuns) rfl]
    exact same other
  subst result
  refine ⟨update changed slot .zombie, ?_, holders⟩
  split
  · exact died
  next notAlive =>
    refine died.setProcState slot.1 ?_ ?_ ?_ ?_ ?_ ?_
    · change ((kernel.endProcess slot).proc slot.1).state ≠ .embryo
      simp [runnable]
    · intro other inProcess
      rcases eq_or_ne other slot with rfl | same
      · rw [update_self]
        rfl
      · have dead := dead_of_not_procIsAlive (by simpa using notAlive) other inProcess
        have notLast := ended.siblings_notLast endedRuns other
        simp only [setState, setThread, update_of_ne same, RunState.Dead] at dead
        rw [ended.view.state_eq] at dead
        cases current : changed other <;>
          simp_all [Status.state, Status.location]
    · rfl
    · rfl
    · rfl
    · intro process differs
      simp [sched, setThread, setProc, setState, differs]

theorem threadExit_coherent (result : kernel.threadExit cpu = some after) :
    Stacked after waiters (stackHolders status) := by
  unfold threadExit at result
  split at result
  swap
  · simp at result
  rename_i slot runs
  have acting := coherent.view.onCpu_of_running runs (by simp)
  dsimp only at result
  split at result
  next =>
    cases result
    obtain ⟨woken, notified, same⟩ := wakeup1_coherent coherent (some (.thread slot))
    have wokenRuns : (kernel.wakeup1 (some (.thread slot))).running cpu = some (slot, .user) := runs
    refine ⟨_, notified.die runs (by simp) ?_ ?_ rfl rfl
      fun process => rfl, fun other => (stacked_update
        (notified.view.stacked_of_running wokenRuns) rfl other).trans (same other)⟩
    · intro other differs
      simp [sched, setState, setThread, wakeup1, differs]
    · simp [sched, setState, setThread, wakeup1]
  next notAlive =>
    split at result <;> cases result
    have siblings : ∀ other, other.1 = slot.1 → other ≠ slot → (status other).Gone := by
      intro other sameProc differs
      have dead := dead_of_not_procIsAlive (by simpa using notAlive) other sameProc
      have notLast := coherent.siblings_notLast runs other
      simp only [setState, setThread, update_of_ne differs, RunState.Dead] at dead
      rw [coherent.view.state_eq] at dead
      cases current : status other <;>
        simp_all [Status.state]
      · exact .zombie
      · exact .unused
    refine ⟨update status slot (.lastExit cpu), ⟨?_, ?_,
      coherent.life.exitLast acting siblings fun process => rfl⟩,
      stacked_update (coherent.view.stacked_of_running runs) rfl⟩
    · apply coherent.view.stay runs rfl rfl
      · intro other differs
        simp [goTo, setState, setThread, differs]
      · simp [goTo, setState, setThread, Status.state]
      · rfl
    · refine coherent.queues.untouched rfl ?_
      intro other index listed
      have differs : other ≠ slot := by
        rintro rfl
        refine coherent.queues.not_listed index ?_ listed
        rw [acting]
        rintro ⟨⟩
      exact ⟨update_of_ne differs _ _, by simp⟩

section

variable (acting : status slot = .onCpu cpu place) (plain : place.Plain)
include acting plain

/-- A section after which its thread goes on at another plain place. -/
theorem goTo_coherent {target : Location} (targetPlain : target.Plain) :
    Stacked (kernel.goTo cpu slot target) waiters (stackHolders status) := by
  have effect : Effect kernel (kernel.goTo cpu slot target) status _ waiters
      waiters True :=
    goTo_effect coherent.view coherent.queues acting plain targetPlain
  exact coherent.stacked_of_effect effect

theorem fallAsleep_coherent (chan : Chan) (call : SleepCall) :
    Stacked (kernel.fallAsleep cpu slot chan call) waiters (stackHolders status) := by
  have effect : Effect kernel (kernel.fallAsleep cpu slot chan call) status _
      waiters waiters True :=
    fallAsleep_effect coherent.view coherent.queues acting plain chan call
  exact coherent.stacked_of_effect effect

theorem joinSection_coherent (id : Int) : Stacked (kernel.joinSection cpu slot id) waiters
      (holdersWithout status (kernel.joinReaps slot.1 id)) := by
  unfold joinSection joinReaps
  split
  next target found =>
    obtain ⟨sameProc, zombie⟩ := joinable_spec found
    have notTarget : slot ≠ target := by
      rintro rfl
      simp [coherent.view.state_eq, acting, Status.state] at zombie
    have reaped : Coherent (kernel.setThread target (reapThread (kernel.thread target)))
        (released status fun other => other = target) waiters := by
      refine reap_coherent coherent acting (fun other => other = target) ?_ ?_
        rfl rfl fun process => rfl
      · rintro other rfl
        exact ⟨sameProc, zombie⟩
      · funext other
        rcases eq_or_ne other target with rfl | same
        · simp [setThread]
        · simp [setThread, same]
    refine Stacked.congr (goTo_coherent reaped ?_ plain trivial)
      (released_stacked (by simp [found, eq_comm]))
    rw [released, if_neg notTarget]
    exact acting
  next notFound =>
    rw [notFound]
    simp only [Option.toList_none, holdersWithout_nil]
    split
    next => exact goTo_coherent coherent acting plain trivial
    next =>
      split
      · exact goTo_coherent coherent acting plain trivial
      · exact fallAsleep_coherent coherent acting plain _ _

theorem waitSection_coherent : Stacked (kernel.waitSection cpu slot) waiters
      (holdersWithout status (kernel.waitReaps slot.1)) := by
  unfold waitSection
  split
  next child found =>
    have zombie := zombieChild_spec found
    have notReaped : ¬ (slot.1 = slot.1 ∧ (kernel.thread slot).state = .zombie) := by
      simp [coherent.view.state_eq, acting, Status.state]
    have reaped : Coherent (kernel.reapZombies slot.1)
        (released status fun other => other.1 = slot.1 ∧
          (kernel.thread other).state = .zombie) waiters :=
      reap_coherent coherent acting (fun other => other.1 = slot.1 ∧
        (kernel.thread other).state = .zombie) (fun other both => both) rfl rfl
        rfl fun process => rfl
    have childReleased : Coherent ((kernel.reapZombies slot.1).setProc child
        { kernel.proc child with
          state := .unused
          pid := 0
          parent := none
          killed := false })
        (released status fun other => other.1 = slot.1 ∧
          (kernel.thread other).state = .zombie) waiters := by
      refine reaped.setProcState child ?_ ?_ ?_ ?_ ?_ ?_
      · change (kernel.proc child).state ≠ .embryo
        simp [zombie]
      · apply reaped.life.location_none
        change (kernel.proc child).state ≠ .runnable
        simp [zombie]
      · rfl
      · rfl
      · rfl
      · intro process differs
        simp [setProc, reapZombies, differs]
    refine Stacked.congr (goTo_coherent childReleased ?_ plain trivial)
      (released_stacked (mem_waitReaps found))
    rw [released, if_neg notReaped]
    exact acting
  next notFound =>
    have noneReaped : kernel.waitReaps slot.1 = [] := by
      simp [waitReaps, notFound]
    rw [noneReaped, holdersWithout_nil]
    split
    · exact fallAsleep_coherent coherent acting plain _ _
    · exact goTo_coherent coherent acting plain trivial

end

end

end Dying

end Kernel

end Xv6Kthreads
