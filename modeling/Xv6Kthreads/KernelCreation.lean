import Xv6Kthreads.KernelLifecycle

/-!
# Creating threads and processes

This file follows the sections of `kthread_create` and `fork`.  The slot they
reserve stays an embryo that nobody else touches until they finish or give up,
provided that `fork` takes a process whose main thread is unused.
-/

namespace Xv6Kthreads

namespace Kernel

variable {Cpu : Type*}

section Facts

variable {kernel : Kernel Cpu} {status : Slot → Status Cpu}

theorem View.status_of_unused (view : View kernel status) {slot : Slot}
    (unused : (kernel.thread slot).state = .unused) :
    status slot = .unused := by
  rw [view.state_eq] at unused
  cases current : status slot <;> simp [current, Status.state] at unused
  rfl

theorem View.status_of_zombie (view : View kernel status) {slot : Slot}
    (zombie : (kernel.thread slot).state = .zombie) :
    status slot = .zombie ∨ ∃ cpu, status slot = .lastExit cpu := by
  rw [view.state_eq] at zombie
  cases current : status slot <;> simp [current, Status.state] at zombie
  · exact Or.inr ⟨_, rfl⟩
  · exact Or.inl rfl

section

variable (life : Lifecycle kernel status)
include life

/-- The process of a running thread has no zombie that finishes `exit`. -/
theorem Lifecycle.no_lastExit {actor : Slot} {cpu : Cpu} {place : Location}
    (acting : status actor = .onCpu cpu place) (slot : Slot) (exitCpu : Cpu)
    (exiting : status slot = .lastExit exitCpu) : slot.1 ≠ actor.1 := by
  intro sameProc
  have differs : actor ≠ slot := by
    rintro rfl
    rw [acting] at exiting
    simp at exiting
  have gone := life.lastExit slot exitCpu exiting actor sameProc.symm differs
  rw [acting] at gone
  cases gone

/-- Nobody constructs a slot that is not under construction. -/
theorem Lifecycle.not_target {target : Slot} (unused : status target = .unused) (slot : Slot)
    (construction : Construction) (builds : (status slot).construction = some construction) :
    construction.target ≠ target := by
  rintro rfl
  have embryo := life.embryo slot construction builds
  rw [unused] at embryo
  simp at embryo

theorem Lifecycle.location_none {process : ProcId}
    (notRunnable : (kernel.proc process).state ≠ .runnable) (slot : Slot)
    (inProcess : slot.1 = process) :
    (status slot).location = none := by
  rw [← Option.not_isSome_iff_eq_none]
  intro somewhere
  apply notRunnable
  rw [← inProcess]
  exact life.live slot somewhere

theorem Lifecycle.no_lastExit_of_proc {process : ProcId}
    (notRunnable : (kernel.proc process).state ≠ .runnable) (slot : Slot) (exitCpu : Cpu)
    (exiting : status slot = .lastExit exitCpu) : slot.1 ≠ process := by
  intro inProcess
  have nowhere := life.location_none notRunnable slot inProcess
  simp [exiting, Status.location] at nowhere

end

theorem unusedThread_spec {process : ProcId} {target : Slot}
    (found : kernel.unusedThread process = some target) :
    target.1 = process ∧ (kernel.thread target).state = .unused := by
  obtain ⟨index, isUnused, rfl⟩ := Option.map_eq_some_iff.mp found
  exact ⟨rfl, by simpa using List.find?_some isUnused⟩

theorem unusedProc_spec {child : ProcId} (found : kernel.unusedProc = some child) :
    (kernel.proc child).state = .unused := by
  simpa using List.find?_some found

end Facts

section Builds

variable {kernel after : Kernel Cpu} {status : Slot → Status Cpu} {cpu : Cpu}
variable {slot target : Slot} {child : ProcId}

section

variable (life : Lifecycle kernel status)
include life

theorem build_create (acting : status slot = .onCpu cpu .user) (unused : status target = .unused)
    (sameProc : target.1 = slot.1)
    (procs : ∀ process, (after.proc process).state = (kernel.proc process).state) :
    Build kernel after status cpu slot target .user (.createAllocated target) (.embryo none) where
  acting := acting
  notQueued := by simp
  idle := by
    rw [unused]
    rfl
  offCpu := rfl
  notBuilding := rfl
  alone other construction _ := life.not_target unused other construction
  reserves := by
    rintro _ ⟨⟩
    exact ⟨rfl, rfl⟩
  sibling := by
    rintro _ ⟨⟩
    exact sameProc
  child := by simp [Location.construction]
  live := by simp [Status.location]
  noLastExit := sameProc ▸ life.no_lastExit acting
  procs process := Or.inl (procs process)

theorem build_createFinish (acting : status slot = .onCpu cpu (.createAllocated target))
    (procs : ∀ process, (after.proc process).state = (kernel.proc process).state) (new : Status Cpu)
    (offCpu : new.place = none) (notBuilding : new.construction = none) :
    Build kernel after status cpu slot target (.createAllocated target) .user
      new := by
  have builds : (status slot).construction = some (.thread target) := by
    rw [acting]
    rfl
  have embryo : status target = .embryo none := life.embryo slot _ builds
  have sameProc := life.sibling slot target builds
  refine ⟨acting, by simp, by rw [embryo]; rfl, offCpu, notBuilding, ?_,
    by simp [Location.construction], by simp [Location.construction],
    by simp [Location.construction], ?_, ?_,
    fun process => Or.inl (procs process)⟩
  · intro other construction differs otherBuilds sameTarget
    exact differs (life.unique other slot construction _ otherBuilds builds sameTarget)
  · intro _
    rw [procs, sameProc]
    exact life.live slot (by rw [acting]; rfl)
  · rw [sameProc]
    exact life.no_lastExit acting

theorem build_fork (acting : status slot = .onCpu cpu .user)
    (unusedProc : (kernel.proc child).state = .unused)
    (unused : status (mainThread child) = .unused) (reserved : (after.proc child).state = .embryo)
    (procs : ∀ process, process ≠ child →
      (after.proc process).state = (kernel.proc process).state) :
    Build kernel after status cpu slot (mainThread child) .user
      (.forkAllocated child) (.embryo none) := by
  have notRunnable : (kernel.proc child).state ≠ .runnable := by
    simp [unusedProc]
  refine ⟨acting, by simp, by rw [unused]; rfl, rfl, rfl, ?_, ?_,
    by simp [Location.construction], ?_, by simp [Status.location],
    life.no_lastExit_of_proc notRunnable, ?_⟩
  · exact fun other construction _ => life.not_target unused other construction
  · rintro _ ⟨⟩
    exact ⟨rfl, rfl⟩
  · rintro _ _ ⟨⟩
    exact reserved
  · intro process
    rcases eq_or_ne process child with rfl | isChild
    · refine Or.inr ⟨life.location_none notRunnable, ?_⟩
      intro other copied _ builds
      have embryo := life.child other process copied builds
      simp [unusedProc] at embryo
    · exact Or.inl (procs process isChild)

/-- The later sections of `fork`: they go on from the construction of the child
process and may change its state. -/
theorem build_forkNext {place next : Location} {copied : Bool} (new : Status Cpu)
    (acting : status slot = .onCpu cpu place)
    (builds : place.construction = some (.process child copied)) (offCpu : new.place = none)
    (notBuilding : new.construction = none)
    (nextBuilds : ∀ construction, next.construction = some construction →
      construction = .process child true ∧ new = .embryo (some .user) ∧
        (after.proc child).state = .embryo)
    (live : new.location.isSome → (after.proc child).state = .runnable)
    (procs : ∀ process, process ≠ child →
      (after.proc process).state = (kernel.proc process).state) :
    Build kernel after status cpu slot (mainThread child) place next new := by
  have slotBuilds : (status slot).construction = some (.process child copied) := by
    rw [acting]
    exact builds
  have embryoProc := life.child slot child copied slotBuilds
  have notRunnable : (kernel.proc child).state ≠ .runnable := by
    simp [embryoProc]
  have embryo : status (mainThread child) = _ := life.embryo slot _ slotBuilds
  refine ⟨acting, ?_, by rw [embryo]; rfl, offCpu, notBuilding, ?_, ?_, ?_,
    ?_, live, life.no_lastExit_of_proc notRunnable, ?_⟩
  · rintro index rfl
    simp [Location.construction] at builds
  · intro other construction differs otherBuilds sameTarget
    exact differs (life.unique other slot construction _ otherBuilds slotBuilds sameTarget)
  · intro construction reserved
    obtain ⟨rfl, rfl, -⟩ := nextBuilds construction reserved
    exact ⟨rfl, rfl⟩
  · intro thread reserved
    obtain ⟨impossible, -⟩ := nextBuilds _ reserved
    simp at impossible
  · intro process copy reserved
    obtain ⟨same, -, stillEmbryo⟩ := nextBuilds _ reserved
    simp only [Construction.process.injEq] at same
    rw [same.1]
    exact stillEmbryo
  · intro process
    rcases eq_or_ne process child with rfl | isChild
    · refine Or.inr ⟨life.location_none notRunnable, ?_⟩
      intro other otherCopied differs otherBuilds
      exact differs (life.unique other slot _ _ otherBuilds slotBuilds rfl)
    · exact Or.inl (procs process isChild)

end

end Builds

/-- The reserved thread whose `kstack` the labelled section sets. -/
def kstackTarget (kernel : Kernel Cpu) : Label Cpu → Option Slot
  | .createFinish cpu _ =>
    match kernel.running cpu with
    | some (_, .createAllocated target) => some target
    | _ => none
  | .forkFail cpu =>
    match kernel.running cpu with
    | some (_, .forkAllocated child) => some (mainThread child)
    | _ => none
  | .forkCopy cpu _ =>
    match kernel.running cpu with
    | some (_, .forkAllocated child) => some (mainThread child)
    | _ => none
  | _ => none

/-- The page that `kalloc` returns in the labelled section. -/
def kalloced : Label Cpu → Option Nat
  | .createFinish _ kstack => kstack
  | .forkCopy _ kstack => some kstack
  | _ => none

section Building

variable [DecidableEq Cpu]
variable {kernel after : Kernel Cpu} {status : Slot → Status Cpu}
variable {waiters : MutexId → List QueueEntry} {cpu : Cpu}

section

variable (coherent : Coherent kernel status waiters)

include coherent

theorem create_coherent (result : kernel.create cpu = some after) :
    Stacked after waiters (stackHolders status) := by
  unfold create at result
  split at result
  swap
  · simp at result
  rename_i slot runs
  have acting := coherent.view.onCpu_of_running runs (by simp)
  split at result
  next =>
    simp only [Option.some.injEq] at result
    exact result ▸ coherent.stacked
  next target found =>
    cases result
    obtain ⟨sameProc, isUnused⟩ := unusedThread_spec found
    have unused := coherent.view.status_of_unused isUnused
    refine Stacked.of_update target (.embryo none) (by rw [unused]; rfl) ?_
    exact coherent.build (build_create coherent.life acting unused sameProc
      fun process => rfl) rfl rfl nofun rfl rfl

theorem createFinish_coherent {kstack : Option Nat}
    (result : kernel.createFinish cpu kstack = some after) :
    ∃ slot target, kernel.running cpu = some (slot, .createAllocated target) ∧
      status target = .embryo none ∧
      Stacked after waiters (Function.update (stackHolders status) target kstack.isSome) := by
  unfold createFinish at result
  split at result
  swap
  · simp at result
  rename_i slot target runs
  have acting := coherent.view.onCpu_of_running runs (by simp)
  have embryo : status target = .embryo none :=
    coherent.life.embryo slot (.thread target) (by rw [acting]; rfl)
  refine ⟨slot, target, runs, embryo, ?_⟩
  split at result <;> cases result
  next =>
    refine coherent.build (build_createFinish coherent.life acting
      ?_ .unused rfl rfl) rfl rfl nofun rfl rfl
    exact fun process => rfl
  next page =>
    refine coherent.build (build_createFinish coherent.life acting
      ?_ (.runnable .user) rfl rfl) rfl rfl (fun _ saved => saved) rfl rfl
    exact fun process => rfl

theorem fork_coherent (clean : ∀ child, kernel.unusedProc = some child →
      (kernel.thread (mainThread child)).state = .unused)
    (result : kernel.fork cpu = some after) :
    Stacked after waiters (stackHolders status) := by
  unfold fork at result
  split at result
  swap
  · simp at result
  rename_i slot runs
  have acting := coherent.view.onCpu_of_running runs (by simp)
  split at result
  next =>
    simp only [Option.some.injEq] at result
    exact result ▸ coherent.stacked
  next child found =>
    cases result
    have unused := coherent.view.status_of_unused (clean child found)
    refine Stacked.of_update (mainThread child) (.embryo none) (by rw [unused]; rfl) ?_
    refine coherent.build (build_fork coherent.life acting
      (unusedProc_spec found) unused ?_ ?_) rfl rfl nofun rfl rfl
    · simp [goTo, setThread, setProc]
    · intro process differs
      simp [goTo, setThread, setProc, differs]

theorem forkFail_coherent (result : kernel.forkFail cpu = some after) :
    ∃ slot child, kernel.running cpu = some (slot, .forkAllocated child) ∧
      status (mainThread child) = .embryo none ∧
      Stacked after waiters (Function.update (stackHolders status) (mainThread child) false) := by
  unfold forkFail at result
  split at result
  swap
  · simp at result
  rename_i slot child runs
  have acting := coherent.view.onCpu_of_running runs (by simp)
  have embryo : status (mainThread child) = .embryo none :=
    coherent.life.embryo slot (.process child false) (by rw [acting]; rfl)
  refine ⟨slot, child, runs, embryo, ?_⟩
  cases result
  refine coherent.build (build_forkNext coherent.life .unused acting rfl rfl
    rfl (by simp [Location.construction]) (by simp [Status.location]) ?_)
    rfl rfl nofun rfl rfl
  intro process differs
  simp [goTo, setThread, setProc, differs]

/-- The main thread of the child gets the stack that `kalloc` has returned. -/
theorem forkCopy_coherent {kstack : Nat} (result : kernel.forkCopy cpu kstack = some after) :
    ∃ slot child, kernel.running cpu = some (slot, .forkAllocated child) ∧
      status (mainThread child) = .embryo none ∧
      Stacked after waiters (Function.update (stackHolders status) (mainThread child) true) := by
  unfold forkCopy at result
  split at result
  swap
  · simp at result
  rename_i slot child runs
  have acting := coherent.view.onCpu_of_running runs (by simp)
  have embryo : status (mainThread child) = .embryo none :=
    coherent.life.embryo slot (.process child false) (by rw [acting]; rfl)
  have embryoProc := coherent.life.child slot child false (by rw [acting]; rfl)
  refine ⟨slot, child, runs, embryo, ?_⟩
  cases result
  refine coherent.build (build_forkNext coherent.life
    (.embryo (some .user)) acting rfl rfl rfl ?_ (by simp [Status.location])
    ?_) rfl ?_ (fun _ saved => saved) rfl rfl
  · rintro _ ⟨⟩
    exact ⟨rfl, rfl, by simpa [goTo, setThread, setProc] using embryoProc⟩
  · intro process differs
    simp [goTo, setThread, setProc, differs]
  · simp [coherent.view.state_eq, embryo, Status.state]

theorem forkFinish_coherent (result : kernel.forkFinish cpu = some after) :
    Stacked after waiters (stackHolders status) := by
  unfold forkFinish at result
  split at result
  swap
  · simp at result
  rename_i slot child runs
  have acting := coherent.view.onCpu_of_running runs (by simp)
  have embryo : status (mainThread child) = .embryo (some .user) :=
    coherent.life.embryo slot (.process child true) (by rw [acting]; rfl)
  have context := coherent.view.context_eq (mainThread child) .user (by rw [embryo]; rfl)
  cases result
  refine Stacked.of_update (mainThread child) (.runnable .user) (by rw [embryo]; rfl) ?_
  refine coherent.build (build_forkNext coherent.life (.runnable .user)
    acting rfl rfl rfl (by simp [Location.construction]) ?_ ?_)
    rfl rfl (fun _ saved => context.trans saved) rfl rfl
  · simp [goTo, setState, setThread, setProc]
  · intro process differs
    simp [goTo, setState, setThread, setProc, differs]

end

end Building

end Kernel

end Xv6Kthreads
