import Mathlib.Data.Fintype.Prod
import Xv6Kthreads.KernelStacks
import Xv6Kthreads.OwnedPool

/-!
# Kernel stacks and reaping

Every thread runs on a page that `kalloc` gave out as its kernel stack, and
`kthread_join` and `wait` give the stacks of the threads they reap back to
`kfree`.  This file adds the free list of pages and the page tables to the
kernel.  `wait` releases the zombie threads of its caller, not those of the
child it reaps, so it never leaves the child's threads unused; the pages stay
accounted for as long as no process slot with such left-over threads is taken
again.
-/

namespace Xv6Kthreads

open OwnedPool LabelledRun Kernel

/-- Who has a page: a thread, as its kernel stack, or kernel code that is not
embedded. -/
inductive PageUser where
  | stack (slot : Slot)
  | other (user : Nat)
  deriving DecidableEq, Repr

namespace Kernel

variable {Cpu : Type*} (kernel : Kernel Cpu)

/-- The pointers that `kthread_join` and `wait` pass to `kfree`. -/
def pagePointer : PageUser → Option Nat
  | .stack slot => (kernel.thread slot).kstack
  | .other _ => none

/-- The processor and the thread that are in the loop of `wait`. -/
def waiter : Label Cpu → Option (Cpu × Slot)
  | .wait cpu =>
    match kernel.running cpu with
    | some (slot, .user) => some (cpu, slot)
    | _ => none
  | .waitRescan cpu =>
    match kernel.running cpu with
    | some (slot, .waiting) => some (cpu, slot)
    | _ => none
  | _ => none

/-- What one pass of `wait`'s loop returns; `none` if it sleeps. -/
def waitReturns (process : ProcId) : Option Int :=
  match kernel.zombieChild process with
  | some child => some (kernel.proc child).pid
  | none =>
    if kernel.haveKids process && !(kernel.proc process).killed then none
    else some (-1)

theorem reapedBy_nodup (label : Label Cpu) : (kernel.reapedBy label).Nodup := by
  have joins : ∀ process id, (kernel.joinReaps process id).Nodup := by
    intro process id
    unfold joinReaps
    cases kernel.joinable process id <;> simp
  have waits : ∀ process, (kernel.waitReaps process).Nodup := by
    intro process
    unfold waitReaps
    split
    · exact List.nodup_nil
    · apply List.Nodup.filter
      apply (List.nodup_finRange NTHREAD).map
      intro first second same
      exact (Prod.mk.inj same).2
  unfold reapedBy
  split <;> try split
  all_goals first
    | exact joins _ _
    | exact waits _
    | exact List.nodup_nil

/-- A section reaps zombie threads of the process that runs it. -/
theorem reapedBy_spec {label : Label Cpu} {slot : Slot} (isReaped : slot ∈ kernel.reapedBy label) :
    (kernel.thread slot).state = .zombie ∧
      ∃ cpu actor location, kernel.running cpu = some (actor, location) ∧ slot.1 = actor.1 := by
  have joins : ∀ process id, slot ∈ kernel.joinReaps process id →
      (kernel.thread slot).state = .zombie ∧ slot.1 = process := by
    intro process id listed
    exact (joinable_spec (Option.mem_toList.mp listed)).symm
  have waits : ∀ process, slot ∈ kernel.waitReaps process →
      (kernel.thread slot).state = .zombie ∧ slot.1 = process := by
    intro process listed
    cases found : kernel.zombieChild process with
    | none => simp [waitReaps, found] at listed
    | some child => exact ((mem_waitReaps found slot).mp listed).symm
  unfold reapedBy at isReaped
  split at isReaped <;> try split at isReaped
  all_goals first
    | (cases isReaped)
    | exact (joins _ _ isReaped).imp_right fun same => ⟨_, _, _, ‹_›, same⟩
    | exact (waits _ isReaped).imp_right fun same => ⟨_, _, _, ‹_›, same⟩

theorem reapedBy_of_target {label : Label Cpu}
    {target : Slot} (isTarget : kernel.kstackTarget label = some target) :
    kernel.reapedBy label = [] := by
  cases label with
  | createFinish | forkFail | forkCopy => rfl
  | _ => simp [kstackTarget] at isTarget

def copiedTo : Label Cpu → Option ProcId
  | .forkCopy cpu _ =>
    match kernel.running cpu with
    | some (_, .forkAllocated child) => some child
    | _ => none
  | _ => none

/-- The sections of `wait` meet the condition. -/
theorem orderly_of_waiter {label : Label Cpu} {caller : Cpu × Slot}
    (waits : kernel.waiter label = some caller) : kernel.Orderly label := by
  cases label with
  | wait | waitRescan => exact ⟨nofun, nofun, nofun, nofun⟩
  | _ => cases waits

/-- The process whose page table the labelled section passes to `freevm`. -/
def freedTable (label : Label Cpu) : Option ProcId :=
  (kernel.waiter label).bind fun waiter => kernel.zombieChild waiter.2.1

end Kernel

/-- The kernel with its pages: the free list of `kalloc`, the owners of the
other pages, the page tables, and what `wait` returned last. -/
structure PagedKernel (Cpu : Type*) where
  kernel : Kernel Cpu
  pages : Pool PageUser Nat
  pageTable : ProcId → Bool
  returned : Cpu → Option Int

namespace PagedKernel

/-- A section of the kernel, or a page taken or given back by kernel code that
is not embedded. -/
inductive Label (Cpu : Type*) where
  | kernel (label : Kernel.Label Cpu)
  | take (user : Nat)
  | give (user : Nat)

variable {Cpu : Type*}

def tablesAfter (state : PagedKernel Cpu) (label : Kernel.Label Cpu) (process : ProcId) : Bool :=
  if state.kernel.copiedTo label = some process then true
  else if state.kernel.freedTable label = some process then false
  else state.pageTable process

/-- What the calls of `wait` have returned after a section. -/
def returnedAfter [DecidableEq Cpu] (state : PagedKernel Cpu)
    (label : Kernel.Label Cpu) (cpu : Cpu) : Option Int :=
  match state.kernel.waiter label with
  | some (caller, slot) =>
    if caller = cpu then state.kernel.waitReturns slot.1
    else state.returned cpu
  | none => state.returned cpu

/-- The pages after a section: a stack for the thread under construction, or the
reaped threads' stacks go to `kfree`. -/
def pagesAfter (state : PagedKernel Cpu) (label : Kernel.Label Cpu) : Pool PageUser Nat :=
  match state.kernel.kstackTarget label with
  | some target =>
    match kalloced label with
    | some _ => state.pages.grant (.stack target)
    | none => state.pages
  | none =>
    state.pages.releaseAll state.kernel.pagePointer ((state.kernel.reapedBy label).map .stack)

/-- `kalloc` returns the first free page; it fails only if there is none. -/
def KallocAllows (state : PagedKernel Cpu) : Kernel.Label Cpu → Prop
  | .createFinish _ kstack => kstack = state.pages.free.head?
  | .forkCopy _ kstack => some kstack = state.pages.free.head?
  | _ => True

instance (state : PagedKernel Cpu) (label : Kernel.Label Cpu) :
    Decidable (state.KallocAllows label) := by
  induction label using Kernel.Label.casesOn <;>
    first | exact isTrue trivial | exact inferInstanceAs (Decidable (_ = _))

def step [DecidableEq Cpu] (state : PagedKernel Cpu) : Label Cpu → Option (PagedKernel Cpu)
  | .kernel label =>
    if state.KallocAllows label then
      (state.kernel.step label).map fun after =>
        { kernel := after
          pages := state.pagesAfter label
          pageTable := state.tablesAfter label
          returned := state.returnedAfter label }
    else
      none
  | .take user =>
    match state.pages.held (.other user) with
    | some _ => none
    | none => some { state with pages := state.pages.grant (.other user) }
  | .give user =>
    some { state with
      pages := state.pages.release (.other user) (state.pages.held (.other user)) }

/-- The kernel after `userinit`: the first thread has a stack and its process
a page table, and the given pages are free. -/
def boot (free : List Nat) : PagedKernel Cpu where
  kernel := Kernel.boot
  pages :=
    { free := free
      held := fun user =>
        if user = .stack (mainThread initproc) then some 0 else none }
  pageTable process := decide (process = initproc)
  returned _ := none

/-- The kernel stacks in use are those of the threads in use, except while one
is under construction. -/
structure Accounted (items : Nat → Prop) (state : PagedKernel Cpu) : Prop where
  sound : state.pages.Sound items
  stack : ∀ slot page, state.pages.held (.stack slot) = some page →
    (state.kernel.thread slot).kstack = some page ∧ (state.kernel.thread slot).state ≠ .unused
  stacked : ∀ slot, (state.kernel.thread slot).state ≠ .unused →
    (state.kernel.thread slot).state ≠ .embryo → ∃ page, state.pages.held (.stack slot) = some page

/-- A zombie process has a thread with a kernel stack. -/
def Remains (state : PagedKernel Cpu) : Prop :=
  ∀ process, (state.kernel.proc process).state = .zombie →
    ∃ index page, state.pages.held (.stack (process, index)) = some page

structure Tied (items : Nat → Prop) (state : PagedKernel Cpu) (status : Slot → Kernel.Status Cpu)
    (waiters : MutexId → List QueueEntry) : Prop where
  coherent : state.kernel.Coherent status waiters
  sound : state.pages.Sound items
  holds : ∀ slot, (status slot).stacked = (state.pages.held (.stack slot)).isSome
  kstack : ∀ slot page, state.pages.held (.stack slot) = some page →
    (state.kernel.thread slot).kstack = some page

section Steps

variable {items : Nat → Prop} {state after : PagedKernel Cpu}
variable {status : Slot → Kernel.Status Cpu}
variable {waiters : MutexId → List QueueEntry} {label : Kernel.Label Cpu}

theorem Tied.accounted (tied : Tied items state status waiters) : Accounted items state where
  sound := tied.sound
  stack slot page held := by
    refine ⟨tied.kstack slot page held, ?_⟩
    intro unused
    have stacked := tied.holds slot
    rw [tied.coherent.view.status_of_unused unused, held] at stacked
    simp [Kernel.Status.stacked] at stacked
  stacked slot notUnused notEmbryo := by
    rw [tied.coherent.view.state_eq] at notUnused notEmbryo
    have stacked := tied.holds slot
    rw [Kernel.Status.stacked_of_state notUnused notEmbryo] at stacked
    exact Option.isSome_iff_exists.mp stacked.symm

/-- A thread with a stack has a pointer to the page it holds. -/
theorem Tied.pointer_eq (tied : Tied items state status waiters) {slot : Slot}
    (stacked : (status slot).stacked = true) :
    state.kernel.pagePointer (.stack slot) = state.pages.held (.stack slot) := by
  rw [tied.holds, Option.isSome_iff_exists] at stacked
  obtain ⟨page, held⟩ := stacked
  rw [held]
  exact tied.kstack slot page held

/-- The process of a thread on a processor is no zombie. -/
theorem Tied.live_of_running (tied : Tied items state status waiters) {cpu : Cpu} {slot : Slot}
    {location : Location} (runs : state.kernel.running cpu = some (slot, location)) :
    (state.kernel.proc slot.1).state = .runnable := by
  apply tied.coherent.life.live
  rcases tied.coherent.view.status_of_running runs with onCpu | ⟨last, -⟩
  · rw [onCpu]
    rfl
  · rw [last]
    rfl

theorem KallocAllows.head_eq (allows : state.KallocAllows label) {page : Nat}
    (returned : kalloced label = some page) :
    state.pages.free.head? = some page := by
  cases label with
  | createFinish cpu kstack => exact allows.symm.trans returned
  | forkCopy cpu kstack => exact allows.symm.trans returned
  | _ => simp [kalloced] at returned

theorem pagesAfter_held (allows : state.KallocAllows label)
    (reserved : ∀ target, state.kernel.kstackTarget label = some target →
      state.pages.held (.stack target) = none) (slot : Slot) :
    (state.pagesAfter label).held (.stack slot) =
      if state.kernel.kstackTarget label = some slot then
        kalloced label
      else if slot ∈ state.kernel.reapedBy label then
        none
      else
        state.pages.held (.stack slot) := by
  unfold pagesAfter
  split
  next target isTarget =>
    rw [isTarget, state.kernel.reapedBy_of_target isTarget]
    rcases eq_or_ne slot target with rfl | same
    · split
      next page returned => simp [Pool.grant, returned, allows.head_eq returned]
      next failed => simp [failed, reserved slot isTarget]
    · have differs : ¬ some target = some slot := by
        rintro ⟨⟩
        exact same rfl
      rw [if_neg differs]
      split
      · simp [Pool.grant, same]
      · simp
  next noTarget =>
    rw [Pool.releaseAll_held, noTarget]
    simp

theorem Tied.pagesAfter_sound (tied : Tied items state status waiters)
    (reserved : ∀ target, state.kernel.kstackTarget label = some target →
      state.pages.held (.stack target) = none) :
    (state.pagesAfter label).Sound items := by
  unfold pagesAfter
  split
  next target isTarget =>
    split
    next => exact tied.sound.grant (reserved target isTarget)
    next => exact tied.sound
  next =>
    apply tied.sound.releaseAll
    · apply (state.kernel.reapedBy_nodup label).map
      intro first second same
      cases same
      rfl
    · intro user listed
      obtain ⟨slot, isReaped, rfl⟩ := List.mem_map.mp listed
      apply tied.pointer_eq
      apply Kernel.Status.stacked_of_state
      · rw [← tied.coherent.view.state_eq, (state.kernel.reapedBy_spec isReaped).1]
        simp
      · rw [← tied.coherent.view.state_eq, (state.kernel.reapedBy_spec isReaped).1]
        simp

section Kernel

variable [DecidableEq Cpu] (tied : Tied items state status waiters)
variable (orderly : state.kernel.Orderly label) {kernel : Kernel Cpu}
variable (stepTo : state.kernel.step label = some kernel)

include tied orderly stepTo

/-- The thread that gets a stack has none. -/
theorem Tied.reserved (target : Slot) (isTarget : state.kernel.kstackTarget label = some target) :
    state.pages.held (.stack target) = none := by
  have noStack := tied.holds target
  rw [(orderly_stacked tied.coherent orderly stepTo).2 target isTarget] at noStack
  simpa [Kernel.Status.stacked] using noStack

variable (allows : state.KallocAllows label)

include allows

theorem Tied.step_kernel :
    ∃ changed updated, Tied items
      { kernel := kernel
        pages := state.pagesAfter label
        pageTable := state.tablesAfter label
        returned := state.returnedAfter label } changed updated := by
  obtain ⟨⟨updated, changed, coherent, holders⟩, -⟩ :=
    orderly_stacked tied.coherent orderly stepTo
  have reserved := tied.reserved orderly stepTo
  have held := pagesAfter_held allows reserved
  refine ⟨changed, updated, coherent, tied.pagesAfter_sound reserved, ?_, ?_⟩
  · intro slot
    rw [holders, held, holdersAfter]
    cases isTarget : state.kernel.kstackTarget label with
    | some target =>
      rw [state.kernel.reapedBy_of_target isTarget]
      rcases eq_or_ne slot target with rfl | same
      · simp
      · have differs : target ≠ slot := fun equal => same equal.symm
        simp [Function.update_of_ne same, differs, stackHolders, tied.holds]
    | none =>
      by_cases isReaped : slot ∈ state.kernel.reapedBy label
      · simp [holdersWithout, isReaped]
      · simp [holdersWithout, isReaped, stackHolders, tied.holds]
  · intro slot page holds
    rw [held] at holds
    split at holds
    next isTarget =>
      rw [← holds]
      exact kstack_of_target isTarget stepTo
    next notTarget =>
      split at holds
      next => simp at holds
      next =>
        rw [kstack_of_step stepTo notTarget]
        exact tied.kstack slot page holds

/-- The stack of a thread of a process that does not run stays where it is. -/
theorem Tied.held_of_zombie {slot : Slot} {page : Nat}
    (zombie : (state.kernel.proc slot.1).state = .zombie)
    (held : state.pages.held (.stack slot) = some page) :
    (state.pagesAfter label).held (.stack slot) = some page := by
  have reserved := tied.reserved orderly stepTo
  rw [pagesAfter_held allows reserved, if_neg, if_neg, held]
  · intro isReaped
    obtain ⟨-, cpu, actor, location, runs, same⟩ := state.kernel.reapedBy_spec isReaped
    have live := tied.live_of_running runs
    rw [← same, zombie] at live
    cases live
  · intro isTarget
    rw [reserved slot isTarget] at held
    cases held

/-- After a section a zombie process still has a thread with a kernel stack. -/
theorem Tied.remains_kernel (remains : state.Remains) {process : ProcId}
    (zombie : (kernel.proc process).state = .zombie) :
    ∃ index page, (state.pagesAfter label).held (.stack (process, index)) = some page := by
  rcases zombie_of_step stepTo zombie with old | ⟨cpu, slot, rfl, runs, rfl⟩
  · obtain ⟨index, page, held⟩ := remains process old
    exact ⟨index, page, tied.held_of_zombie orderly stepTo allows old held⟩
  · -- the thread that runs `exit` has its stack, which `exit` does not touch
    have stacked := tied.holds slot
    rw [tied.coherent.view.stacked_of_running runs, eq_comm, Option.isSome_iff_exists] at stacked
    obtain ⟨page, held⟩ := stacked
    exact ⟨slot.2, page, held⟩

end Kernel

/-- The condition on sections of the kernel; other code may take and give back
pages as it likes. -/
def Orderly (state : PagedKernel Cpu) : Label Cpu → Prop
  | .kernel label => state.kernel.Orderly label
  | .take _ => True
  | .give _ => True

instance (state : PagedKernel Cpu) (label : Label Cpu) : Decidable (state.Orderly label) := by
  unfold Orderly
  split <;> infer_instance

theorem Tied.orderly_step [DecidableEq Cpu]
    (tied : (∃ status waiters, Tied items state status waiters) ∧ state.Remains) {label : Label Cpu}
    (orderly : state.Orderly label) (stepTo : state.step label = some after) :
    (∃ status waiters, Tied items after status waiters) ∧ after.Remains := by
  obtain ⟨⟨status, waiters, tied⟩, remains⟩ := tied
  cases label with
  | kernel label =>
    obtain ⟨allows, stepTo⟩ := Option.ite_none_right_eq_some.mp stepTo
    obtain ⟨kernel, kernelStep, rfl⟩ := Option.map_eq_some_iff.mp stepTo
    exact ⟨tied.step_kernel orderly kernelStep allows,
      fun process => tied.remains_kernel orderly kernelStep allows remains⟩
  | take user =>
    simp only [step] at stepTo
    split at stepTo <;> cases stepTo
    next idle =>
      exact ⟨⟨status, waiters, tied.coherent, tied.sound.grant idle, tied.holds, tied.kstack⟩,
        remains⟩
  | give user =>
    cases stepTo
    exact ⟨⟨status, waiters, tied.coherent, tied.sound.release _, tied.holds, tied.kstack⟩,
      remains⟩

end Steps

theorem boot_tied {free : List Nat} (distinct : (0 :: free).Nodup) :
    Tied (· ∈ 0 :: free) (boot free : PagedKernel Cpu) Kernel.bootStatus fun _ => [] := by
  rw [List.nodup_cons] at distinct
  have held : ∀ user page, (boot free : PagedKernel Cpu).pages.held user = some page ↔
        user = .stack (mainThread initproc) ∧ page = 0 := by
    intro user page
    simp [boot, eq_comm]
  refine ⟨Kernel.boot_coherent, ⟨distinct.2, ?_, ?_, ?_⟩, ?_, ?_⟩
  · intro user page holds
    rw [((held user page).mp holds).2]
    exact distinct.1
  · intro first second page firstHolds secondHolds
    rw [((held first page).mp firstHolds).1, ((held second page).mp secondHolds).1]
  · intro page
    rw [List.mem_cons]
    simp only [held, exists_eq_left]
    exact or_comm
  · intro slot
    rcases eq_or_ne slot (mainThread initproc) with rfl | isMain
    · rfl
    · simp [boot, Kernel.bootStatus, isMain, Kernel.Status.stacked]
  · intro slot page holds
    obtain ⟨isMain, rfl⟩ := (held _ page).mp holds
    cases isMain
    rfl

theorem boot_remains {free : List Nat} : (boot free : PagedKernel Cpu).Remains := by
  intro process zombie
  by_cases isInit : process = initproc
  · simp [boot, Kernel.boot, isInit] at zombie
  · simp [boot, Kernel.boot, isInit] at zombie

structure Collects (state after : PagedKernel Cpu) (cpu : Cpu)
    (caller : Slot) (child : ProcId) : Prop where
  parent : (state.kernel.proc child).parent = some caller.1
  zombie : (state.kernel.proc child).state = .zombie
  returned : after.returned cpu = some (state.kernel.proc child).pid
  pageTable : after.pageTable child = false
  released : (after.kernel.proc child).state = .unused
  untouched : ∀ slot, slot.1 ≠ caller.1 ∨ (state.kernel.thread slot).state ≠ .zombie →
      after.kernel.thread slot = state.kernel.thread slot

/-- What `wait` is meant to do with threads: those of the child and their stacks
are released, and no other thread is touched. -/
structure ReapsThreads (state after : PagedKernel Cpu) (child : ProcId) : Prop where
  unused : ∀ index, (after.kernel.thread (child, index)).state = .unused
  freed : ∀ index page, state.pages.held (.stack (child, index)) = some page →
    page ∈ after.pages.free
  others : ∀ slot, slot.1 ≠ child → after.kernel.thread slot = state.kernel.thread slot

section Wait

variable [DecidableEq Cpu] {state after : PagedKernel Cpu}
variable {label : Kernel.Label Cpu} {cpu : Cpu} {caller : Slot}
variable {child : ProcId}

theorem step_wait (waits : state.kernel.waiter label = some (cpu, caller))
    (stepTo : state.step (.kernel label) = some after) :
    after.kernel = state.kernel.waitSection cpu caller ∧ after.pageTable = state.tablesAfter label ∧
      after.returned = state.returnedAfter label ∧
      ∃ location, state.kernel.running cpu = some (caller, location) := by
  obtain ⟨-, stepTo⟩ := Option.ite_none_right_eq_some.mp stepTo
  obtain ⟨kernel, kernelStep, rfl⟩ := Option.map_eq_some_iff.mp stepTo
  unfold waiter at waits
  split at waits
  next waitCpu =>
    split at waits <;> cases waits
    next slot runs =>
      simp only [Kernel.step, runs] at kernelStep
      exact ⟨(Option.some.inj kernelStep).symm, rfl, rfl, _, runs⟩
  next waitCpu =>
    split at waits <;> cases waits
    next slot runs =>
      simp only [Kernel.step, runs] at kernelStep
      exact ⟨(Option.some.inj kernelStep).symm, rfl, rfl, _, runs⟩
  next => simp at waits

theorem collects (waits : state.kernel.waiter label = some (cpu, caller))
    (found : state.kernel.zombieChild caller.1 = some child)
    (stepTo : state.step (.kernel label) = some after) :
    Collects state after cpu caller child := by
  obtain ⟨kernelEq, tableEq, returnedEq, -⟩ := step_wait waits stepTo
  have isZombie := List.find?_some found
  simp only [Bool.and_eq_true, beq_iff_eq] at isZombie
  have notCopied : state.kernel.copiedTo label = none := by
    cases label with
    | forkCopy => simp [waiter] at waits
    | _ => rfl
  refine ⟨isZombie.1, isZombie.2, ?_, ?_, ?_, ?_⟩
  · simp [returnedEq, returnedAfter, waits, waitReturns, found]
  · simp [tableEq, tablesAfter, notCopied, freedTable, waits, found]
  · rw [kernelEq, waitSection, found]
    simp [goTo, setProc]
  · intro slot untouched
    rw [kernelEq, waitSection, found]
    apply if_neg
    rintro ⟨sameProc, zombie⟩
    rcases untouched with differs | notZombie
    · exact differs sameProc
    · exact notZombie zombie

end Wait

/-- If the sections meet the condition, the kernel stacks in use are those of
the threads in use, and a `wait` that finds a zombie child returns its pid and
frees its page table, but it leaves a thread of the child with its stack. -/
theorem wait_never_reaps [DecidableEq Cpu] {free : List Nat} (distinct : (0 :: free).Nodup)
    {state : PagedKernel Cpu} (reaches : GuardedReaches step Orderly (boot free) state) :
    Accounted (· ∈ 0 :: free) state ∧
    ∀ after label cpu caller child, state.kernel.waiter label = some (cpu, caller) →
      state.kernel.zombieChild caller.1 = some child → state.step (.kernel label) = some after →
        Collects state after cpu caller child ∧ ¬ ReapsThreads state after child ∧
          ∃ index page, (after.kernel.thread (child, index)).state ≠ .unused ∧
            state.pages.held (.stack (child, index)) = some page ∧ page ∉ after.pages.free := by
  obtain ⟨⟨status, waiters, tied⟩, remains⟩ := reaches.invariant
    (fun state => (∃ status waiters, Tied (· ∈ 0 :: free) state status waiters) ∧ state.Remains)
    ⟨⟨_, _, boot_tied distinct⟩, boot_remains⟩ fun _ _ _ tied => Tied.orderly_step tied
  refine ⟨tied.accounted, ?_⟩
  intro after label cpu caller child waits found stepTo
  have collected := collects waits found stepTo
  obtain ⟨-, -, -, location, runs⟩ := step_wait waits stepTo
  have apart : child ≠ caller.1 := by
    rintro rfl
    have live := tied.live_of_running runs
    rw [collected.zombie] at live
    cases live
  obtain ⟨index, page, held⟩ := remains child collected.zombie
  have inUse : (after.kernel.thread (child, index)).state ≠ .unused := by
    rw [collected.untouched (child, index) (Or.inl apart)]
    exact (tied.accounted.stack _ page held).2
  refine ⟨collected, fun reaps => inUse (reaps.unused index), index, page, inUse, held, ?_⟩
  obtain ⟨allows, stepTo⟩ := Option.ite_none_right_eq_some.mp stepTo
  obtain ⟨kernel, kernelStep, rfl⟩ := Option.map_eq_some_iff.mp stepTo
  have orderly := orderly_of_waiter state.kernel waits
  exact (tied.pagesAfter_sound (tied.reserved orderly kernelStep)).separate _ page
    (tied.held_of_zombie orderly kernelStep allows collected.zombie held)

/-- The first thread creates a thread that ends, and forks a child that
exits. -/
def childExits (first second : Fin 2) : List (Label (Fin 2)) :=
  [.kernel (.scheduler first), .kernel (.create first),
    .kernel (.createFinish first (some 1)), .kernel (.scheduler second),
    .kernel (.threadExit second), .kernel (.fork first), .kernel (.forkCopy first 2),
    .kernel (.forkFinish first), .kernel (.scheduler second), .kernel (.exit second),
    .kernel (.exitFinish second)]

def firstChild : ProcId := ⟨1, one_lt_nproc⟩

theorem wait_never_reaps_childExits : ∃ state after : PagedKernel (Fin 2),
      GuardedReaches step Orderly (boot [1, 2, 3]) state ∧ Accounted (· ∈ [0, 1, 2, 3]) state ∧
      state.step (.kernel (.wait 0)) = some after ∧
      Collects state after 0 (mainThread initproc) firstChild ∧
      ¬ ReapsThreads state after firstChild := by
  obtain ⟨state, run, after, stepTo, waits, found⟩ :
      ∃ state ∈ runLabels (restrict step Orderly) (boot [1, 2, 3]) (childExits 0 1),
      ∃ after ∈ state.step (.kernel (.wait 0)),
        state.kernel.waiter (.wait 0) = some (0, mainThread initproc) ∧
          state.kernel.zombieChild initproc = some firstChild := by
    decide +kernel
  have distinct : (0 :: [1, 2, 3]).Nodup := by decide
  have reaches : GuardedReaches step Orderly (boot [1, 2, 3]) state :=
    guardedReaches_of_runLabels (childExits 0 1) run
  obtain ⟨accounted, waitsFor⟩ := wait_never_reaps distinct reaches
  obtain ⟨collects, notReaps, -⟩ := waitsFor after _ 0 _ firstChild waits found stepTo
  exact ⟨state, after, reaches, accounted, stepTo, collects, notReaps⟩

/-- `wait` leaves the child's thread a zombie with its stack, and the next
`fork` loses the page. -/
theorem wait_loses_stack : ∃ before after final : PagedKernel (Fin 2),
      Reaches step (boot [1, 2, 3]) before ∧
      before.step (.kernel (.wait 0)) = some after ∧
      after.returned 0 = some (before.kernel.proc firstChild).pid ∧
      (after.kernel.thread (mainThread firstChild)).state = .zombie ∧
      after.pages.held (.stack (mainThread firstChild)) = some 2 ∧
      (before.kernel.thread Kernel.createdThread).state = .zombie ∧
      (after.kernel.thread Kernel.createdThread).state = .unused ∧
      runLabels step after [.kernel (.fork 0), .kernel (.forkCopy 0 1)] = some final ∧
      2 ∉ final.pages.free ∧
      ∀ slot, final.pages.held (.stack slot) ≠ some 2 := by
  obtain ⟨before, run, after, waits, ⟨returned, zombie, held, wasZombie, released⟩,
      final, forks, notFree, notHeld⟩ :
      ∃ before ∈ runLabels step (boot [1, 2, 3]) (childExits 0 1),
      ∃ after ∈ before.step (.kernel (.wait 0)),
      (after.returned 0 = some (before.kernel.proc firstChild).pid ∧
      (after.kernel.thread (mainThread firstChild)).state = .zombie ∧
      after.pages.held (.stack (mainThread firstChild)) = some 2 ∧
      (before.kernel.thread Kernel.createdThread).state = .zombie ∧
      (after.kernel.thread Kernel.createdThread).state = .unused) ∧
      ∃ final ∈ runLabels step after [.kernel (.fork 0), .kernel (.forkCopy 0 1)],
        2 ∉ final.pages.free ∧ ∀ slot, final.pages.held (.stack slot) ≠ some 2 := by
    decide +kernel
  exact ⟨before, after, final, reaches_of_runLabels _ run, waits, returned,
    zombie, held, wasZombie, released, forks, notFree, notHeld⟩

end PagedKernel

end Xv6Kthreads
