import Mathlib.Data.Fintype.Prod
import Mathlib.Data.Fintype.Sum
import Xv6Kthreads.KernelStacks

/-!
# The ids of processes and threads

Processes and threads take their ids from one counter.  `allocproc` and
`kthread_create` increment it under `ptable.lock`, and `fork` increments it once
more without the lock.  The kernel of this file reads and writes the counter in
two steps there, with the other processors at work in between.
-/

namespace Xv6Kthreads

namespace ProcessIds

open LabelledRun Kernel Function

abbrev Owner := ProcId ⊕ Slot

variable {Cpu : Type*}

/-- The state of the process or thread is not `UNUSED`. -/
def Used (kernel : Kernel Cpu) : Owner → Prop
  | .inl process => (kernel.proc process).state ≠ .unused
  | .inr slot => (kernel.thread slot).state ≠ .unused

instance (kernel : Kernel Cpu) (owner : Owner) : Decidable (Used kernel owner) := by
  cases owner <;> unfold Used <;> infer_instance

def pid (kernel : Kernel Cpu) : Owner → Int
  | .inl process => (kernel.proc process).pid
  | .inr slot => (kernel.thread slot).pid

structure Distinct (kernel : Kernel Cpu) : Prop where
  below : ∀ owner, Used kernel owner → pid kernel owner < kernel.nextpid
  unique : ∀ first second, Used kernel first → Used kernel second →
    pid kernel first = pid kernel second → first = second

theorem Distinct.renumber {kernel after : Kernel Cpu}
    (distinct : Distinct kernel) (later : kernel.nextpid ≤ after.nextpid)
    (each : ∀ owner, Used after owner → Used kernel owner ∧ pid after owner = pid kernel owner ∨
        kernel.nextpid ≤ pid after owner ∧ pid after owner < after.nextpid)
    (new : ∀ first second, kernel.nextpid ≤ pid after first → Used after first → Used after second →
        pid after first = pid after second → first = second) :
    Distinct after := by
  refine ⟨?_, ?_⟩
  · intro owner used
    rcases each owner used with ⟨wasUsed, same⟩ | ⟨_, below⟩
    · have below := distinct.below owner wasUsed
      omega
    · exact below
  · intro first second firstUsed secondUsed same
    by_cases isNew : kernel.nextpid ≤ pid after first
    · exact new first second isNew firstUsed secondUsed same
    · rcases each first firstUsed with ⟨firstWas, firstSame⟩ | ⟨above, _⟩
      · rcases each second secondUsed with ⟨secondWas, secondSame⟩ | ⟨above, _⟩
        · apply distinct.unique first second firstWas secondWas
          rw [← firstSame, ← secondSame, same]
        · omega
      · omega

/-! ### Sections that give no ids -/

def counts : Label Cpu → Bool
  | .create _ | .fork _ | .forkCopy _ _ => true
  | _ => false

variable {kernel after : Kernel Cpu} {label : Label Cpu}

/-- The counter is as before, and so is each id that is in use. -/
def KeepsIds (kernel after : Kernel Cpu) : Prop :=
  after.nextpid = kernel.nextpid ∧ ∀ owner, Used after owner → pid after owner = pid kernel owner

theorem keepsIds_of_fields (same : fields Proc.pid after = fields Proc.pid kernel) :
    KeepsIds kernel after := by
  refine ⟨congrArg Prod.fst same, ?_⟩
  rintro (process | slot) -
  · exact congrFun (congrArg (·.2.1) same) process
  · exact congrArg Prod.fst (congrFun (congrArg (·.2.2) same) slot)

/-- Some threads have been reaped, and processes have given up their ids only
together with their slots. -/
theorem keepsIds_of_reaped (target : Slot → Prop) [DecidablePred target]
    (next : after.nextpid = kernel.nextpid)
    (procs : ∀ process, (after.proc process).state ≠ .unused →
      (after.proc process).pid = (kernel.proc process).pid)
    (threads : after.thread = fun slot =>
      if target slot then reapThread (kernel.thread slot)
      else kernel.thread slot) :
    KeepsIds kernel after := by
  refine ⟨next, ?_⟩
  rintro (process | slot) used
  · exact procs process used
  · simp only [Used, pid, threads] at used ⊢
    split at used
    next => exact absurd rfl used
    next notTarget => rw [if_neg notTarget]

variable [DecidableEq Cpu]

theorem joinSection_keepsIds (cpu : Cpu) (slot : Slot) (id : Int) :
    KeepsIds kernel (kernel.joinSection cpu slot id) := by
  unfold joinSection
  split
  next target found =>
    refine keepsIds_of_reaped (· = target) rfl (fun _ _ => rfl) (funext fun other => ?_)
    simp only [goTo_thread, setThread, update_apply]
    split <;> simp_all
  next =>
    apply keepsIds_of_fields
    grind [fields_goTo, fields_fallAsleep]

theorem waitSection_keepsIds (cpu : Cpu) (slot : Slot) :
    KeepsIds kernel (kernel.waitSection cpu slot) := by
  unfold waitSection
  split
  next child found =>
    refine keepsIds_of_reaped (fun other => other.1 = slot.1 ∧
      (kernel.thread other).state = .zombie) rfl ?_ rfl
    intro process used
    simp only [goTo, setProc, reapZombies, update_apply] at used ⊢
    split at used
    next => exact absurd rfl used
    next differs => rw [if_neg differs]
  next =>
    apply keepsIds_of_fields
    grind [fields_goTo, fields_fallAsleep]

/-- A section that gives no id changes no id that stays in use. -/
theorem step_keepsIds (uncounted : counts label = false)
    (stepTo : kernel.step label = some after) : KeepsIds kernel after := by
  cases label with
  | create | fork | forkCopy => cases uncounted
  | createFinish | forkFail =>
    simp only [Kernel.step, createFinish, forkFail] at stepTo
    repeat' split at stepTo
    all_goals cases stepTo
    all_goals
      refine ⟨rfl, ?_⟩
      rintro (process | slot) - <;>
        simp only [pid, goTo, setThread, setProc, update_apply] <;> grind
  | join | joinRescan | wait | waitRescan =>
    simp only [Kernel.step] at stepTo
    split at stepTo <;> cases stepTo
    first
      | exact joinSection_keepsIds _ _ _
      | exact waitSection_keepsIds _ _
  | _ => exact keepsIds_of_fields (step_identity rfl stepTo)

/-! ### Sections that give ids -/

section

variable (distinct : Distinct kernel)

include distinct

omit [DecidableEq Cpu] in
/-- An increment of the counter gives one process or thread an id. -/
theorem Distinct.assign (owner : Owner) (next : after.nextpid = kernel.nextpid + 1)
    (given : pid after owner = kernel.nextpid)
    (kept : ∀ other, other ≠ owner → (Used after other ↔ Used kernel other) ∧
        pid after other = pid kernel other) : Distinct after := by
  have isNew : ∀ other, Used after other → kernel.nextpid ≤ pid after other → other = owner := by
    intro other used above
    by_contra differs
    have below := distinct.below other ((kept other differs).1.mp used)
    rw [(kept other differs).2] at above
    omega
  refine distinct.renumber (by omega) ?_ ?_
  · intro other used
    by_cases same : other = owner
    · rw [same]
      omega
    · exact .inl ⟨(kept other same).1.mp used, (kept other same).2⟩
  · intro first second above firstUsed secondUsed same
    rw [isNew first firstUsed above, isNew second secondUsed (same ▸ above)]

theorem Distinct.create {cpu : Cpu} (stepTo : kernel.create cpu = some after) : Distinct after := by
  simp only [Kernel.create] at stepTo
  split at stepTo
  swap
  · cases stepTo
  rename_i slot runs
  split at stepTo <;> cases stepTo
  next => exact distinct
  next target found =>
    refine distinct.assign (.inr target) rfl ?_ ?_
    · simp [pid, setThread, goTo]
    · rintro (process | other) differs
      · exact ⟨Iff.rfl, rfl⟩
      · have apart : other ≠ target := fun same => differs (by rw [same])
        simp [Used, pid, setThread, goTo, apart]

theorem Distinct.fork {cpu : Cpu} (stepTo : kernel.fork cpu = some after) : Distinct after := by
  simp only [Kernel.fork] at stepTo
  split at stepTo
  swap
  · cases stepTo
  rename_i slot runs
  split at stepTo <;> cases stepTo
  next => exact distinct
  next child found =>
    have first : Distinct { kernel.setProc child { kernel.proc child with
          state := .embryo
          numOfThreads := 0
          pid := kernel.nextpid } with
        nextpid := kernel.nextpid + 1 } := by
      refine distinct.assign (.inl child) rfl ?_ ?_
      · simp [pid, setProc]
      · rintro (process | other) differs
        · have apart : process ≠ child := fun same => differs (by rw [same])
          simp [Used, pid, setProc, apart]
        · exact ⟨Iff.rfl, rfl⟩
    refine first.assign (.inr (mainThread child)) ?_ ?_ ?_
    · simp only
      omega
    · simp [pid, setThread, goTo]
    · rintro (process | other) differs
      · exact ⟨Iff.rfl, rfl⟩
      · have apart : other ≠ mainThread child := fun same =>
          differs (by rw [same])
        simp [Used, pid, setThread, setProc, goTo, apart]

theorem Distinct.forkCopy {cpu : Cpu} {kstack : Nat}
    (stepTo : kernel.forkCopy cpu kstack = some after) : Distinct after := by
  simp only [Kernel.forkCopy] at stepTo
  split at stepTo <;> cases stepTo
  rename_i slot child runs
  refine distinct.assign (.inr (mainThread child)) rfl ?_ ?_
  · simp [pid, setThread, goTo]
  · rintro (process | other) differs
    · simp only [Used, pid, setThread, goTo, setProc, update_apply]
      split <;> simp_all
    · have apart : other ≠ mainThread child := fun same =>
        differs (by rw [same])
      simp [Used, pid, setThread, setProc, goTo, apart]

end

/-! ### Runs -/

/-- The kernel, and for each process under construction what `fork` has read
from `nextpid` for its thread. -/
structure State (Cpu : Type*) where
  kernel : Kernel Cpu
  read : ProcId → Option Int

inductive Label (Cpu : Type*) where
  | kernel (label : Kernel.Label Cpu)
  | readNextpid (cpu : Cpu)
  | storeNextpid (cpu : Cpu) (kstack : Nat)

namespace State

variable (state : State Cpu)

/-- The child for which the processor runs `fork` after `allocproc`. -/
def child (cpu : Cpu) : Option ProcId :=
  match state.kernel.running cpu with
  | some (_, .forkAllocated child) => some child
  | _ => none

/-- `fork` copies the process in its own two steps, and does not fail after the
first one. -/
def replaced : Kernel.Label Cpu → Bool
  | .forkCopy _ _ => true
  | .forkFail cpu => ((state.child cpu).bind state.read).isSome
  | _ => false

/-- A section of the kernel, or one of the two halves of `nt->pid = nextpid++`
in `fork`, the second with the other stores of `fork`. -/
def step : Label Cpu → Option (State Cpu)
  | .kernel label =>
    if state.replaced label then none
    else (state.kernel.step label).map fun kernel =>
      { state with kernel := kernel }
  | .readNextpid cpu =>
    match state.child cpu with
    | none => none
    | some child =>
      if (state.read child).isSome then none
      else some { state with
        read := update state.read child (some state.kernel.nextpid) }
  | .storeNextpid cpu kstack =>
    match state.child cpu with
    | none => none
    | some child =>
      match state.read child with
      | none => none
      | some value =>
        ({ state.kernel with nextpid := value }.forkCopy cpu
          kstack).map fun kernel =>
            ⟨kernel, update state.read child none⟩

/-- `fork` writes `nextpid` while it is what it has read, and slots come into
use only with new ids. -/
def Careful : Label Cpu → Prop
  | .kernel label => counts label = true ∨ (state.kernel.step label).all fun after =>
        decide (∀ owner, Used after owner → Used state.kernel owner)
  | .readNextpid _ => True
  | .storeNextpid cpu _ => ((state.child cpu).bind state.read).all (· = state.kernel.nextpid)

instance (label : Label Cpu) : Decidable (state.Careful label) := by
  cases label <;> unfold Careful <;> infer_instance

def boot : State Cpu where
  kernel := Kernel.boot
  read _ := none

end State

omit [DecidableEq Cpu] in
theorem boot_distinct : Distinct (Kernel.boot : Kernel Cpu) := by
  have procs : ∀ process, Used (Kernel.boot : Kernel Cpu) (.inl process) → process = initproc := by
    intro process used
    by_contra differs
    simp [Used, Kernel.boot, differs] at used
  have threads : ∀ slot, Used (Kernel.boot : Kernel Cpu) (.inr slot) →
      slot = mainThread initproc := by
    intro slot used
    by_contra differs
    simp [Used, Kernel.boot, differs] at used
  refine ⟨?_, ?_⟩
  · rintro (process | slot) used
    · rw [procs process used]
      simp [pid, Kernel.boot]
    · rw [threads slot used]
      simp [pid, Kernel.boot]
  · rintro (first | first) (second | second) firstUsed secondUsed same
    · rw [procs first firstUsed, procs second secondUsed]
    · rw [procs first firstUsed, threads second secondUsed] at same
      simp [pid, Kernel.boot] at same
    · rw [threads first firstUsed, procs second secondUsed] at same
      simp [pid, Kernel.boot] at same
    · rw [threads first firstUsed, threads second secondUsed]

variable {state next : State Cpu}

theorem Distinct.step {label : Label Cpu} (distinct : Distinct state.kernel)
    (careful : state.Careful label) (stepTo : state.step label = some next) :
    Distinct next.kernel := by
  cases label with simp only [State.step] at stepTo
  | kernel label =>
    split at stepTo
    · cases stepTo
    rename_i notReplaced
    obtain ⟨after, kernelStep, rfl⟩ := Option.map_eq_some_iff.mp stepTo
    cases isCounting : counts label with
    | true =>
      cases label with
      | create => exact distinct.create kernelStep
      | fork => exact distinct.fork kernelStep
      | forkCopy => exact absurd rfl notReplaced
      | _ => cases isCounting
    | false =>
      obtain ⟨next, kept⟩ := step_keepsIds isCounting kernelStep
      have used : ∀ owner, Used after owner → Used state.kernel owner := by
        simpa [State.Careful, isCounting, kernelStep] using careful
      refine distinct.renumber (Int.le_of_eq next.symm) ?_ ?_
      · exact fun owner isUsed => .inl ⟨used owner isUsed, kept owner isUsed⟩
      · intro first _ above firstUsed
        have below := distinct.below first (used first firstUsed)
        rw [kept first firstUsed] at above
        omega
  | readNextpid cpu =>
    split at stepTo
    next => cases stepTo
    next =>
      split at stepTo <;> cases stepTo
      exact distinct
  | storeNextpid cpu kstack =>
    split at stepTo
    · cases stepTo
    rename_i child isChild
    split at stepTo
    next => cases stepTo
    next value isRead =>
      obtain ⟨after, copies, rfl⟩ := Option.map_eq_some_iff.mp stepTo
      have same : value = state.kernel.nextpid := by
        simpa [State.Careful, isChild, isRead] using careful
      rw [same] at copies
      exact distinct.forkCopy copies

/-- In every run of the kernel whose steps all meet the condition, the ids of
the processes and threads in use are pairwise distinct. -/
theorem ids_distinct (reaches : GuardedReaches State.step State.Careful State.boot state)
    (first second : Owner) (firstUsed : Used state.kernel first)
    (secondUsed : Used state.kernel second) (differ : first ≠ second) :
    pid state.kernel first ≠ pid state.kernel second := by
  have distinct := reaches.invariant (fun state => Distinct state.kernel)
    boot_distinct fun before label after distinct careful stepTo =>
      distinct.step careful stepTo
  intro same
  exact differ (distinct.unique first second firstUsed secondUsed same)

def secondThread : Slot := (initproc, ⟨1, one_lt_nthread⟩)

/-- `initproc` creates a second thread, which then runs on the other
processor, and forks. -/
def createAndFork (first second : Fin 2) : List (Label (Fin 2)) :=
  [.kernel (.scheduler first), .kernel (.create first),
    .kernel (.createFinish first (some 1)), .kernel (.scheduler second),
    .kernel (.fork first), .readNextpid first, .storeNextpid first 2,
    .kernel (.forkFinish first)]

theorem ids_distinct_createAndFork : ∃ state : State (Fin 2),
      pid state.kernel (.inr (mainThread ⟨1, by decide⟩)) = 6 ∧
        pid state.kernel (.inr secondThread) ≠
          pid state.kernel (.inr (mainThread ⟨1, by decide⟩)) := by
  obtain ⟨state, run, six, firstUsed, secondUsed⟩ :
      ∃ state ∈ runLabels (restrict State.step State.Careful) State.boot (createAndFork 0 1),
      pid state.kernel (.inr (mainThread ⟨1, by decide⟩)) = 6 ∧
        Used state.kernel (.inr secondThread) ∧
          Used state.kernel (.inr (mainThread ⟨1, by decide⟩)) := by
    decide +kernel
  exact ⟨state, six, ids_distinct (guardedReaches_of_runLabels _ run) _ _
    firstUsed secondUsed (by decide)⟩

/-- While `fork` is between its read and its write of `nextpid`, the other
thread creates a third one. -/
def createDuringFork (first second : Fin 2) : List (Label (Fin 2)) :=
  [.kernel (.scheduler first), .kernel (.create first),
    .kernel (.createFinish first (some 1)), .kernel (.scheduler second),
    .kernel (.fork first), .readNextpid first, .kernel (.create second),
    .storeNextpid first 2, .kernel (.createFinish second (some 3)),
    .kernel (.forkFinish first)]

/-- The child's thread and the new thread get the same id. -/
theorem ids_collide : ∃ state : State (Fin 2), Reaches State.step State.boot state ∧
      Used state.kernel (.inr (initproc, ⟨2, by decide⟩)) ∧
      Used state.kernel (.inr (mainThread ⟨1, by decide⟩)) ∧
      pid state.kernel (.inr (initproc, ⟨2, by decide⟩)) =
        pid state.kernel (.inr (mainThread ⟨1, by decide⟩)) := by
  exact exists_reaches (createDuringFork 0 1) (by decide +kernel)

end ProcessIds

end Xv6Kthreads
