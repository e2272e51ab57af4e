import Xv6Kthreads.KernelStacks

/-!
# What an id names

`kill` and `kthread_join` compare ids and not states, so they also find a free
slot with the id.  `kill` then sets a `killed` flag that `allocproc` does not
clear for the next process of the slot.
-/

namespace Xv6Kthreads

namespace LiveIds

open Function Kernel LabelledRun

variable {Cpu : Type*}

section Calls

variable (kernel : Kernel Cpu)

/-- What `kill` returns. -/
def killReturns (pid : Int) : Int :=
  match (List.finRange NPROC).find? fun process => (kernel.proc process).pid == pid with
  | none => -1
  | some _ => 0

/-- What a scan of `kthread_join` returns, if the caller does not sleep. -/
def joinReturns (process : ProcId) (id : Int) : Option Int :=
  match kernel.joinable process id with
  | some _ => some 0
  | none =>
    match kernel.joinTarget process id with
    | none => some (-1)
    | some _ => if (kernel.proc process).killed then some (-1) else none

/-- No free process has the id. -/
def NoFreeProc (id : Int) : Prop :=
  ∀ process, (kernel.proc process).pid = id → (kernel.proc process).state ≠ .unused

/-- No free thread of the process has the id. -/
def NoFreeThread (process : ProcId) (id : Int) : Prop :=
  ∀ index, (kernel.thread (process, index)).pid = id →
    (kernel.thread (process, index)).state ≠ .unused

/-- A thread of the process that has the id and has not exited. -/
def LiveThread (process : ProcId) (id : Int) (index : Fin NTHREAD) : Prop :=
  (kernel.thread (process, index)).pid = id ∧ (kernel.thread (process, index)).state ≠ .unused ∧
    (kernel.thread (process, index)).state ≠ .zombie

/-- `kill` finds the processes in use and changes only the one it finds. -/
structure KillsLive (id : Int) : Prop where
  returns : killReturns kernel id = 0 ↔
    ∃ process, (kernel.proc process).pid = id ∧ (kernel.proc process).state ≠ .unused
  changes : killReturns kernel id = 0 → ∃ process, (kernel.proc process).pid = id ∧
    (kernel.proc process).state ≠ .unused ∧
    { kernel.kill id with proc := kernel.proc, thread := kernel.thread } = kernel ∧
    ∀ slot : Slot, slot.1 ≠ process → (kernel.kill id).proc slot.1 = kernel.proc slot.1 ∧
      (kernel.kill id).thread slot = kernel.thread slot
  fails : killReturns kernel id ≠ 0 → killReturns kernel id = -1 ∧ kernel.kill id = kernel

/-- `kthread_join` sleeps for a thread that has not exited; without one it
returns, and it fails if there is no thread to join either. -/
structure JoinsLive [DecidableEq Cpu] (cpu : Cpu) (slot : Slot) (id : Int) : Prop where
  sleeps : (kernel.joinSection cpu slot id).running cpu = none →
    ∃ index, LiveThread kernel slot.1 id index
  returns : (∀ index, ¬ LiveThread kernel slot.1 id index) →
    (kernel.joinSection cpu slot id).running cpu = some (slot, .user) ∧
    joinReturns kernel slot.1 id = some (if ∃ index, (kernel.thread (slot.1, index)).pid = id ∧
      (kernel.thread (slot.1, index)).state = .zombie then 0 else -1)

/-- `kill` is not called with the id of a free process, and the flag is not
set for a process that `fork` gives up or that is free. -/
def Spares : Label Cpu → Prop
  | .kill pid => NoFreeProc kernel pid
  | .forkFail cpu => ∀ target ∈ kernel.kstackTarget (.forkFail cpu),
      (kernel.proc target.1).killed = false
  | .exitFinish cpu => ∀ slot ∈ kernel.exiter (.exitFinish cpu),
      (kernel.proc slot.1).state ≠ .unused
  | _ => True

instance (id : Int) : Decidable (NoFreeProc kernel id) :=
  inferInstanceAs (Decidable (∀ _, _))

instance (process : ProcId) (id : Int) : Decidable (NoFreeThread kernel process id) :=
  inferInstanceAs (Decidable (∀ _, _))

instance (label : Label Cpu) : Decidable (Spares kernel label) := by
  induction label using Label.casesOn <;>
    first | exact isTrue trivial | exact inferInstanceAs (Decidable (∀ _, _))

/-- The flag is not set for free processes. -/
def Clean : Prop :=
  ∀ process, (kernel.proc process).state = .unused → (kernel.proc process).killed = false

end Calls

variable {kernel after : Kernel Cpu} {id : Int}

theorem killsLive (noFree : NoFreeProc kernel id) : KillsLive kernel id := by
  cases found : (List.finRange NPROC).find? fun process => (kernel.proc process).pid == id with
  | none =>
    have absent : ∀ process, (kernel.proc process).pid ≠ id := by simpa using found
    refine ⟨?_, ?_, ?_⟩ <;> simp [killReturns, kill, found, absent]
  | some process =>
    have same : (kernel.proc process).pid = id := by simpa using List.find?_some found
    refine ⟨?_, fun _ => ⟨process, same, noFree process same, ?_, ?_⟩, ?_⟩
    · simpa [killReturns, found] using ⟨process, same, noFree process same⟩
    · simp [kill, found, setKilled, setProc]
    · intro slot differs
      simp [kill, found, setKilled, setProc, differs]
    · simp [killReturns, found]

variable [DecidableEq Cpu] {cpu : Cpu}

theorem joinsLive {slot : Slot} (noFree : NoFreeThread kernel slot.1 id) :
    JoinsLive kernel cpu slot id := by
  cases isJoinable : kernel.joinable slot.1 id with
  | some target =>
    have exited : ∃ index, (kernel.thread (slot.1, index)).pid = id ∧
        (kernel.thread (slot.1, index)).state = .zombie := by
      obtain ⟨index, found, -⟩ := Option.map_eq_some_iff.mp isJoinable
      exact ⟨index, by simpa using List.find?_some found⟩
    refine ⟨?_, fun _ => ?_⟩
    · simp [joinSection, isJoinable, goTo]
    · simp [joinSection, joinReturns, isJoinable, goTo, exited]
  | none =>
    have noneExited : ∀ index, (kernel.thread (slot.1, index)).pid = id →
        (kernel.thread (slot.1, index)).state ≠ .zombie := by
      simpa [joinable] using isJoinable
    cases isTarget : kernel.joinTarget slot.1 id with
    | none =>
      have absent : ∀ index, (kernel.thread (slot.1, index)).pid ≠ id := by
        simpa [joinTarget] using isTarget
      refine ⟨?_, fun _ => ?_⟩
      · simp [joinSection, isJoinable, isTarget, goTo]
      · simp [joinSection, joinReturns, isJoinable, isTarget, goTo, absent]
    | some target =>
      obtain ⟨index, found, -⟩ := Option.map_eq_some_iff.mp isTarget
      have same : (kernel.thread (slot.1, index)).pid = id := by
        simpa using List.find?_some found
      have live : LiveThread kernel slot.1 id index :=
        ⟨same, noFree index same, noneExited index same⟩
      exact ⟨fun _ => ⟨index, live⟩, fun noneLive => absurd live (noneLive index)⟩

omit [DecidableEq Cpu] in
theorem Clean.store {child : ProcId} {proc : Proc} (clean : Clean kernel)
    (procs : after.proc = update kernel.proc child proc)
    (stored : proc.state = .unused → proc.killed = false) : Clean after := by
  intro process
  rw [procs]
  rcases eq_or_ne process child with rfl | same
  · rwa [update_self]
  · rw [update_of_ne same]
    exact clean process

theorem Clean.step {label : Label Cpu} (clean : Clean kernel) (spares : Spares kernel label)
    (stepTo : kernel.step label = some after) : Clean after := by
  cases label with
  | kill pid =>
    cases stepTo
    unfold kill
    split
    next => exact clean
    next process found =>
      have used := spares process (by simpa using List.find?_some found)
      exact clean.store rfl fun unused => absurd unused used
  | exitFinish cpu =>
    simp only [Kernel.step, exitFinish] at stepTo
    split at stepTo
    swap
    · cases stepTo
    rename_i slot runs
    have used := spares slot (by simp [exiter, runs])
    obtain ⟨threads, isLeft⟩ := kernel.abandonChildren_eq slot.1
    have adopted : Clean { kernel with proc := kernel.adopt slot.1 } := by
      intro process
      simp only [adopt]
      split <;> exact clean process
    have killed : Clean ((kernel.endProcess slot).setState slot .zombie) := by
      rw [endProcess, isLeft]
      refine adopted.store rfl fun unused => absurd ?_ used
      simpa [adopt_state] using unused
    cases stepTo
    split
    · exact killed
    · exact killed.store rfl (by simp)
  | fork | forkCopy | forkFinish | wait | waitRescan | create | createFinish | join
  | joinRescan =>
    simp only [Kernel.step, fork, forkCopy, forkFinish, create, createFinish, joinSection,
      waitSection] at stepTo
    repeat' split at stepTo
    all_goals cases stepTo
    all_goals first
      | exact clean
      | exact clean.store rfl (clean _)
      | exact clean.store rfl fun _ => rfl
      | exact clean.store rfl (by simp)
  | forkFail cpu =>
    simp only [Kernel.step, forkFail] at stepTo
    split at stepTo <;> cases stepTo
    next slot child runs =>
      exact clean.store rfl fun _ => spares (mainThread child) (by simp [kstackTarget, runs])
  | _ =>
    intro process unused
    have same := congrFun (congrArg (·.2.1)
      (step_fields (fun proc => (proc.state, proc.killed)) rfl rfl stepTo)) process
    obtain ⟨states, killed⟩ := Prod.ext_iff.mp same
    exact killed.trans (clean process (states.symm.trans unused))

/-- In every kernel that the sections reach without setting the flag of a free
process, `kill` and `kthread_join` deal with live processes and threads only,
unless a free one has the id, and `allocproc` returns a process that is not
killed. -/
theorem ids_name_live (reaches : GuardedReaches Kernel.step Spares boot kernel) (id : Int) :
    (NoFreeProc kernel id → KillsLive kernel id) ∧
    (∀ cpu slot, NoFreeThread kernel slot.1 id → JoinsLive kernel cpu slot id) ∧
    ∀ cpu child after, kernel.unusedProc = some child → kernel.fork cpu = some after →
      (after.proc child).killed = false := by
  have clean : Clean kernel := by
    refine reaches.invariant Clean ?_ fun _ _ _ clean spares stepTo => clean.step spares stepTo
    intro process _
    simp only [boot]
    split <;> rfl
  refine ⟨killsLive, fun cpu slot => joinsLive, ?_⟩
  intro cpu child after free stepTo
  simp only [fork, free] at stepTo
  split at stepTo <;> cases stepTo
  simpa [goTo, setThread, setProc] using clean child (unusedProc_spec free)

/-- `initproc` is killed, and forks. -/
theorem ids_name_live_fork : ∃ kernel after : Kernel Unit,
    KillsLive kernel 1 ∧ JoinsLive kernel () (mainThread initproc) 2 ∧
      kernel.fork () = some after ∧ (after.proc ⟨1, by decide⟩).killed = false := by
  obtain ⟨kernel, run, after, forks, noFreeProc, noFreeThread, free⟩ :
      ∃ kernel ∈ runLabels (restrict Kernel.step Spares) (boot : Kernel Unit)
      [.scheduler (), .kill 1], ∃ after ∈ kernel.fork (), NoFreeProc kernel 1 ∧
        NoFreeThread kernel initproc 2 ∧ kernel.unusedProc = some ⟨1, by decide⟩ := by
    decide +kernel
  have live := ids_name_live (guardedReaches_of_runLabels _ run)
  exact ⟨kernel, after, (live 1).1 noFreeProc, (live 2).2.1 () _ noFreeThread, forks,
    (live 1).2.2 () _ _ free forks⟩

/-- `kill(0)` finds a free process, and the next child of `initproc` is born
killed; `kthread_join(0)` sleeps for a free thread. -/
theorem kill_finds_free : ∃ kernel ∈ runLabels Kernel.step (boot : Kernel Unit)
    [.scheduler (), .kill 0],
    killReturns (boot : Kernel Unit) 0 = 0 ∧
    (∀ process, ((boot : Kernel Unit).proc process).pid = 0 →
      ((boot : Kernel Unit).proc process).state = .unused) ∧
    (∃ after ∈ kernel.fork (), (after.proc ⟨1, by decide⟩).state = .embryo ∧
      (after.proc ⟨1, by decide⟩).killed = true) ∧
    (kernel.joinSection () (mainThread initproc) 0).running () = none ∧
    ∀ index, (kernel.thread (initproc, index)).pid = 0 →
      (kernel.thread (initproc, index)).state = .unused := by
  decide +kernel

end LiveIds

end Xv6Kthreads
