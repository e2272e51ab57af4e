import Xv6Kthreads.KernelDeath

/-!
# The ids and the `kstack` fields

Most sections leave the ids, the `kstack` fields and the process table alone.
Only the last sections of `kthread_create` and `fork` store into the `kstack`
field of a thread.
-/

namespace Xv6Kthreads

namespace Kernel

variable {Cpu : Type*}

section Fields

variable {Part : Type*} (part : Proc → Part) (kernel : Kernel Cpu)

/-- The counter of the ids, a part of each process, and the fields of the
threads that only their creation and their release store. -/
def fields : Int × (ProcId → Part) × (Slot → Int × Option Nat) :=
  (kernel.nextpid, fun process => part (kernel.proc process),
    fun slot => ((kernel.thread slot).pid, (kernel.thread slot).kstack))

theorem fields_eq {after : Kernel Cpu} (next : after.nextpid = kernel.nextpid)
    (procs : ∀ process, part (after.proc process) = part (kernel.proc process))
    (threads : ∀ slot, (after.thread slot).pid = (kernel.thread slot).pid ∧
      (after.thread slot).kstack = (kernel.thread slot).kstack) :
    fields part after = fields part kernel :=
  Prod.ext next (Prod.ext (funext procs) (funext fun slot =>
    Prod.ext (threads slot).1 (threads slot).2))

@[simp]
theorem fields_setMutex (index : MutexId) (mutex : KthreadMutex QueueEntry) :
    fields part (kernel.setMutex index mutex) = fields part kernel :=
  rfl

@[simp]
theorem fields_setThread {slot : Slot} {thread : Thread}
    (pid : thread.pid = (kernel.thread slot).pid)
    (kstack : thread.kstack = (kernel.thread slot).kstack) :
    fields part (kernel.setThread slot thread) = fields part kernel := by
  refine fields_eq part kernel rfl (fun _ => rfl) fun other => ?_
  simp only [setThread, Function.update_apply]
  split <;> simp_all

@[simp]
theorem fields_setState (slot : Slot) (state : RunState) :
    fields part (kernel.setState slot state) = fields part kernel :=
  fields_setThread part kernel rfl rfl

theorem fields_setProc {process : ProcId} {proc : Proc}
    (same : part proc = part (kernel.proc process)) :
    fields part (kernel.setProc process proc) = fields part kernel := by
  refine fields_eq part kernel rfl (fun other => ?_) fun _ => ⟨rfl, rfl⟩
  simp only [setProc, Function.update_apply]
  split <;> simp_all

@[simp]
theorem fields_wakeup1 (chan : Option Chan) :
    fields part (kernel.wakeup1 chan) = fields part kernel := by
  refine fields_eq part kernel rfl (fun _ => rfl) fun slot => ?_
  simp only [wakeup1]
  split <;> exact ⟨rfl, rfl⟩

theorem fields_unlockId {after : Kernel Cpu} {id : Int}
    (unlocks : kernel.unlockId id = some after) : fields part after = fields part kernel := by
  grind [unlockId, unlockSection, fields_setMutex, fields_setState]

theorem fields_endProcess (adopts : ∀ proc parent, part { proc with parent := parent } = part proc)
    (kills : ∀ proc, part { proc with killed := true } = part proc) (slot : Slot) :
    fields part (kernel.endProcess slot) = fields part kernel := by
  have killed : ∀ alive : Kernel Cpu,
      fields part (alive.killSiblings slot) = fields part alive := by
    intro alive
    refine fields_eq _ alive rfl (fun _ => rfl) fun other => ?_
    simp only [killSiblings]
    split <;> exact ⟨rfl, rfl⟩
  have adopted : fields part { kernel with proc := kernel.adopt slot.1 } =
      fields part kernel := by
    refine fields_eq _ kernel rfl (fun process => ?_) fun _ => ⟨rfl, rfl⟩
    simp only [adopt]
    split
    · exact adopts ..
    · rfl
  have woken : fields part { kernel.wakeup1 ((kernel.proc slot.1).parent.map .proc) with
        proc := kernel.adopt slot.1 } = fields part kernel :=
    (fields_wakeup1 _ { kernel with proc := kernel.adopt slot.1 } _).trans adopted
  rw [endProcess, killed, setKilled, fields_setProc _ _ (kills _), abandonChildren]
  split
  · exact (fields_wakeup1 ..).trans woken
  · exact woken

variable [DecidableEq Cpu]

@[simp]
theorem fields_goTo (cpu : Cpu) (slot : Slot) (location : Location) :
    fields part (kernel.goTo cpu slot location) = fields part kernel :=
  rfl

@[simp]
theorem fields_sched (cpu : Cpu) (slot : Slot) (location : Location) :
    fields part (kernel.sched cpu slot location) = fields part kernel := by
  change fields part (kernel.setThread slot _) = _
  exact fields_setThread part kernel rfl rfl

@[simp]
theorem fields_fallAsleep (cpu : Cpu) (slot : Slot) (chan : Chan) (call : SleepCall) :
    fields part (kernel.fallAsleep cpu slot chan call) = fields part kernel := by
  rw [fallAsleep, fields_sched]
  exact fields_setThread part kernel rfl rfl

end Fields

/-- The section creates or releases a process or a thread. -/
def allocates : Label Cpu → Bool
  | .create _ | .createFinish _ _ | .fork _ | .forkFail _ | .forkCopy _ _
  | .join _ _ | .joinRescan _ | .wait _ | .waitRescan _ => true
  | _ => false

/-- Other sections that store in a process. -/
def storesProc : Label Cpu → Bool
  | .forkFinish _ | .exitFinish _ | .kill _ => true
  | _ => false

theorem kstack_of_fields {kernel after : Kernel Cpu}
    (same : fields Proc.pid after = fields Proc.pid kernel) (slot : Slot) :
    (after.thread slot).kstack = (kernel.thread slot).kstack :=
  congrArg Prod.snd (congrFun (congrArg (·.2.2) same) slot)

theorem setThread_kstack (kernel : Kernel Cpu) {slot : Slot} {thread : Thread}
    (same : thread.kstack = (kernel.thread slot).kstack) (other : Slot) :
    ((kernel.setThread slot thread).thread other).kstack = (kernel.thread other).kstack := by
  rcases eq_or_ne other slot with rfl | equal
  · simpa [setThread] using same
  · simp [setThread, Function.update_of_ne equal]

section Steps

variable [DecidableEq Cpu] {kernel after : Kernel Cpu} {label : Label Cpu}

theorem step_fields {Part : Type*} (part : Proc → Part) (keeps : allocates label = false)
    (apart : storesProc label = false) (stepTo : kernel.step label = some after) :
    fields part after = fields part kernel := by
  cases label with
  | create | createFinish | fork | forkFail | forkCopy | join | joinRescan | wait
  | waitRescan => cases keeps
  | forkFinish | exitFinish | kill => cases apart
  | scheduler cpu =>
    have cursor : ∀ (kernel : Kernel Cpu) position,
        fields part { kernel with cursor := position } = fields part kernel :=
      fun _ _ => rfl
    simp only [step, scheduler] at stepTo
    grind [fields_goTo, fields_setState]
  | mutexAlloc | mutexDealloc =>
    simp only [step] at stepTo
    grind [mutexAlloc, mutexDealloc, fields_setMutex]
  | unlock | yieldlockUnlockSecond | yieldlockUnlockFirst =>
    simp only [step] at stepTo
    grind [unlockSection, yieldlockUnlockSecond, yieldlockUnlockFirst, fields_unlockId,
      Option.map_eq_some_iff, fields_setMutex, fields_setState, fields_goTo]
  | _ =>
    simp only [step, yield, sleep, sleepReturn, lockEnter, lockBlock, lockFinish,
      yieldlock, yieldlockSection, yieldlockReturn, exit, threadExit] at stepTo
    repeat' split at stepTo
    all_goals first
      | (cases stepTo; done)
      | (obtain rfl := Option.some.inj stepTo; simp)

theorem step_identity (keeps : allocates label = false) (stepTo : kernel.step label = some after) :
    fields Proc.pid after = fields Proc.pid kernel := by
  cases label with
  | forkFinish =>
    simp only [step] at stepTo
    grind [forkFinish, fields_goTo, fields_setState, fields_setProc]
  | exitFinish =>
    simp only [step, exitFinish] at stepTo
    have ended := fields_endProcess Proc.pid kernel (fun _ _ => rfl) fun _ => rfl
    grind [fields_setState, fields_sched, fields_setProc]
  | kill pid =>
    cases stepTo
    rw [kill]
    split
    next => rfl
    next process _ =>
      refine fields_eq _ kernel rfl (fun other => ?_) fun slot => ?_
      · simp only [setKilled, setProc, Function.update_apply]
        split <;> simp_all
      · dsimp only
        split <;> exact ⟨rfl, rfl⟩
  | _ => exact step_fields _ keeps rfl stepTo

omit [DecidableEq Cpu] in
theorem zombie_of_setProc {process other : ProcId} {proc : Proc}
    (zombie : ((kernel.setProc process proc).proc other).state = .zombie)
    (keeps : proc.state = .zombie → (kernel.proc process).state = .zombie) :
    (kernel.proc other).state = .zombie := by
  rcases eq_or_ne other process with rfl | differs
  · exact keeps (by simpa [setProc] using zombie)
  · simpa [setProc, differs] using zombie

/-- A process becomes a zombie only in the last section of `exit`, by one of its
threads. -/
theorem zombie_of_step (stepTo : kernel.step label = some after) {process : ProcId}
    (zombie : (after.proc process).state = .zombie) :
    (kernel.proc process).state = .zombie ∨ ∃ cpu slot, label = .exitFinish cpu ∧
      kernel.running cpu = some (slot, .exiting) ∧ slot.1 = process := by
  cases label with
  | exitFinish cpu =>
    simp only [step, exitFinish] at stepTo
    split at stepTo
    next slot runs =>
      by_cases same : slot.1 = process
      · exact Or.inr ⟨cpu, slot, rfl, runs, same⟩
      · have ended := fields_endProcess Proc.state kernel (fun _ _ => rfl) (fun _ => rfl) slot
        have others : (after.proc process).state =
            ((kernel.endProcess slot).proc process).state := by
          cases stepTo
          split
          · rfl
          · exact congrArg Proc.state (Function.update_of_ne (Ne.symm same) ..)
        left
        rw [← zombie, others]
        exact (congrFun (congrArg (·.2.1) ended) process).symm
    next => cases stepTo
  | create | createFinish =>
    simp only [step, create, createFinish] at stepTo
    repeat' split at stepTo
    all_goals cases stepTo
    all_goals exact Or.inl zombie
  | fork | forkFail | forkCopy | forkFinish =>
    simp only [step, fork, forkFail, forkCopy, forkFinish] at stepTo
    repeat' split at stepTo
    all_goals cases stepTo
    all_goals first
      | exact Or.inl zombie
      | exact Or.inl (zombie_of_setProc zombie id)
      | exact Or.inl (zombie_of_setProc zombie fun isZombie => by cases isZombie)
  | join | joinRescan | wait | waitRescan =>
    simp only [step] at stepTo
    split at stepTo
    all_goals cases stepTo
    all_goals simp only [joinSection, waitSection] at zombie
    all_goals repeat' split at zombie
    all_goals first
      | exact Or.inl zombie
      | exact Or.inl (zombie_of_setProc zombie fun isZombie => by cases isZombie)
  | kill =>
    cases stepTo
    rw [kill] at zombie
    split at zombie
    · exact Or.inl zombie
    · change ((kernel.setKilled _).proc process).state = .zombie at zombie
      exact Or.inl (zombie_of_setProc zombie id)
  | _ =>
    have same := step_fields Proc.state rfl rfl stepTo
    left
    rw [← zombie]
    exact (congrFun (congrArg (·.2.1) same) process).symm

theorem joinSection_kstack (cpu : Cpu) (slot : Slot) (id : Int) (other : Slot) :
    ((kernel.joinSection cpu slot id).thread other).kstack = (kernel.thread other).kstack := by
  unfold joinSection
  split
  next =>
    apply setThread_kstack
    rfl
  next =>
    split
    next => rfl
    next =>
      split
      · rfl
      · exact kstack_of_fields (fields_fallAsleep Proc.pid ..) other

theorem waitSection_kstack (cpu : Cpu) (slot other : Slot) :
    ((kernel.waitSection cpu slot).thread other).kstack = (kernel.thread other).kstack := by
  unfold waitSection
  split
  next =>
    simp only [goTo, setProc, reapZombies]
    split <;> rfl
  next =>
    split
    · exact kstack_of_fields (fields_fallAsleep Proc.pid ..) other
    · rfl

/-- Only the last sections of `kthread_create` and `fork` set a `kstack`. -/
theorem kstack_of_step (stepTo : kernel.step label = some after)
    {slot : Slot} (differs : kernel.kstackTarget label ≠ some slot) :
    (after.thread slot).kstack = (kernel.thread slot).kstack := by
  cases label with
  | create cpu | fork cpu =>
    simp only [step, create, fork] at stepTo
    split at stepTo
    · split at stepTo <;> cases stepTo
      · rfl
      · apply setThread_kstack
        rfl
    · simp at stepTo
  | createFinish cpu kstack =>
    simp only [step, createFinish] at stepTo
    split at stepTo
    next actor target runs =>
      have other : slot ≠ target := by
        rintro rfl
        simp [kstackTarget, runs] at differs
      split at stepTo <;> obtain rfl := Option.some.inj stepTo <;>
        simp [goTo, setThread, other]
    next => simp at stepTo
  | forkFail cpu | forkCopy cpu kstack =>
    simp only [step, forkFail, forkCopy] at stepTo
    split at stepTo
    next actor child runs =>
      have other : slot ≠ mainThread child := by
        rintro rfl
        simp [kstackTarget, runs] at differs
      cases stepTo
      simp [goTo, setThread, other]
    next => simp at stepTo
  | join | joinRescan | wait | waitRescan =>
    simp only [step] at stepTo
    split at stepTo <;> cases stepTo
    first
      | exact joinSection_kstack _ _ _ _
      | exact waitSection_kstack _ _ _
  | _ => exact kstack_of_fields (step_identity rfl stepTo) slot

/-- The reserved thread gets the page that `kalloc` returns. -/
theorem kstack_of_target {target : Slot} (isTarget : kernel.kstackTarget label = some target)
    (stepTo : kernel.step label = some after) :
    (after.thread target).kstack = kalloced label := by
  cases label with
  | createFinish cpu kstack =>
    simp only [step, createFinish] at stepTo
    split at stepTo
    next actor reserved runs =>
      simp only [kstackTarget, runs] at isTarget
      cases isTarget
      split at stepTo <;> obtain rfl := Option.some.inj stepTo <;>
        simp [goTo, setThread, kalloced]
    next => simp at stepTo
  | forkFail cpu | forkCopy cpu kstack =>
    simp only [step, forkFail, forkCopy] at stepTo
    split at stepTo
    next actor child runs =>
      simp only [kstackTarget, runs] at isTarget
      cases isTarget
      cases stepTo
      simp [goTo, setThread, kalloced]
    next => simp at stepTo
  | _ => simp [kstackTarget] at isTarget

end Steps

end Kernel

end Xv6Kthreads
