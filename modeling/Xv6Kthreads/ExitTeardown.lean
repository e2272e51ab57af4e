import Xv6Kthreads.FsState
import Xv6Kthreads.KernelReaping

/-!
# The release of files and directory in `exit`

Before it takes `ptable.lock`, `exit` closes the files of the process one after
the other and puts back its current directory.  This file follows the threads of
one process through that part of `exit`, and through the calls that change the
files and the directory.  Threads can run at any point, so `exit` releases what
the process has exactly once only if one thread enters it and no other thread
changes the files or the directory from then on.
-/

namespace Xv6Kthreads

open LabelledRun FileSystem Function List

/-- Where a thread stands in the part of `exit` before `ptable.lock`, and
whether it has left it; or, outside `exit`, between the accesses of `close`,
`fdalloc` and `chdir`. -/
inductive ExitStage where
  | outside
  | found (fd : Fd) (file : FileId)
  | removed (file : FileId)
  | reserved (fd : Fd) (file : FileId)
  | changing (dir : Entry)
  | checking (fd : Nat)
  | closing (fd : Fd)
  | clearing (fd : Fd)
  | putting
  | forgetting
  | torn
  | left
  deriving DecidableEq, Repr

/-- The kernel, and the files and the directory of one process.  For the
statements, `entered` says whether a thread of the process has entered `exit`,
`held` and `home` are the files and the directory that it found, and `closed` and
`puts` are the descriptors that were closed and the arguments of `iput` since
then, last one first. -/
structure ExitingProcess (Cpu : Type*) where
  kernel : Kernel Cpu
  ofile : Fd → Option FileId
  cwd : Option Entry
  stage : Fin NTHREAD → ExitStage
  closed : List (Fd × Option FileId)
  puts : List (Option Entry)
  entered : Bool
  held : Fd → Option FileId
  home : Option Entry

namespace ExitingProcess

variable {Cpu : Type*}

/-- The sections of the kernel, the steps of `exit` before `ptable.lock`, and the
accesses of system calls to the files and the directory: `close` looks up its
descriptor, `pipe` gives its first descriptor up because there is no second,
`fdalloc` finds a descriptor free, `chdir` puts the old directory back, and these
calls proceed. -/
inductive Label (Cpu : Type*) where
  | kernel (label : Kernel.Label Cpu)
  | teardown (cpu : Cpu)
  | close (cpu : Cpu) (fd : Fd)
  | pipeFails (cpu : Cpu) (fd : Fd) (file : FileId)
  | fdalloc (cpu : Cpu) (fd : Fd) (file : FileId)
  | chdir (cpu : Cpu) (dir : Entry)
  | proceed (cpu : Cpu)

/-- A process before one of its threads enters `exit`. -/
def start (kernel : Kernel Cpu) (ofile : Fd → Option FileId) (cwd : Entry) :
    ExitingProcess Cpu where
  kernel := kernel
  ofile := ofile
  cwd := some cwd
  stage _ := .outside
  closed := []
  puts := []
  entered := false
  held := ofile
  home := some cwd

/-- The thread of the process that a processor runs inside `exit`. -/
def inExit (process : ProcId) (kernel : Kernel Cpu) (cpu : Cpu) : Option (Fin NTHREAD) :=
  match kernel.running cpu with
  | some (slot, .exiting) => if slot.1 = process then some slot.2 else none
  | _ => none

/-- The thread of the process that a processor runs outside the embedded calls. -/
def inUser (process : ProcId) (kernel : Kernel Cpu) (cpu : Cpu) : Option (Fin NTHREAD) :=
  match kernel.running cpu with
  | some (slot, .user) => if slot.1 = process then some slot.2 else none
  | _ => none

/-- The thread that a section has taken into `exit`. -/
def enters (process : ProcId) (label : Kernel.Label Cpu)
    (after : Kernel Cpu) : Option (Fin NTHREAD) :=
  match label with
  | .exit cpu => inExit process after cpu
  | .threadExit cpu => inExit process after cpu
  | _ => none

/-- The thread of the process that is about to run the section of `exit` under
`ptable.lock`. -/
def finishes (process : ProcId) (kernel : Kernel Cpu) : Kernel.Label Cpu → Option (Fin NTHREAD)
  | .exitFinish cpu => inExit process kernel cpu
  | _ => none

def goTo (state : ExitingProcess Cpu) (thread : Fin NTHREAD) (stage : ExitStage) :
    ExitingProcess Cpu :=
  { state with stage := update state.stage thread stage }

/-- One iteration, or part of it, of the loop over the files, and then the calls
around `iput`. -/
def tear (state : ExitingProcess Cpu) (thread : Fin NTHREAD) : Option (ExitingProcess Cpu) :=
  match state.stage thread with
  | .checking fd =>
    if bounded : fd < NOFILE then
      if (state.ofile ⟨fd, bounded⟩).isSome then
        some (state.goTo thread (.closing ⟨fd, bounded⟩))
      else
        some (state.goTo thread (.checking (fd + 1)))
    else
      some (state.goTo thread .putting)
  | .closing fd =>
    some ({ state with closed := (fd, state.ofile fd) :: state.closed }.goTo thread
      (.clearing fd))
  | .clearing fd =>
    some ({ state with ofile := update state.ofile fd none }.goTo thread
      (.checking (fd.val + 1)))
  | .putting =>
    some ({ state with puts := state.cwd :: state.puts }.goTo thread .forgetting)
  | .forgetting => some ({ state with cwd := none }.goTo thread .torn)
  | _ => none

/-- The accesses after the first one of `close`, `fdalloc` and `chdir`.  The last
one of `close` is its `fileclose`, of a file that is no longer in `ofile`. -/
def proceed (state : ExitingProcess Cpu) (thread : Fin NTHREAD) : Option (ExitingProcess Cpu) :=
  match state.stage thread with
  | .found fd file =>
    some ({ state with
      ofile := update state.ofile fd none
      closed := if state.entered then (fd, some file) :: state.closed else state.closed }.goTo
        thread (.removed file))
  | .removed _ => some (state.goTo thread .outside)
  | .reserved fd file =>
    some ({ state with ofile := update state.ofile fd (some file) }.goTo thread .outside)
  | .changing dir => some ({ state with cwd := some dir }.goTo thread .outside)
  | _ => none

/-- The thread begins a call. -/
def begin (process : ProcId) (state : ExitingProcess Cpu) (cpu : Cpu) (stage : ExitStage) :
    Option (ExitingProcess Cpu) :=
  match inUser process state.kernel cpu with
  | some thread => if state.stage thread = .outside then some (state.goTo thread stage) else none
  | none => none

/-- The stages of the threads after a section of the kernel; a thread slot that
is unused starts over. -/
def stages (process : ProcId) (state : ExitingProcess Cpu) (after : Kernel Cpu)
    (thread : Fin NTHREAD) : ExitStage :=
  if (after.thread (process, thread)).state = .unused then .outside else state.stage thread

variable [DecidableEq Cpu]

/-- A section of the kernel, until `wait` returns the process. -/
def kernelStep (process : ProcId) (state : ExitingProcess Cpu)
    (label : Kernel.Label Cpu) : Option (ExitingProcess Cpu) :=
  if (state.kernel.waiter label).any fun waiter =>
      state.kernel.zombieChild waiter.2.1 == some process then
    none
  else
    match finishes process state.kernel label with
    | some thread =>
      if state.stage thread = .torn then
        (state.kernel.step label).map fun after =>
          { state with kernel := after, stage := update state.stage thread .left }
      else
        none
    | none =>
      match state.kernel.step label with
      | none => none
      | some after =>
        match enters process label after with
        | some thread =>
          if state.stage thread = .outside then
            some { state with
              kernel := after
              stage := update state.stage thread (.checking 0)
              entered := true
              held := if state.entered then state.held else state.ofile
              home := if state.entered then state.home else state.cwd }
          else
            none
        | none => some { state with kernel := after, stage := stages process state after }

def step (process : ProcId) (state : ExitingProcess Cpu) : Label Cpu → Option (ExitingProcess Cpu)
  | .kernel label => kernelStep process state label
  | .teardown cpu =>
    match inExit process state.kernel cpu with
    | some thread => state.tear thread
    | none => none
  | .close cpu fd =>
    match state.ofile fd with
    | some file => begin process state cpu (.found fd file)
    | none => none
  | .pipeFails cpu fd file => begin process state cpu (.found fd file)
  | .fdalloc cpu fd file =>
    match state.ofile fd with
    | some _ => none
    | none => begin process state cpu (.reserved fd file)
  | .chdir cpu dir =>
    begin process { state with
      puts := if state.entered then state.cwd :: state.puts else state.puts } cpu (.changing dir)
  | .proceed cpu =>
    match inUser process state.kernel cpu with
    | some thread => state.proceed thread
    | none => none

/-- Only the last access of `close` is left to the thread. -/
def Removed (process : ProcId) (state : ExitingProcess Cpu) (cpu : Cpu) : Bool :=
  (inUser process state.kernel cpu).any fun thread =>
    match state.stage thread with
    | .removed _ => true
    | _ => false

/-- A thread of the process enters `exit` only when none has entered it before
and none is between the two accesses of `chdir`, and after that no other thread
changes the files or the directory. -/
def Undisturbed (process : ProcId) (state : ExitingProcess Cpu) : Label Cpu → Prop
  | .kernel label =>
    ((state.kernel.step label).bind (enters process label)).isSome →
      state.entered = false ∧ ∀ thread dir, state.stage thread ≠ .changing dir
  | .chdir _ _ => state.entered = false
  | .proceed cpu => state.entered = false ∨ Removed process state cpu
  | _ => True

instance (process : ProcId) (state : ExitingProcess Cpu) :
    DecidablePred (state.Undisturbed process) := by
  intro label
  unfold Undisturbed
  split <;> infer_instance

/-! ## One thread -/

end ExitingProcess

namespace ExitStage

def InExit : ExitStage → Prop
  | .outside | .found _ _ | .removed _ | .reserved _ _ | .changing _ => False
  | _ => True

/-- The loop has closed the file of the descriptor, if there was one. -/
def Closed (fd : Fd) : ExitStage → Prop
  | .checking next => fd.val < next
  | .closing next => fd < next
  | .clearing next => fd ≤ next
  | .putting | .forgetting | .torn | .left => True
  | _ => False

def Cleared (fd : Fd) : ExitStage → Prop
  | .checking next => fd.val < next
  | .closing next => fd < next
  | .clearing next => fd < next
  | .putting | .forgetting | .torn | .left => True
  | _ => False

def Put : ExitStage → Prop
  | .forgetting => True
  | .torn => True
  | .left => True
  | _ => False

def Forgotten : ExitStage → Prop
  | .torn => True
  | .left => True
  | _ => False

end ExitStage

namespace ExitingProcess

variable {Cpu : Type*} {state after : ExitingProcess Cpu}
variable {ofile : Fd → Option FileId} {cwd : Entry} {stage next : ExitStage}

structure Progress (ofile : Fd → Option FileId) (cwd : Entry)
    (state : ExitingProcess Cpu) (stage : ExitStage) : Prop where
  pending : ∀ fd, ¬ stage.Cleared fd → state.ofile fd = ofile fd
  cleared : ∀ fd, stage.Cleared fd → state.ofile fd = none
  correct : ∀ entry ∈ state.closed, stage.Closed entry.1 ∧ entry.2 = ofile entry.1 ∧ entry.2 ≠ none
  once : (state.closed.map Prod.fst).Nodup
  complete : ∀ fd, stage.Closed fd → ofile fd ≠ none → (fd, ofile fd) ∈ state.closed
  closing : ∀ fd, stage = .closing fd → ofile fd ≠ none
  home : ¬ stage.Forgotten → state.cwd = some cwd
  unput : ¬ stage.Put → state.puts = []
  put : stage.Put → state.puts = [some cwd]

/-- The first thread enters `exit`. -/
theorem Progress.enter (closed : state.closed = []) (puts : state.puts = [])
    (home : state.cwd = some cwd) : Progress state.ofile cwd state (.checking 0) where
  pending _ _ := rfl
  cleared fd isCleared := absurd isCleared (Nat.not_lt_zero _)
  correct _ isClosed := by
    rw [closed] at isClosed
    cases isClosed
  once := by
    rw [closed]
    exact nodup_nil
  complete fd isClosed := absurd isClosed (Nat.not_lt_zero _)
  closing _ isStage := by cases isStage
  home _ := home
  unput _ := puts
  put isPut := isPut.elim

variable {stages : Fin NTHREAD → ExitStage}

theorem Progress.goOn (progress : Progress ofile cwd state stage)
    (later : ∀ fd, stage.Closed fd → next.Closed fd)
    (same : ∀ fd, next.Cleared fd ↔ stage.Cleared fd ∨
      next.Closed fd ∧ state.ofile fd = none)
    (fresh : ∀ fd, next.Closed fd → stage.Closed fd ∨ ofile fd = none)
    (closing : ∀ fd, next = .closing fd → ofile fd ≠ none)
    (notPut : ¬ next.Put) (notPutBefore : ¬ stage.Put)
    (notForgotten : ¬ stage.Forgotten) :
    Progress ofile cwd { state with stage := stages } next where
  pending fd isPending :=
    progress.pending fd fun isCleared => isPending ((same fd).mpr (Or.inl isCleared))
  cleared fd isCleared := by
    rcases (same fd).mp isCleared with before | ⟨-, isNone⟩
    · exact progress.cleared fd before
    · exact isNone
  correct entry isClosed := by
    obtain ⟨wasClosed, correct⟩ := progress.correct entry isClosed
    exact ⟨later entry.1 wasClosed, correct⟩
  once := progress.once
  complete fd isClosed isOpen := by
    rcases fresh fd isClosed with before | isNone
    · exact progress.complete fd before isOpen
    · exact absurd isNone isOpen
  closing := closing
  home _ := progress.home notForgotten
  unput _ := progress.unput notPutBefore
  put isPut := absurd isPut notPut

theorem Progress.close {fd : Fd} (progress : Progress ofile cwd state (.closing fd)) :
    Progress ofile cwd { state with
      stage := stages
      closed := (fd, state.ofile fd) :: state.closed } (.clearing fd) := by
  have isFile : state.ofile fd = ofile fd := progress.pending fd (Nat.lt_irrefl fd.val)
  refine { progress with correct := ?_, once := ?_, complete := ?_, closing := nofun }
  · intro entry isClosed
    rcases mem_cons.mp isClosed with rfl | before
    · refine ⟨Nat.le_refl fd.val, isFile, ?_⟩
      rw [isFile]
      exact progress.closing fd rfl
    · obtain ⟨wasClosed, correct⟩ := progress.correct entry before
      exact ⟨Nat.le_of_lt wasClosed, correct⟩
  · rw [map_cons, nodup_cons]
    refine ⟨?_, progress.once⟩
    intro again
    obtain ⟨entry, before, isFd⟩ := mem_map.mp again
    have wasClosed := (progress.correct entry before).1
    rw [isFd] at wasClosed
    exact Nat.lt_irrefl fd.val wasClosed
  · intro other isClosed isOpen
    rcases eq_or_ne other fd with rfl | same
    · rw [← isFile]
      exact mem_cons_self
    · refine mem_cons_of_mem _ (progress.complete other ?_ isOpen)
      exact lt_of_le_of_ne isClosed same

theorem Progress.clear {fd : Fd} (progress : Progress ofile cwd state (.clearing fd)) :
    Progress ofile cwd { state with
      stage := stages
      ofile := update state.ofile fd none } (.checking (fd.val + 1)) := by
  refine { progress with
    pending := ?_, cleared := ?_, correct := ?_, complete := ?_, closing := nofun }
  · intro other isPending
    have later : ¬ other.val < fd.val + 1 := isPending
    have differs : other ≠ fd := by
      rintro rfl
      omega
    refine (update_of_ne differs _ _).trans (progress.pending other ?_)
    intro before
    have isBefore : other.val < fd.val := before
    omega
  · intro other isCleared
    have isBefore : other.val < fd.val + 1 := isCleared
    rcases eq_or_ne other fd with rfl | same
    · exact update_self ..
    · refine (update_of_ne same _ _).trans (progress.cleared other ?_)
      have differs : other.val ≠ fd.val := fun sameVal => same (Fin.ext sameVal)
      have before : other.val < fd.val := by omega
      exact before
  · intro entry isClosed
    obtain ⟨wasClosed, correct⟩ := progress.correct entry isClosed
    exact ⟨Nat.lt_succ_of_le wasClosed, correct⟩
  · exact fun other isClosed => progress.complete other (Nat.le_of_lt_succ isClosed)

theorem Progress.afterLoop (progress : Progress ofile cwd state stage)
    (files : after.ofile = state.ofile) (closed : after.closed = state.closed)
    (done : ∀ fd, stage.Closed fd ∧ stage.Cleared fd)
    (stillDone : ∀ fd, next.Closed fd ∧ next.Cleared fd) (notClosing : ∀ fd, next ≠ .closing fd)
    (home : ¬ next.Forgotten → after.cwd = some cwd) (unput : ¬ next.Put → after.puts = [])
    (put : next.Put → after.puts = [some cwd]) :
    Progress ofile cwd after next where
  pending fd isPending := absurd (stillDone fd).2 isPending
  cleared fd _ := by
    rw [files]
    exact progress.cleared fd (done fd).2
  correct entry isClosed := by
    rw [closed] at isClosed
    exact ⟨(stillDone entry.1).1, (progress.correct entry isClosed).2⟩
  once := by
    rw [closed]
    exact progress.once
  complete fd _ := by
    rw [closed]
    exact progress.complete fd (done fd).1
  closing fd isClosing := absurd isClosing (notClosing fd)
  home := home
  unput := unput
  put := put

theorem before_of_ne {fd : Nat} {other : Fd} (bounded : fd < NOFILE)
    (isBefore : other.val < fd + 1) (differs : other ≠ ⟨fd, bounded⟩) :
    other.val < fd := by
  have differsVal : other.val ≠ fd := fun same => differs (Fin.ext same)
  omega

theorem Progress.tear {thread : Fin NTHREAD}
    (progress : Progress ofile cwd state (state.stage thread))
    (result : state.tear thread = some after) :
    ∃ next, Progress ofile cwd after next ∧
      after.stage = update state.stage thread next ∧ after.entered = state.entered ∧
      after.held = state.held ∧ after.home = state.home := by
  unfold ExitingProcess.tear goTo at result
  generalize state.stage thread = stage at progress result
  cases stage with
  | outside | found | removed | reserved | changing | torn | left => cases result
  | checking fd =>
    dsimp only at result
    split at result
    next bounded =>
      have isFile : state.ofile ⟨fd, bounded⟩ = ofile ⟨fd, bounded⟩ :=
        progress.pending ⟨fd, bounded⟩ (Nat.lt_irrefl fd)
      split at result
      next isOpen =>
        cases result
        refine ⟨.closing ⟨fd, bounded⟩, ?_, rfl, rfl, rfl, rfl⟩
        refine progress.goOn (fun _ => id) ?_ (fun _ => Or.inl) ?_ id id id
        · intro other
          refine ⟨Or.inl, ?_⟩
          rintro (before | ⟨before, -⟩)
          · exact before
          · exact before
        · rintro other ⟨⟩
          rw [← isFile]
          exact Option.isSome_iff_ne_none.mp isOpen
      next isNone =>
        rw [Bool.not_eq_true, Option.isSome_eq_false_iff, Option.isNone_iff_eq_none] at isNone
        cases result
        refine ⟨.checking (fd + 1), ?_, rfl, rfl, rfl, rfl⟩
        refine progress.goOn (fun _ => Nat.lt_succ_of_lt) ?_ ?_ (by simp) id id id
        · intro other
          refine ⟨fun isBefore => ?_, ?_⟩
          · by_cases same : other = ⟨fd, bounded⟩
            · rw [same]
              exact Or.inr ⟨Nat.lt_succ_self fd, isNone⟩
            · exact Or.inl (before_of_ne bounded isBefore same)
          · rintro (before | ⟨before, -⟩)
            · exact Nat.lt_succ_of_lt before
            · exact before
        · intro other isBefore
          by_cases same : other = ⟨fd, bounded⟩
          · rw [same, ← isFile]
            exact Or.inr isNone
          · exact Or.inl (before_of_ne bounded isBefore same)
    next =>
      cases result
      refine ⟨.putting, ?_, rfl, rfl, rfl, rfl⟩
      refine progress.afterLoop rfl rfl ?_ (fun _ => ⟨trivial, trivial⟩)
        (by simp) (fun _ => progress.home id) (fun _ => progress.unput id)
        (fun isPut => isPut.elim)
      intro other
      have before : other.val < fd := by omega
      exact ⟨before, before⟩
  | closing fd =>
    cases result
    exact ⟨.clearing fd, progress.close, rfl, rfl, rfl, rfl⟩
  | clearing fd =>
    cases result
    exact ⟨.checking (fd.val + 1), progress.clear, rfl, rfl, rfl, rfl⟩
  | putting =>
    cases result
    refine ⟨.forgetting, ?_, rfl, rfl, rfl, rfl⟩
    refine progress.afterLoop rfl rfl (fun _ => ⟨trivial, trivial⟩)
      (fun _ => ⟨trivial, trivial⟩) (by simp) (fun _ => progress.home id)
      (fun notPut => absurd trivial notPut) (fun _ => ?_)
    rw [progress.home id, progress.unput id]
  | forgetting =>
    cases result
    exact ⟨.torn, progress.afterLoop rfl rfl (fun _ => ⟨trivial, trivial⟩)
      (fun _ => ⟨trivial, trivial⟩) (by simp)
      (fun notForgotten => absurd trivial notForgotten)
      (fun notPut => absurd trivial notPut)
      (fun _ => progress.put trivial), rfl, rfl, rfl, rfl⟩

/-! ## All threads of the process -/

/-- No thread has entered `exit`. -/
structure Before (state : ExitingProcess Cpu) : Prop where
  entered : state.entered = false
  outside : ∀ thread, ¬ (state.stage thread).InExit
  closed : state.closed = []
  puts : state.puts = []
  home : state.cwd ≠ none

/-- One thread has entered `exit` and has come to the given stage. -/
structure FirstExit (cwd : Entry) (state : ExitingProcess Cpu) (stage : ExitStage) : Prop where
  progress : Progress state.held cwd state stage
  entered : state.entered = true
  home : state.home = some cwd
  stages : ∀ thread, (state.stage thread).InExit → state.stage thread = stage
  alone : ∀ first second, (state.stage first).InExit → (state.stage second).InExit →
    first = second

def Orderly (state : ExitingProcess Cpu) : Prop :=
  Before state ∨ ∃ cwd stage, FirstExit cwd state stage

/-- Nothing but the kernel and the stages of threads outside `exit` changes. -/
theorem FirstExit.others (first : FirstExit cwd state stage) (kernel : Kernel Cpu)
    (same : ∀ thread, (stages thread).InExit → stages thread = state.stage thread) :
    FirstExit cwd { state with kernel := kernel, stage := stages } stage where
  progress := { first.progress with }
  entered := first.entered
  home := first.home
  stages thread inside := by
    change stages thread = stage
    rw [same thread inside]
    exact first.stages thread (same thread inside ▸ inside)
  alone one two oneInside twoInside := first.alone one two
    (same one oneInside ▸ oneInside) (same two twoInside ▸ twoInside)

theorem Before.others (before : Before state) (kernel : Kernel Cpu)
    (same : ∀ thread, (stages thread).InExit → stages thread = state.stage thread) :
    Before { state with kernel := kernel, stage := stages } where
  entered := before.entered
  outside thread inside := before.outside thread (same thread inside ▸ inside)
  closed := before.closed
  puts := before.puts
  home := before.home

theorem Orderly.others (orderly : Orderly state) (kernel : Kernel Cpu)
    (same : ∀ thread, (stages thread).InExit → stages thread = state.stage thread) :
    Orderly { state with kernel := kernel, stage := stages } :=
  orderly.imp (fun before => before.others kernel same) fun ⟨cwd, stage, first⟩ =>
    ⟨cwd, stage, first.others kernel same⟩

variable {thread : Fin NTHREAD}

theorem inExit_update (notInside : ¬ next.InExit) (other : Fin NTHREAD)
    (inside : (update state.stage thread next other).InExit) :
    update state.stage thread next other = state.stage other := by
  rcases eq_or_ne other thread with rfl | differs
  · rw [update_self] at inside
    exact absurd inside notInside
  · exact update_of_ne differs ..

/-- The only thread inside `exit` has come to its next stage. -/
theorem FirstExit.only (progress : Progress after.held cwd after next)
    (others : ∀ other, other ≠ thread → ¬ (state.stage other).InExit)
    (isStage : after.stage = update state.stage thread next) (entered : after.entered = true)
    (home : after.home = some cwd) : FirstExit cwd after next := by
  have isThread : ∀ other, (after.stage other).InExit → other = thread := by
    intro other inside
    by_contra differs
    rw [isStage, update_of_ne differs] at inside
    exact others other differs inside
  refine ⟨progress, entered, home, ?_, ?_⟩
  · intro other inside
    rw [isThread other inside, isStage]
    exact update_self ..
  · intro one two oneInside twoInside
    rw [isThread one oneInside, isThread two twoInside]

theorem FirstExit.advance (first : FirstExit cwd state stage)
    (inside : (state.stage thread).InExit) (progress : Progress after.held cwd after next)
    (isStage : after.stage = update state.stage thread next)
    (entered : after.entered = state.entered) (home : after.home = state.home) :
    FirstExit cwd after next := by
  refine .only progress ?_ isStage (entered.trans first.entered) (home.trans first.home)
  intro other differs otherInside
  exact differs (first.alone other thread otherInside inside)

/-- A thread inside `exit` is the only one. -/
theorem Orderly.firstExit (orderly : Orderly state) (inside : (state.stage thread).InExit) :
    ∃ cwd, FirstExit cwd state (state.stage thread) := by
  rcases orderly with before | ⟨cwd, stage, first⟩
  · exact absurd inside (before.outside thread)
  · obtain rfl := first.stages thread inside
    exact ⟨cwd, first⟩

variable {process : ProcId}

theorem Orderly.begin {cpu : Cpu} (orderly : Orderly state) (notInside : ¬ next.InExit)
    (result : ExitingProcess.begin process state cpu next = some after) : Orderly after := by
  unfold ExitingProcess.begin at result
  split at result
  next thread _ =>
    obtain ⟨-, result⟩ := Option.ite_none_right_eq_some.mp result
    cases result
    exact orderly.others state.kernel (inExit_update notInside)
  next => cases result

/-- An access before a thread enters `exit`. -/
theorem Before.proceed (before : Before state) (result : state.proceed thread = some after) :
    Before after := by
  unfold ExitingProcess.proceed ExitingProcess.goTo at result
  have still : ∀ next : ExitStage, ¬ next.InExit → ∀ other,
      ¬ (update state.stage thread next other).InExit := by
    intro next notInside other inside
    rw [inExit_update notInside other inside] at inside
    exact before.outside other inside
  cases current : state.stage thread with
  | found fd file =>
    rw [current] at result
    cases result
    refine ⟨before.entered, still _ id, ?_, before.puts, before.home⟩
    simp [before.entered, before.closed]
  | removed file | reserved fd file =>
    rw [current] at result
    cases result
    exact ⟨before.entered, still _ id, before.closed, before.puts, before.home⟩
  | changing dir =>
    rw [current] at result
    cases result
    exact ⟨before.entered, still _ id, before.closed, before.puts, nofun⟩
  | _ => simp [current] at result

variable [DecidableEq Cpu]

theorem Orderly.kernelStep (orderly : Orderly state) {label : Kernel.Label Cpu}
    (undisturbed : state.Undisturbed process (.kernel label))
    (result : ExitingProcess.kernelStep process state label = some after) : Orderly after := by
  unfold ExitingProcess.kernelStep at result
  split at result
  · cases result
  split at result
  next thread _ =>
    obtain ⟨isTorn, result⟩ := Option.ite_none_right_eq_some.mp result
    obtain ⟨kernel, -, rfl⟩ := Option.map_eq_some_iff.mp result
    have inside : (state.stage thread).InExit := by
      rw [isTorn]
      trivial
    obtain ⟨cwd, first⟩ := orderly.firstExit inside
    have progress := first.progress
    rw [isTorn] at progress
    refine Or.inr ⟨cwd, .left, first.advance inside ?_ rfl rfl rfl⟩
    exact progress.afterLoop rfl rfl (fun _ => ⟨trivial, trivial⟩)
      (fun _ => ⟨trivial, trivial⟩) (by simp)
      (fun notForgotten => absurd trivial notForgotten)
      (fun notPut => absurd trivial notPut) (fun _ => progress.put trivial)
  next =>
    split at result
    · cases result
    next kernel kernelStep =>
      split at result
      next thread isEntering =>
        obtain ⟨-, result⟩ := Option.ite_none_right_eq_some.mp result
        cases result
        have notEntered : state.entered = false := by
          refine (undisturbed ?_).1
          rw [kernelStep, Option.bind_some, isEntering]
          rfl
        rcases orderly with before | ⟨cwd, stage, first⟩
        · obtain ⟨cwd, isHome⟩ := Option.ne_none_iff_exists'.mp before.home
          have progress := Progress.enter before.closed before.puts isHome
          refine Or.inr ⟨cwd, .checking 0, .only ?_ (fun other _ => before.outside other)
            rfl rfl ?_⟩
          · simp only [notEntered]
            exact { progress with }
          · simpa [notEntered] using isHome
        · rw [first.entered] at notEntered
          cases notEntered
      next =>
        cases result
        refine orderly.others kernel fun thread inside => ?_
        unfold ExitingProcess.stages at inside ⊢
        split at inside
        · exact inside.elim
        next used => exact if_neg used

theorem Orderly.step (orderly : Orderly state) {label : Label Cpu}
    (undisturbed : state.Undisturbed process label)
    (result : ExitingProcess.step process state label = some after) : Orderly after := by
  cases label with
  | kernel label => exact orderly.kernelStep undisturbed result
  | teardown cpu =>
    simp only [ExitingProcess.step] at result
    split at result
    next thread _ =>
      have inside : (state.stage thread).InExit := by
        cases current : state.stage thread <;> simp [tear, current] at result <;> trivial
      obtain ⟨cwd, first⟩ := orderly.firstExit inside
      obtain ⟨next, progress, isStage, entered, held, home⟩ := first.progress.tear result
      rw [← held] at progress
      exact Or.inr ⟨cwd, next, first.advance inside progress isStage entered home⟩
    next => cases result
  | close cpu fd =>
    simp only [ExitingProcess.step] at result
    split at result
    · exact orderly.begin id result
    · cases result
  | pipeFails cpu fd file => exact orderly.begin id result
  | fdalloc cpu fd file =>
    simp only [ExitingProcess.step] at result
    split at result
    · cases result
    · exact orderly.begin id result
  | chdir cpu dir =>
    have notEntered : state.entered = false := undisturbed
    simp only [ExitingProcess.step] at result
    rw [if_neg (ne_true_of_eq_false notEntered)] at result
    exact orderly.begin id result
  | proceed cpu =>
    simp only [ExitingProcess.step] at result
    split at result
    next thread runs =>
      rcases orderly with before | ⟨cwd, stage, first⟩
      · exact Or.inl (before.proceed result)
      · -- after a thread has entered `exit` only `fileclose` is left of a `close`
        have isRemoved : Removed process state cpu :=
          undisturbed.resolve_left (by simp [first.entered])
        simp only [Removed, runs, Option.any_some] at isRemoved
        split at isRemoved
        next file current =>
          simp only [ExitingProcess.proceed, current] at result
          cases result
          exact Or.inr ⟨cwd, stage, first.others state.kernel (inExit_update id)⟩
        next => cases isRemoved
    next => cases result

/-- The first process forks a child with two threads, and all three threads
run. -/
def twoThreads (first second third : Fin 3) : List (Kernel.Label (Fin 3)) :=
  [.scheduler first, .fork first, .forkCopy first 7, .forkFinish first, .scheduler second,
    .create second, .createFinish second (some 8), .scheduler third]

def oneFile (fd : Fd) : Option FileId :=
  if fd.val = 0 then some ⟨5, by decide⟩ else none

end ExitingProcess

end Xv6Kthreads
