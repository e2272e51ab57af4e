import Xv6Kthreads.ProcessSteps

/-!
# Parents, children and `wait`

Processes with one thread fork, exit and wait in any order and on any number
of processors.  For the statements we keep accounts of the three calls: which
process ids `fork` has returned, which processes have exited, and what `wait`
has returned to whom.
-/

namespace Xv6Kthreads

open LabelledRun Kernel Function List

namespace Kernel

variable {Cpu : Type*} {kernel after : Kernel Cpu}

def parents (kernel : Kernel Cpu) (process : ProcId) : Option ProcId :=
  (kernel.proc process).parent

def pids (kernel : Kernel Cpu) (process : ProcId) : Int :=
  (kernel.proc process).pid

theorem parents_update {child : ProcId} {proc : Proc}
    (procs : after.proc = update kernel.proc child proc) :
    after.parents = update kernel.parents child proc.parent := by
  funext process
  rw [parents, procs]
  rcases eq_or_ne process child with rfl | same
  · simp
  · simp [same, parents]

theorem parents_eq (procs : after.proc = kernel.proc) : after.parents = kernel.parents := by
  funext process
  rw [parents, procs, parents]

theorem adopt_parent (kernel : Kernel Cpu) (process child : ProcId) :
    (kernel.adopt process child).parent = if kernel.parents child = some process then some initproc
      else kernel.parents child := by
  unfold adopt parents
  split <;> rfl

theorem adopt_pid (kernel : Kernel Cpu) (process child : ProcId) :
    (kernel.adopt process child).pid = (kernel.proc child).pid := by
  unfold adopt
  split <;> rfl

end Kernel

structure Ties (parent : ProcId → Option ProcId) (doing : ProcId → Doing) : Prop where
  linked : Linked doing
  unique : ∀ first second child copied copied', doing first = .building child copied →
      doing second = .building child copied' → first = second
  copied : ∀ process child, doing process = .building child true → parent child = some process
  init : (doing initproc).Live
  stays : doing initproc ≠ .exiting
  root : parent initproc = none
  orphan : ∀ process, doing process = .unused ∨ doing process = .embryo false →
    parent process = none
  live : ∀ process other, parent process = some other → (doing other).Live
  distinct : ∀ process, parent process ≠ some process
  asleep : ∀ process child, doing process = .asleep →
    parent child = some process → doing child ≠ .zombie

section Ties

variable {parent : ProcId → Option ProcId} {doing changed : ProcId → Doing}
variable {process child : ProcId}

theorem Ties.rouse (ties : Ties parent doing) (roused : Roused doing changed) :
    Ties parent changed := by
  obtain ⟨linked, unique, copied, init, stays, root, orphan, live, distinct, asleep⟩ := ties
  refine ⟨?_, ?_, ?_, ?_, ?_, root, ?_, ?_, distinct, ?_⟩ <;>
    grind [Linked, Roused, Doing.Live, Doing.state]

/-- What a caller and its child do after a section of `fork` or `wait`. -/
def paired (doing : ProcId → Doing) (process child : ProcId)
    (now childNow : Doing) : ProcId → Doing :=
  update (update doing child childNow) process now

theorem update_cases {now what : Doing} {other : ProcId}
    (isDoing : update doing process now other = what) :
    other = process ∧ now = what ∨ other ≠ process ∧ doing other = what := by
  rcases eq_or_ne other process with rfl | same
  · rw [update_self] at isDoing
    exact Or.inl ⟨rfl, isDoing⟩
  · rw [update_of_ne same] at isDoing
    exact Or.inr ⟨same, isDoing⟩

theorem paired_cases {now childNow : Doing} {other : ProcId} {what : Doing}
    (isDoing : paired doing process child now childNow other = what) :
    other = process ∧ now = what ∨ other ≠ process ∧ other = child ∧ childNow = what ∨
        other ≠ process ∧ other ≠ child ∧ doing other = what := by
  rcases update_cases isDoing with isCaller | ⟨notCaller, isDoing⟩
  · exact Or.inl isCaller
  · rcases update_cases isDoing with isChild | isOther
    · exact Or.inr (Or.inl ⟨notCaller, isChild⟩)
    · exact Or.inr (Or.inr ⟨notCaller, isOther⟩)

structure Pairing (doing : ProcId → Doing) (process child : ProcId)
    (now childNow : Doing) (up : Option ProcId) : Prop where
  live : (doing process).Live
  notLive : ¬ (doing child).Live
  stillLive : now.Live := by rfl
  awake : now ≠ .asleep := by simp
  staying : now ≠ .exiting := by simp
  childAwake : childNow ≠ .asleep := by simp
  notZombie : childNow ≠ .zombie := by simp
  notBuilder : ∀ other copied, childNow ≠ .building other copied := by simp
  links : ∀ other copied, now = .building other copied → other = child ∧ childNow = .embryo copied ∧
      (copied = true → up = some process) := by simp
  alone : ∀ other copied, other ≠ process → doing other ≠ .building child copied
  upLive : ∀ other, up = some other → (doing other).Live
  orphan : childNow = .unused ∨ childNow = .embryo false → up = none := by simp

theorem Ties.pair {now childNow : Doing} {up : Option ProcId} (ties : Ties parent doing)
    (pairing : Pairing doing process child now childNow up) :
    Ties (update parent child up) (paired doing process child now childNow) := by
  have differs : process ≠ child := by
    rintro rfl
    exact pairing.notLive pairing.live
  have stays : ∀ other, (doing other).Live →
      (paired doing process child now childNow other).Live := by
    intro other wasLive
    rcases paired_cases (Eq.refl (paired doing process child now childNow other)) with
      ⟨-, same⟩ | ⟨-, rfl, -⟩ | ⟨-, -, same⟩
    · rw [← same]
      exact pairing.stillLive
    · exact absurd wasLive pairing.notLive
    · rwa [← same]
  -- The caller builds the child, and whoever else builds a process did so before.
  have buildsCases : ∀ {builder built copied},
      paired doing process child now childNow builder = .building built copied →
      builder = process ∧ built = child ∧ childNow = .embryo copied ∧
          (copied = true → up = some process) ∨
        built ≠ child ∧ doing builder = .building built copied := by
    intro builder built copied builds
    rcases paired_cases builds with ⟨rfl, isNow⟩ | ⟨-, rfl, isNow⟩ | ⟨notProcess, -, was⟩
    · exact Or.inl ⟨rfl, pairing.links built copied isNow⟩
    · exact absurd isNow (pairing.notBuilder built copied)
    · refine Or.inr ⟨?_, was⟩
      rintro rfl
      exact pairing.alone builder copied notProcess was
  refine ⟨?_, ?_, ?_, stays _ ties.init, ?_, ?_, ?_, ?_, ?_, ?_⟩
  · intro builder built copied builds
    rcases buildsCases builds with ⟨rfl, rfl, rfl, -⟩ | ⟨notChild, was⟩
    · simp [paired, Ne.symm differs]
    · have embryo := ties.linked builder built copied was
      have notCaller : built ≠ process := by
        rintro rfl
        have wasLive := pairing.live
        rw [embryo] at wasLive
        cases wasLive
      simp [paired, notChild, notCaller, embryo]
  · intro first second built copied copied' firstBuilds secondBuilds
    rcases buildsCases firstBuilds with ⟨rfl, isChild, -⟩ | ⟨firstNe, firstWas⟩
    · rcases buildsCases secondBuilds with ⟨rfl, -⟩ | ⟨secondNe, -⟩
      · rfl
      · exact absurd isChild secondNe
    · rcases buildsCases secondBuilds with ⟨-, isChild, -⟩ | ⟨-, secondWas⟩
      · exact absurd isChild firstNe
      · exact ties.unique first second built copied copied' firstWas secondWas
  · intro builder built builds
    rcases buildsCases builds with ⟨rfl, rfl, -, isUp⟩ | ⟨notChild, was⟩
    · rw [update_self, isUp rfl]
    · rw [update_of_ne notChild]
      exact ties.copied builder built was
  · intro exits
    rcases paired_cases exits with ⟨-, isNow⟩ | ⟨-, isChild, -⟩ | ⟨-, -, was⟩
    · exact pairing.staying isNow
    · exact pairing.notLive (isChild ▸ ties.init)
    · exact ties.stays was
  · rw [update_of_ne, ties.root]
    rintro isChild
    exact pairing.notLive (isChild ▸ ties.init)
  · intro other isOrphan
    rcases eq_or_ne other child with rfl | isChild
    · rw [update_self]
      apply pairing.orphan
      have isNow : paired doing process other now childNow other =
          childNow := by
        simp [paired, Ne.symm differs]
      rwa [isNow] at isOrphan
    · rw [update_of_ne isChild]
      apply ties.orphan
      have notCaller : other ≠ process := by
        rintro rfl
        have stillLive := stays other pairing.live
        rcases isOrphan with isNow | isNow
        · rw [isNow] at stillLive
          cases stillLive
        · rw [isNow] at stillLive
          cases stillLive
      simpa [paired, notCaller, isChild] using isOrphan
  · intro other above isParent
    apply stays
    rcases eq_or_ne other child with rfl | isChild
    · rw [update_self] at isParent
      exact pairing.upLive above isParent
    · rw [update_of_ne isChild] at isParent
      exact ties.live other above isParent
  · intro other isParent
    rcases eq_or_ne other child with rfl | isChild
    · rw [update_self] at isParent
      exact pairing.notLive (pairing.upLive other isParent)
    · rw [update_of_ne isChild] at isParent
      exact ties.distinct other isParent
  · intro other below asleep isParent zombie
    rcases paired_cases asleep with ⟨-, isNow⟩ | ⟨-, -, isNow⟩ | ⟨-, -, wasAsleep⟩
    · exact pairing.awake isNow
    · exact pairing.childAwake isNow
    · rcases paired_cases zombie with ⟨-, isNow⟩ | ⟨-, -, isNow⟩ | ⟨-, notChild, wasZombie⟩
      · have stillLive := pairing.stillLive
        rw [isNow] at stillLive
        cases stillLive
      · exact pairing.notZombie isNow
      · rw [update_of_ne notChild] at isParent
        exact ties.asleep other below wasAsleep isParent wasZombie

theorem Ties.goOn {next : Doing} (ties : Ties parent doing) (live : (doing process).Live)
    (stillLive : next.Live) (notBuilder : ∀ child copied, next ≠ .building child copied)
    (stays : process = initproc → next ≠ .exiting)
    (sleeps : next = .asleep → ∀ child, parent child = some process → doing child ≠ .zombie) :
    Ties parent (update doing process next) := by
  have staysLive : ∀ other, (doing other).Live → (update doing process next other).Live := by
    intro other wasLive
    rcases update_cases (Eq.refl (update doing process next other)) with ⟨-, same⟩ | ⟨-, same⟩
    · rwa [← same]
    · rwa [← same]
  have builtBefore : ∀ {builder built copied}, update doing process next builder =
      .building built copied → doing builder = .building built copied := by
    intro builder built copied builds
    rcases update_cases builds with ⟨-, isNow⟩ | ⟨-, was⟩
    · exact absurd isNow (notBuilder built copied)
    · exact was
  refine ⟨?_, ?_, ?_, staysLive _ ties.init, ?_, ties.root, ?_, ?_, ties.distinct, ?_⟩
  · intro builder built copied builds
    have embryo := ties.linked builder built copied (builtBefore builds)
    rw [update_of_ne, embryo]
    rintro rfl
    rw [embryo] at live
    cases live
  · intro first second built copied copied' firstBuilds secondBuilds
    exact ties.unique first second built copied copied' (builtBefore firstBuilds)
      (builtBefore secondBuilds)
  · exact fun builder built builds => ties.copied builder built (builtBefore builds)
  · intro exits
    rcases update_cases exits with ⟨isInit, isNow⟩ | ⟨-, was⟩
    · exact stays isInit.symm isNow
    · exact ties.stays was
  · intro other isOrphan
    apply ties.orphan
    rcases isOrphan with isNow | isNow
    · rcases update_cases isNow with ⟨-, rfl⟩ | ⟨-, was⟩
      · cases stillLive
      · exact Or.inl was
    · rcases update_cases isNow with ⟨-, rfl⟩ | ⟨-, was⟩
      · cases stillLive
      · exact Or.inr was
  · exact fun other above isParent =>
      staysLive above (ties.live other above isParent)
  · intro other child asleep isParent zombie
    rcases update_cases zombie with ⟨-, rfl⟩ | ⟨-, wasZombie⟩
    · cases stillLive
    · rcases update_cases asleep with ⟨rfl, isNow⟩ | ⟨-, wasAsleep⟩
      · exact sleeps isNow child isParent wasZombie
      · exact ties.asleep other child wasAsleep isParent wasZombie

/-- The process whose parent is `process` gets `initproc` as its parent. -/
def adopted (parent : ProcId → Option ProcId) (process other : ProcId) : Option ProcId :=
  if parent other = some process then some initproc else parent other

theorem Ties.die (ties : Ties parent doing)
    (exits : doing process = .exiting) (roused : Roused doing changed)
    (wakes : ∀ other, parent process = some other → changed other ≠ .asleep)
    (heir : ∀ child, parent child = some process → doing child = .zombie →
      changed initproc ≠ .asleep) :
    Ties (adopted parent process) (update changed process .zombie) := by
  have notInit : initproc ≠ process := by
    rintro rfl
    exact ties.stays exits
  have rousedTies := ties.rouse roused
  have exiting : changed process = .exiting := by
    rcases roused process with same | ⟨asleep, -⟩
    · rw [same, exits]
    · rw [exits] at asleep
      cases asleep
  have above : ∀ {other up}, adopted parent process other = some up →
      parent other = some process ∧ up = initproc ∨
        parent other ≠ some process ∧ parent other = some up := by
    intro other up isParent
    rw [adopted] at isParent
    split at isParent
    next wasParent => exact Or.inl ⟨wasParent, (Option.some.inj isParent).symm⟩
    next notParent => exact Or.inr ⟨notParent, isParent⟩
  have old : ∀ {other what}, update changed process .zombie other = what → what ≠ .zombie →
      other ≠ process ∧ changed other = what := by
    intro other what isDoing notZombie
    exact (update_cases isDoing).resolve_left fun now => notZombie now.2.symm
  refine ⟨?_, ?_, ?_, ?_, ?_, ?_, ?_, ?_, ?_, ?_⟩
  · intro builder built copied builds
    have embryo := rousedTies.linked builder built copied (old builds (by simp)).2
    rw [update_of_ne, embryo]
    rintro rfl
    rw [embryo] at exiting
    cases exiting
  · intro first second built copied copied' firstBuilds secondBuilds
    exact rousedTies.unique first second built copied copied' (old firstBuilds (by simp)).2
      (old secondBuilds (by simp)).2
  · intro builder built builds
    obtain ⟨notProcess, was⟩ := old builds (by simp)
    have isParent := rousedTies.copied builder built was
    rw [adopted, if_neg, isParent]
    rintro wasParent
    rw [isParent] at wasParent
    exact notProcess (Option.some.inj wasParent)
  · rw [update_of_ne notInit]
    exact rousedTies.init
  · rw [update_of_ne notInit]
    exact rousedTies.stays
  · rw [adopted, ties.root]
    rfl
  · intro other isOrphan
    have wasOrphan : parent other = none := by
      apply rousedTies.orphan
      rcases isOrphan with isNow | isNow
      · exact Or.inl (old isNow (by simp)).2
      · exact Or.inr (old isNow (by simp)).2
    rw [adopted, wasOrphan]
    rfl
  · intro other up isParent
    rcases above isParent with ⟨-, rfl⟩ | ⟨notParent, wasParent⟩
    · rw [update_of_ne notInit]
      exact rousedTies.init
    · rw [update_of_ne]
      · exact rousedTies.live other up wasParent
      · rintro rfl
        exact notParent wasParent
  · intro other isParent
    rcases above isParent with ⟨wasParent, rfl⟩ | ⟨-, wasParent⟩
    · rw [ties.root] at wasParent
      cases wasParent
    · exact ties.distinct other wasParent
  · intro other child asleep isParent zombie
    obtain ⟨-, isAsleep⟩ := old asleep (by simp)
    rcases update_cases zombie with ⟨rfl, -⟩ | ⟨-, isZombie⟩
    · rcases above isParent with ⟨wasParent, -⟩ | ⟨-, isParent⟩
      · exact ties.distinct child wasParent
      · exact wakes other isParent isAsleep
    · rcases above isParent with ⟨wasParent, rfl⟩ | ⟨-, isParent⟩
      · refine heir child wasParent ?_ isAsleep
        rcases roused child with same | ⟨-, awake⟩
        · rw [← same, isZombie]
        · rw [isZombie] at awake
          cases awake
      · exact rousedTies.asleep other child isAsleep isParent isZombie

end Ties

/-- The process ids of a child and of the process that has forked it, or that
`wait` has returned it to. -/
structure Link where
  child : Int
  parent : Int
  deriving DecidableEq

structure Ledger where
  forked : List Link
  exited : List Int
  returned : List Link

/-- The child has been forked by the parent, or by a process that has exited,
and then the parent is `initproc`, whose process id is 1. -/
def Ledger.Descends (ledger : Ledger) (link : Link) : Prop :=
  ∃ birth ∈ ledger.forked, birth.child = link.child ∧
    (birth.parent = link.parent ∨ birth.parent ∈ ledger.exited ∧ link.parent = 1)

structure Books (proc : ProcId → Proc) (next : Int) (ledger : Ledger) : Prop where
  init : (proc initproc).pid = 1
  range : ∀ process, (proc process).state ≠ .unused →
    0 < (proc process).pid ∧ (proc process).pid < next
  unique : ∀ first second, (proc first).state ≠ .unused →
    (proc second).state ≠ .unused → (proc first).pid = (proc second).pid → first = second
  old : ∀ id ∈ ledger.exited, id < next
  dead : ∀ process, (proc process).state ≠ .unused →
    ((proc process).pid ∈ ledger.exited ↔ (proc process).state = .zombie)
  gone : ∀ link ∈ ledger.returned, link.child ∈ ledger.exited ∧
    ∀ process, (proc process).state ≠ .unused → (proc process).pid ≠ link.child
  once : (ledger.returned.map Link.child).Nodup
  births : ∀ process, process ≠ initproc →
    (proc process).state = .runnable ∨ (proc process).state = .zombie →
      ∃ up, (proc process).parent = some up ∧ ledger.Descends ⟨(proc process).pid, (proc up).pid⟩
  returns : ∀ link ∈ ledger.returned, ledger.Descends link

section Books

variable {proc proc' : ProcId → Proc} {next next' : Int} {ledger : Ledger}
variable {process child : ProcId}

theorem Books.mono (books : Books proc next ledger) (later : next ≤ next')
    (pids : ∀ other, (proc' other).pid = (proc other).pid)
    (used : ∀ other, (proc' other).state ≠ .unused → (proc other).state ≠ .unused)
    (zombie : ∀ other, (proc' other).state = .zombie ↔ (proc other).state = .zombie)
    (living : ∀ other, (proc' other).state = .runnable ∨ (proc' other).state = .zombie →
        ((proc other).state = .runnable ∨ (proc other).state = .zombie) ∧
          (proc' other).parent = (proc other).parent) :
    Books proc' next' ledger where
  __ := books
  init := by rw [pids, books.init]
  range := by
    intro other isUsed
    have range := books.range other (used other isUsed)
    rw [pids]
    omega
  unique := by
    intro first second firstUsed secondUsed
    rw [pids, pids]
    exact books.unique first second (used first firstUsed) (used second secondUsed)
  old := by
    intro id isExited
    have old := books.old id isExited
    omega
  dead := by
    intro other isUsed
    rw [pids, books.dead other (used other isUsed), zombie]
  gone := by
    intro link isReturned
    refine ⟨(books.gone link isReturned).1, fun other isUsed => ?_⟩
    rw [pids]
    exact (books.gone link isReturned).2 other (used other isUsed)
  births := by
    intro other notInit lives
    obtain ⟨lived, same⟩ := living other lives
    obtain ⟨up, isParent, descends⟩ := books.births other notInit lived
    refine ⟨up, same.trans isParent, ?_⟩
    rwa [pids, pids]

theorem stored_cases (proc : ProcId → Proc) (child : ProcId) (new : Proc) (other : ProcId) :
    other = child ∧ update proc child new other = new ∨
      other ≠ child ∧ update proc child new other = proc other := by
  rcases eq_or_ne other child with rfl | same
  · exact Or.inl ⟨rfl, update_self ..⟩
  · exact Or.inr ⟨same, update_of_ne same ..⟩

/-- `fork` stores into a child that is still under construction. -/
theorem Books.store (books : Books proc next ledger) (later : next ≤ next') {new : Proc}
    (embryo : (proc child).state = .embryo) (samePid : new.pid = (proc child).pid)
    (notAlive : new.state = .embryo ∨ new.state = .unused) :
    Books (update proc child new) next' ledger := by
  have cases := stored_cases proc child new
  apply books.mono later
  · intro other
    rcases cases other with ⟨rfl, isNew⟩ | ⟨-, same⟩
    · rw [isNew, samePid]
    · rw [same]
  · intro other
    rcases cases other with ⟨rfl, isNew⟩ | ⟨-, same⟩
    · simp [embryo]
    · rw [same]
      exact id
  · intro other
    rcases cases other with ⟨rfl, isNew⟩ | ⟨-, same⟩
    · rw [isNew, embryo]
      rcases notAlive with isState | isState <;> simp [isState]
    · rw [same]
  · intro other lives
    rcases cases other with ⟨rfl, isNew⟩ | ⟨-, same⟩
    · rw [isNew] at lives
      rcases notAlive with isState | isState <;> simp [isState] at lives
    · rw [same] at lives ⊢
      exact ⟨lives, rfl⟩

theorem Ledger.Descends.mono {more : Ledger} {link : Link} (descends : ledger.Descends link)
    (forked : ∀ birth ∈ ledger.forked, birth ∈ more.forked)
    (exited : ∀ id ∈ ledger.exited, id ∈ more.exited) :
    more.Descends link := by
  obtain ⟨birth, isBirth, isChild, origin⟩ := descends
  refine ⟨birth, forked birth isBirth, isChild, ?_⟩
  rcases origin with same | ⟨hasExited, isInit⟩
  · exact Or.inl same
  · exact Or.inr ⟨exited _ hasExited, isInit⟩

section

variable (books : Books proc next ledger)
include books

theorem Books.reserve {new : Proc} (notInit : initproc ≠ child)
    (childless : ∀ other, (proc other).parent ≠ some child) (isPid : new.pid = next)
    (embryo : new.state = .embryo) (positive : 0 < next) :
    Books (update proc child new) (next + 2) ledger := by
  have cases := stored_cases proc child new
  refine ⟨?_, ?_, ?_, ?_, ?_, ?_, books.once, ?_, books.returns⟩
  · rw [update_of_ne notInit]
    exact books.init
  · intro other isUsed
    rcases cases other with ⟨rfl, isNew⟩ | ⟨-, same⟩
    · rw [isNew, isPid]
      omega
    · rw [same] at isUsed ⊢
      have range := books.range other isUsed
      omega
  · intro first second firstUsed secondUsed samePid
    rcases cases first with ⟨rfl, firstNew⟩ | ⟨-, firstSame⟩
    · rcases cases second with ⟨rfl, -⟩ | ⟨-, secondSame⟩
      · rfl
      · rw [secondSame] at secondUsed samePid
        rw [firstNew, isPid] at samePid
        have range := books.range second secondUsed
        omega
    · rw [firstSame] at firstUsed samePid
      rcases cases second with ⟨rfl, secondNew⟩ | ⟨-, secondSame⟩
      · rw [secondNew, isPid] at samePid
        have range := books.range first firstUsed
        omega
      · rw [secondSame] at secondUsed samePid
        exact books.unique first second firstUsed secondUsed samePid
  · intro id isExited
    have old := books.old id isExited
    omega
  · intro other isUsed
    rcases cases other with ⟨rfl, isNew⟩ | ⟨-, same⟩
    · rw [isNew, isPid, embryo]
      refine ⟨fun isExited => ?_, by simp⟩
      have old := books.old next isExited
      omega
    · rw [same] at isUsed ⊢
      exact books.dead other isUsed
  · intro link isReturned
    refine ⟨(books.gone link isReturned).1, fun other isUsed => ?_⟩
    rcases cases other with ⟨rfl, isNew⟩ | ⟨-, same⟩
    · have old := books.old link.child (books.gone link isReturned).1
      rw [isNew, isPid]
      omega
    · rw [same] at isUsed ⊢
      exact (books.gone link isReturned).2 other isUsed
  · intro other isOther lives
    rcases cases other with ⟨rfl, isNew⟩ | ⟨-, same⟩
    · rw [isNew, embryo] at lives
      simp at lives
    · rw [same] at lives ⊢
      obtain ⟨up, isParent, descends⟩ := books.births other isOther lives
      refine ⟨up, isParent, ?_⟩
      rw [update_of_ne]
      · exact descends
      · rintro rfl
        exact childless other isParent

theorem Books.finish {new : Proc} (embryo : (proc child).state = .embryo)
    (isParent : new.parent = some process) (differs : process ≠ child)
    (samePid : new.pid = (proc child).pid) (runnable : new.state = .runnable) :
    Books (update proc child new) next { ledger with
        forked := ⟨(proc child).pid, (proc process).pid⟩ :: ledger.forked } := by
  have cases := stored_cases proc child new
  have pids : ∀ other, (update proc child new other).pid = (proc other).pid := by
    intro other
    rcases cases other with ⟨rfl, isNew⟩ | ⟨-, same⟩
    · rw [isNew, samePid]
    · rw [same]
  have used : ∀ other, (update proc child new other).state ≠ .unused →
        (proc other).state ≠ .unused := by
    intro other isUsed
    rcases cases other with ⟨rfl, isNew⟩ | ⟨-, same⟩
    · simp [embryo]
    · rwa [same] at isUsed
  have more : ∀ {link}, ledger.Descends link → Ledger.Descends { ledger with
        forked := ⟨(proc child).pid, (proc process).pid⟩ :: ledger.forked } link :=
    fun descends => descends.mono (fun _ isBirth => mem_cons_of_mem _ isBirth) (fun _ => id)
  refine ⟨by rw [pids, books.init], ?_, ?_, books.old, ?_, ?_, books.once, ?_,
    fun link isReturned => more (books.returns link isReturned)⟩
  · intro other isUsed
    rw [pids]
    exact books.range other (used other isUsed)
  · intro first second firstUsed secondUsed
    rw [pids, pids]
    exact books.unique first second (used first firstUsed) (used second secondUsed)
  · intro other isUsed
    rw [pids, books.dead other (used other isUsed)]
    rcases cases other with ⟨rfl, isNew⟩ | ⟨-, same⟩
    · simp [embryo, runnable]
    · rw [same]
  · intro link isReturned
    refine ⟨(books.gone link isReturned).1, fun other isUsed => ?_⟩
    rw [pids]
    exact (books.gone link isReturned).2 other (used other isUsed)
  · intro other isOther lives
    rcases cases other with ⟨rfl, isNew⟩ | ⟨-, same⟩
    · refine ⟨process, by rw [isNew, isParent], ?_⟩
      rw [pids, pids]
      exact ⟨_, mem_cons_self, rfl, Or.inl rfl⟩
    · rw [same] at lives
      obtain ⟨up, isUp, descends⟩ := books.births other isOther lives
      refine ⟨up, by rw [same, isUp], ?_⟩
      rw [pids, pids]
      exact more descends

theorem Books.die (runnable : (proc process).state = .runnable) (notInit : initproc ≠ process)
    (initUsed : (proc initproc).state ≠ .unused)
    (states : ∀ other, other ≠ process → (proc' other).state = (proc other).state)
    (zombie : (proc' process).state = .zombie)
    (pids : ∀ other, (proc' other).pid = (proc other).pid)
    (parents : ∀ other, (proc' other).parent =
      if (proc other).parent = some process then some initproc
      else (proc other).parent) :
    Books proc' next { ledger with exited := (proc process).pid :: ledger.exited } := by
  have isUsed : (proc process).state ≠ .unused := by simp [runnable]
  have used : ∀ other, (proc' other).state ≠ .unused → (proc other).state ≠ .unused := by
    intro other otherUsed
    by_cases same : other = process
    · rwa [same]
    · rwa [← states other same]
  have more : ∀ {link}, ledger.Descends link → Ledger.Descends
      { ledger with exited := (proc process).pid :: ledger.exited } link :=
    fun descends => descends.mono (fun _ => id) (fun _ isExited => mem_cons_of_mem _ isExited)
  refine ⟨by rw [pids, books.init], ?_, ?_, ?_, ?_, ?_, books.once, ?_,
    fun link isReturned => more (books.returns link isReturned)⟩
  · intro other otherUsed
    rw [pids]
    exact books.range other (used other otherUsed)
  · intro first second firstUsed secondUsed
    rw [pids, pids]
    exact books.unique first second (used first firstUsed) (used second secondUsed)
  · intro id isExited
    rcases mem_cons.mp isExited with rfl | before
    · exact (books.range process isUsed).2
    · exact books.old id before
  · intro other otherUsed
    have wasUsed := used other otherUsed
    rw [pids, mem_cons, books.dead other wasUsed]
    rcases eq_or_ne other process with rfl | same
    · simp [zombie]
    · rw [states other same]
      refine ⟨?_, Or.inr⟩
      rintro (samePid | isZombie)
      · exact absurd (books.unique other process wasUsed isUsed samePid) same
      · exact isZombie
  · intro link isReturned
    obtain ⟨hasExited, otherPids⟩ := books.gone link isReturned
    refine ⟨mem_cons_of_mem _ hasExited, fun other otherUsed => ?_⟩
    rw [pids]
    exact otherPids other (used other otherUsed)
  · intro other isOther lives
    have lived : (proc other).state = .runnable ∨ (proc other).state = .zombie := by
      by_cases same : other = process
      · rw [same]
        exact Or.inl runnable
      · rwa [← states other same]
    obtain ⟨up, isParent, descends⟩ := books.births other isOther lived
    rcases eq_or_ne up process with rfl | isProcess
    · refine ⟨initproc, by rw [parents, if_pos isParent], ?_⟩
      obtain ⟨birth, isBirth, isChild, same | ⟨-, isInit⟩⟩ := descends
      · refine ⟨birth, isBirth, by rw [pids]; exact isChild, Or.inr ⟨?_, ?_⟩⟩
        · rw [same]
          exact mem_cons_self
        · dsimp only
          rw [pids, books.init]
      · have samePid : (proc initproc).pid = (proc up).pid := by
          rw [books.init]
          exact isInit.symm
        exact absurd (books.unique initproc up initUsed isUsed samePid) notInit
    · refine ⟨up, ?_, ?_⟩
      · rw [parents, if_neg, isParent]
        intro wasParent
        rw [isParent] at wasParent
        exact isProcess (Option.some.inj wasParent)
      · rw [pids, pids]
        exact more descends

theorem Books.reap (zombie : (proc child).state = .zombie)
    (isParent : (proc child).parent = some process) (notInit : initproc ≠ child)
    (childless : ∀ other, (proc other).parent ≠ some child) :
    Books (update proc child (proc child).released) next { ledger with
        returned := ⟨(proc child).pid, (proc process).pid⟩ :: ledger.returned } := by
  have cases := stored_cases proc child (proc child).released
  have isUsed : (proc child).state ≠ .unused := by simp [zombie]
  have used : ∀ other, (update proc child (proc child).released other).state ≠ .unused →
      other ≠ child ∧ (proc other).state ≠ .unused ∧ update proc child (proc child).released other =
          proc other := by
    intro other otherUsed
    rcases cases other with ⟨rfl, isNew⟩ | ⟨differs, same⟩
    · rw [isNew] at otherUsed
      exact absurd rfl otherUsed
    · rw [same] at otherUsed
      exact ⟨differs, otherUsed, same⟩
  refine ⟨?_, ?_, ?_, books.old, ?_, ?_, ?_, ?_, ?_⟩
  · rw [update_of_ne notInit]
    exact books.init
  · intro other otherUsed
    obtain ⟨-, wasUsed, same⟩ := used other otherUsed
    rw [same]
    exact books.range other wasUsed
  · intro first second firstUsed secondUsed
    obtain ⟨-, firstWas, firstSame⟩ := used first firstUsed
    obtain ⟨-, secondWas, secondSame⟩ := used second secondUsed
    rw [firstSame, secondSame]
    exact books.unique first second firstWas secondWas
  · intro other otherUsed
    obtain ⟨-, wasUsed, same⟩ := used other otherUsed
    rw [same]
    exact books.dead other wasUsed
  · intro link isReturned
    rcases mem_cons.mp isReturned with rfl | before
    · refine ⟨(books.dead child isUsed).mpr zombie, ?_⟩
      intro other otherUsed samePid
      obtain ⟨differs, wasUsed, same⟩ := used other otherUsed
      rw [same] at samePid
      exact differs (books.unique other child wasUsed isUsed samePid)
    · refine ⟨(books.gone link before).1, fun other otherUsed => ?_⟩
      obtain ⟨-, wasUsed, same⟩ := used other otherUsed
      rw [same]
      exact (books.gone link before).2 other wasUsed
  · rw [map_cons, nodup_cons]
    refine ⟨?_, books.once⟩
    intro again
    obtain ⟨link, isReturned, samePid⟩ := mem_map.mp again
    exact (books.gone link isReturned).2 child isUsed samePid.symm
  · intro other isOther lives
    have otherUsed : (update proc child (proc child).released other).state ≠ .unused := by
      rcases lives with isState | isState <;> simp [isState]
    obtain ⟨-, -, same⟩ := used other otherUsed
    rw [same] at lives ⊢
    obtain ⟨up, isUp, descends⟩ := books.births other isOther lives
    refine ⟨up, isUp, ?_⟩
    rw [update_of_ne]
    · exact descends
    · rintro rfl
      exact childless other isUp
  · intro link isReturned
    rcases mem_cons.mp isReturned with rfl | before
    · obtain ⟨up, isUp, descends⟩ := books.births child (Ne.symm notInit) (Or.inr zombie)
      rw [isParent] at isUp
      cases isUp
      exact descends
    · exact books.returns link before

end

end Books

def Ledger.record (ledger : Ledger) (pid : ProcId → Int) : Option Event → Ledger
  | none => ledger
  | some (.forked parent child) =>
    { ledger with forked := ⟨pid child, pid parent⟩ :: ledger.forked }
  | some (.exited process) => { ledger with exited := pid process :: ledger.exited }
  | some (.returned process child) =>
    { ledger with returned := ⟨pid child, pid process⟩ :: ledger.returned }

structure Accounts (Cpu : Type*) where
  kernel : Kernel Cpu
  ledger : Ledger

namespace Accounts

variable {Cpu : Type*} [DecidableEq Cpu]

def step (accounts : Accounts Cpu) (label : Label Cpu) : Option (Accounts Cpu) :=
  (accounts.kernel.step label).map fun after =>
    ⟨after, accounts.ledger.record accounts.kernel.pids (accounts.kernel.event label)⟩

def boot : Accounts Cpu where
  kernel := Kernel.boot
  ledger := ⟨[], [], []⟩

structure Family (kernel : Kernel Cpu) (ledger : Ledger) (doing : ProcId → Doing) : Prop where
  states : ∀ process, (kernel.proc process).state = (doing process).state
  ties : Ties kernel.parents doing
  books : Books kernel.proc kernel.nextpid ledger
  positive : 0 < kernel.nextpid

omit [DecidableEq Cpu] in
theorem Family.change {kernel after : Kernel Cpu} {ledger : Ledger} {doing changed : ProcId → Doing}
    {event : Option Event} (family : Family kernel ledger doing)
    (change : Change kernel after doing changed event)
    (states : ∀ process, (after.proc process).state = (changed process).state) :
    Family after (ledger.record kernel.pids event) changed := by
  obtain ⟨oldStates, ties, books, positive⟩ := family
  have initUsed : (kernel.proc initproc).state ≠ .unused := by
    rw [oldStates, ties.init]
    simp
  have notInit : ∀ {other}, ¬ (doing other).Live → initproc ≠ other := by
    rintro other notLive rfl
    exact notLive ties.init
  have childless : ∀ {child}, ¬ (doing child).Live →
      ∀ other, (kernel.proc other).parent ≠ some child :=
    fun notLive other isParent => notLive (ties.live other _ isParent)
  cases change with
  | quiet roused procs pids =>
    have parents : after.parents = kernel.parents := by
      funext other
      rcases procs other with same | same <;> simp [Kernel.parents, same]
    refine ⟨states, ?_, ?_, by rwa [pids]⟩
    · rw [parents]
      exact ties.rouse roused
    · rw [pids]
      apply books.mono (Int.le_refl _)
      · intro other
        rcases procs other with same | same <;> rw [same]
      · intro other
        rcases procs other with same | same <;> rw [same] <;> exact id
      · intro other
        rcases procs other with same | same <;> rw [same]
      · intro other lives
        rcases procs other with same | same <;> rw [same] at lives ⊢ <;>
          exact ⟨lives, rfl⟩
  | reserve process child isDoing free procs pids =>
    have notLive : ¬ (doing child).Live := by
      rw [free]
      decide
    have isOrphan := ties.orphan child (Or.inl free)
    refine ⟨states, ?_, ?_, by rw [pids]; omega⟩
    · rw [parents_update procs]
      exact ties.pair {
        live := by rw [isDoing]; rfl
        notLive := notLive
        links := by
          rintro other copied ⟨⟩
          exact ⟨rfl, rfl, by simp⟩
        alone := by
          intro other copied _ builds
          have embryo := ties.linked other child copied builds
          rw [free] at embryo
          cases embryo
        upLive := fun other isParent => ties.live child other isParent
        orphan := fun _ => isOrphan }
    · rw [procs, pids]
      exact books.reserve (notInit notLive) (childless notLive) rfl rfl positive
  | giveUp process child isDoing procs pids =>
    have embryo := ties.linked process child false isDoing
    refine ⟨states, ?_, ?_, by rwa [pids]⟩
    · rw [parents_update procs]
      exact ties.pair {
        live := by rw [isDoing]; rfl
        notLive := by rw [embryo]; decide
        alone := fun other copied differs builds => differs
          (ties.unique other process child copied false builds isDoing)
        upLive := fun other isParent => ties.live child other isParent
        orphan := fun _ => ties.orphan child (Or.inr embryo) }
    · rw [procs, pids]
      exact books.store (Int.le_refl _) (by rw [oldStates, embryo]; rfl) rfl (Or.inr rfl)
  | copy process child isDoing procs pids =>
    have embryo := ties.linked process child false isDoing
    have state : (kernel.proc child).state = .embryo := by
      rw [oldStates, embryo]
      rfl
    refine ⟨states, ?_, ?_, by rw [pids]; omega⟩
    · rw [parents_update procs]
      exact ties.pair {
        live := by rw [isDoing]; rfl
        notLive := by rw [embryo]; decide
        links := by
          rintro other copied ⟨⟩
          exact ⟨rfl, rfl, fun _ => rfl⟩
        alone := fun other copied differs builds => differs
          (ties.unique other process child copied false builds isDoing)
        upLive := by
          rintro other ⟨⟩
          rw [isDoing]
          rfl }
    · rw [procs, pids]
      exact books.store (by omega) state rfl (Or.inl state)
  | finish process child isDoing procs pids =>
    have embryo := ties.linked process child true isDoing
    have isParent := ties.copied process child isDoing
    have differs : process ≠ child := by
      rintro rfl
      rw [isDoing] at embryo
      cases embryo
    refine ⟨states, ?_, ?_, by rwa [pids]⟩
    · rw [parents_update procs]
      exact ties.pair {
        live := by rw [isDoing]; rfl
        notLive := by rw [embryo]; decide
        alone := fun other copied differs builds => differs
          (ties.unique other process child copied true builds isDoing)
        upLive := fun other isUp => ties.live child other isUp }
    · rw [procs, pids]
      exact books.finish (by rw [oldStates, embryo]; rfl) isParent differs rfl rfl
  | leave process isDoing isOther procs pids =>
    have live : (doing process).Live := by rw [isDoing]; rfl
    refine ⟨states, ?_, by rwa [procs, pids], by rwa [pids]⟩
    rw [parents_eq procs]
    exact ties.goOn live rfl (by simp) (fun isInit => absurd isInit isOther) (by simp)
  | die process isDoing roused wakes heir procs pids =>
    have isOther : initproc ≠ process := by
      rintro rfl
      exact ties.stays isDoing
    have parents : ∀ other, (after.proc other).parent = adopted kernel.parents process other := by
      intro other
      rw [procs]
      rcases eq_or_ne other process with rfl | same
      · rw [update_self]
        exact kernel.adopt_parent other other
      · rw [update_of_ne same]
        exact kernel.adopt_parent process other
    refine ⟨states, ?_, ?_, by rwa [pids]⟩
    · have allParents : after.parents = adopted kernel.parents process :=
        funext parents
      rw [allParents]
      exact ties.die isDoing roused wakes heir
    · rw [pids]
      refine books.die (by rw [oldStates, isDoing]; rfl) isOther initUsed ?_ ?_ ?_ parents
      · intro other differs
        rw [procs, update_of_ne differs, adopt_state]
      · rw [procs, update_self]
      · intro other
        rw [procs]
        rcases eq_or_ne other process with rfl | same
        · rw [update_self]
          exact kernel.adopt_pid other other
        · rw [update_of_ne same]
          exact kernel.adopt_pid process other
  | reap process child live isParent isZombie procs pids =>
    have notLive : ¬ (doing child).Live := by
      rw [isZombie]
      decide
    refine ⟨states, ?_, ?_, by rwa [pids]⟩
    · rw [parents_update procs]
      exact ties.pair {
        live := live
        notLive := notLive
        alone := by
          intro other copied _ builds
          have embryo := ties.linked other child copied builds
          rw [isZombie] at embryo
          cases embryo
        upLive := by
          rintro other ⟨⟩
        orphan := fun _ => rfl }
    · rw [procs, pids]
      exact books.reap (by rw [oldStates, isZombie]; rfl) isParent
        (notInit notLive) (childless notLive)
  | refuse process live procs pids =>
    refine ⟨states, ?_, by rwa [procs, pids], by rwa [pids]⟩
    rw [parents_eq procs]
    exact ties.goOn live rfl (by simp) (by simp) (by simp)
  | fallAsleep process live nothing procs pids =>
    refine ⟨states, ?_, by rwa [procs, pids], by rwa [pids]⟩
    rw [parents_eq procs]
    exact ties.goOn live rfl (by simp) (by simp) (fun _ => nothing)

/-- The family with tables that show what the processes do. -/
def Kept (accounts : Accounts Cpu) : Prop :=
  ∃ status doing, Standing accounts.kernel status doing ∧
    Family accounts.kernel accounts.ledger doing

theorem Kept.step {accounts after : Accounts Cpu} {label : Label Cpu} (kept : accounts.Kept)
    (oneThread : label.OneThread) (stepTo : accounts.step label = some after) : after.Kept := by
  obtain ⟨status, doing, standing, family⟩ := kept
  obtain ⟨next, kernelStep, rfl⟩ := Option.map_eq_some_iff.mp stepTo
  obtain ⟨newStatus, changed, newStanding, change⟩ :=
    step_follows standing family.ties.linked oneThread kernelStep
  exact ⟨newStatus, changed, newStanding, family.change change newStanding.states⟩

def bootDoing (process : ProcId) : Doing :=
  if process = initproc then .working else .unused

omit [DecidableEq Cpu] in
theorem boot_kept : (boot : Accounts Cpu).Kept := by
  have states : ∀ process, ((boot : Accounts Cpu).kernel.proc process).state =
      (bootDoing process).state := by
    intro process
    simp only [boot, Kernel.boot, bootDoing]
    split <;> rfl
  have parents : (boot : Accounts Cpu).kernel.parents = fun _ => none := by
    funext process
    simp only [Kernel.parents, boot, Kernel.boot]
    split <;> rfl
  have onlyInit : ∀ {process}, bootDoing process ≠ .unused → process = initproc := by
    intro process used
    by_contra other
    rw [bootDoing, if_neg other] at used
    exact used rfl
  refine ⟨bootStatus, bootDoing, ⟨boot_coherent.view, ?_, ?_, states, ?_⟩,
    ⟨states, ?_, ?_, by simp [boot, Kernel.boot]⟩⟩
  · intro slot other
    rw [bootStatus, if_neg]
    rintro rfl
    exact other rfl
  · intro process
    by_cases isInit : process = initproc
    · rw [bootStatus, bootDoing, if_pos isInit, if_pos (by rw [isInit])]
      exact .runnable rfl
    · rw [bootStatus, bootDoing, if_neg isInit, if_neg (mainThread_ne isInit)]
      exact .unused
  · intro process asleep
    obtain rfl := onlyInit (by rw [asleep]; simp)
    cases asleep
  · rw [parents]
    refine ⟨?_, ?_, ?_, rfl, by decide, rfl, fun _ _ => rfl, by simp,
      by simp, by simp⟩
    · intro process child copied builds
      obtain rfl := onlyInit (by rw [builds]; simp)
      cases builds
    · intro first second child copied copied' firstBuilds secondBuilds
      obtain rfl := onlyInit (by rw [firstBuilds]; simp)
      cases firstBuilds
    · intro process child builds
      obtain rfl := onlyInit (by rw [builds]; simp)
      cases builds
  · have usedInit : ∀ process, ((boot : Accounts Cpu).kernel.proc process).state ≠ .unused →
          process = initproc := by
      intro process used
      rw [states] at used
      exact onlyInit fun isUnused => used (by rw [isUnused]; rfl)
    refine ⟨rfl, ?_, ?_, by simp [boot], ?_, by simp [boot], by simp [boot], ?_, by simp [boot]⟩
    · intro process used
      obtain rfl := usedInit process used
      simp [boot, Kernel.boot]
    · intro first second firstUsed secondUsed _
      rw [usedInit first firstUsed, usedInit second secondUsed]
    · intro process used
      obtain rfl := usedInit process used
      simp [boot, Kernel.boot]
    · intro process notInit lives
      refine absurd (usedInit process ?_) notInit
      rcases lives with isState | isState <;> simp [isState]

/-- `wait` returns a child once, after its exit, to its parent or to `initproc`;
it fails only without children or when killed; and nobody sleeps in `wait`
beside a zombie child. -/
theorem process_accounting {accounts : Accounts Cpu}
    (reaches : GuardedReaches step (fun _ label => label.OneThread) boot accounts) :
    (accounts.ledger.returned.map Link.child).Nodup ∧
    (∀ link ∈ accounts.ledger.returned, link.child ∈ accounts.ledger.exited ∧
        accounts.ledger.Descends link) ∧
    (∀ process parent, accounts.kernel.parents process = some parent →
      accounts.kernel.pids parent ∉ accounts.ledger.exited) ∧
    (∀ label cpu slot, accounts.kernel.waiter label = some (cpu, slot) →
      (∀ child, accounts.kernel.zombieChild slot.1 = some child →
        accounts.kernel.parents child = some slot.1 ∧
          accounts.kernel.pids child ∈ accounts.ledger.exited) ∧
      (accounts.kernel.waitReturns slot.1 = some (-1) →
        (∀ child, accounts.kernel.parents child ≠ some slot.1) ∨
          (accounts.kernel.proc slot.1).killed) ∧
      ((∀ child, accounts.kernel.parents child ≠ some slot.1) →
        accounts.kernel.waitReturns slot.1 = some (-1))) ∧
    (∀ slot child, (accounts.kernel.thread slot).state = .sleeping →
      (accounts.kernel.thread slot).context = some (.asleep .waiting) →
        accounts.kernel.parents child = some slot.1 →
          (accounts.kernel.proc child).state ≠ .zombie) := by
  have kept : accounts.Kept := reaches.invariant Kept boot_kept
    fun before label after kept oneThread stepTo => kept.step oneThread stepTo
  obtain ⟨status, doing, standing, family⟩ := kept
  have zombieExited : ∀ {process child}, accounts.kernel.zombieChild process = some child →
        0 < accounts.kernel.pids child ∧ accounts.kernel.pids child ∈ accounts.ledger.exited := by
    intro process child found
    have zombie := zombieChild_spec found
    have used : (accounts.kernel.proc child).state ≠ .unused := by
      simp [zombie]
    exact ⟨(family.books.range child used).1, (family.books.dead child used).mpr zombie⟩
  refine ⟨family.books.once, ?_, ?_, ?_, ?_⟩
  · exact fun link isReturned => ⟨(family.books.gone link isReturned).1,
      family.books.returns link isReturned⟩
  · intro process parent isParent hasExited
    have live := family.ties.live process parent isParent
    have state : (accounts.kernel.proc parent).state = .runnable := by
      rw [family.states, live]
    have zombie := (family.books.dead parent (by simp [state])).mp hasExited
    rw [state] at zombie
    cases zombie
  · intro label cpu slot _
    refine ⟨?_, ?_, ?_⟩
    · exact fun child found =>
        ⟨(standing.zombieChild_spec found).1, (zombieExited found).2⟩
    · intro fails
      rw [waitReturns] at fails
      split at fails
      next child found =>
        have positive := (zombieExited found).1
        have isPid := Option.some.inj fails
        rw [pids] at positive
        omega
      next =>
        split at fails
        next => cases fails
        next stops =>
          rw [Bool.and_eq_true, not_and_or] at stops
          rcases stops with noKids | killed
          · refine Or.inl fun child isParent => noKids ?_
            rw [haveKids, any_eq_true]
            exact ⟨child, mem_finRange child, by
              rw [beq_iff_eq]; exact isParent⟩
          · exact Or.inr (by simpa using killed)
    · intro noChild
      have noZombie : accounts.kernel.zombieChild slot.1 = none := by
        cases found : accounts.kernel.zombieChild slot.1 with
        | none => rfl
        | some child => exact absurd (standing.zombieChild_spec found).1 (noChild child)
      have noKids : accounts.kernel.haveKids slot.1 = false := by
        rw [haveKids, any_eq_false]
        intro child _
        rw [beq_iff_eq]
        exact noChild child
      rw [waitReturns, noZombie, noKids]
      rfl
  · intro slot child sleeps context isParent zombie
    obtain ⟨process, rfl, asleep⟩ := standing.asleep_of_context sleeps context
    refine family.ties.asleep process child asleep isParent ?_
    rw [family.states] at zombie
    cases current : doing child <;> simp [current, Doing.state] at zombie
    rfl

/-- `initproc` forks a child and sleeps in `wait` until the child exits. -/
def parentWaits (first second : Fin 2) : List (Label (Fin 2)) :=
  [.scheduler first, .fork first, .forkCopy first 7, .forkFinish first, .wait first,
    .scheduler second, .exit second, .exitFinish second, .scheduler first, .scheduler first,
    .sleepReturn first, .waitRescan first]

theorem process_accounting_parentWaits : ∃ accounts : Accounts (Fin 2),
      accounts.ledger.returned = [⟨3, 1⟩] ∧
        3 ∈ accounts.ledger.exited ∧ accounts.ledger.Descends ⟨3, 1⟩ := by
  obtain ⟨accounts, run, returned⟩ :
      ∃ accounts ∈ runLabels (restrict step fun _ label => label.OneThread) boot
        (parentWaits 0 1),
      accounts.ledger.returned = [⟨3, 1⟩] := by
    decide +kernel
  have reaches := guardedReaches_of_runLabels (parentWaits 0 1) run
  have returns := (process_accounting reaches).2.1 ⟨3, 1⟩
    (by rw [returned]; exact mem_singleton_self _)
  exact ⟨accounts, returned, returns⟩

end Accounts

end Xv6Kthreads
