import Xv6Kthreads.KernelReaping

/-!
# Processes with one thread

This file follows `fork`, `exit` and `wait` while no process creates a second
thread.  Then each process does one thing at a time, which its only thread
shows, and the sections of the three calls become changes of what the processes
do.  A slot that `wait` has released keeps its zombie thread until `fork` takes
the slot again.
-/

namespace Xv6Kthreads

open Function Option

inductive Doing where
  | unused
  | embryo (copied : Bool)
  | working
  | building (child : ProcId) (copied : Bool)
  | exiting
  | waiting
  | asleep
  | zombie
  deriving DecidableEq

namespace Doing

def state : Doing → RunState
  | .unused => .unused
  | .embryo _ => .embryo
  | .zombie => .zombie
  | _ => .runnable

def Live (doing : Doing) : Prop :=
  doing.state = .runnable

instance (doing : Doing) : Decidable doing.Live :=
  inferInstanceAs (Decidable (_ = _))

end Doing

def Location.doing : Location → Option Doing
  | .user => some .working
  | .asleep .other => some .working
  | .exiting => some .exiting
  | .asleep .exiting => some .exiting
  | .waiting => some .waiting
  | .asleep .waiting => some .waiting
  | .forkAllocated child => some (.building child false)
  | .forkCopied child => some (.building child true)
  | _ => none

theorem SleepCall.resume_doing {call : SleepCall} {doing : Doing}
    (isDoing : (Location.asleep call).doing = some doing) :
    call.resume.doing = some doing := by
  cases call with
  | joining id => cases isDoing
  | _ => exact isDoing

variable {location : Location}

theorem Location.doing_live {doing : Doing} (isDoing : location.doing = some doing) :
    doing.Live := by
  cases location with
  | asleep call => cases call <;> cases isDoing <;> rfl
  | _ => cases isDoing <;> rfl

theorem Location.doing_ne_asleep {doing : Doing} (isDoing : location.doing = some doing) :
    doing ≠ .asleep := by
  rintro rfl
  cases location with
  | asleep call => cases call <;> cases isDoing
  | _ => cases isDoing

/-- The record of a process that `wait` has released. -/
def Proc.released (proc : Proc) : Proc :=
  { proc with
    state := .unused
    pid := 0
    parent := none
    killed := false }

namespace Kernel

variable {Cpu : Type*}

/-- The sections that processes with one thread run: those of the scheduler,
of `sleep`, `wakeup` and `kill`, and of `fork`, `exit` and `wait`. -/
def Label.OneThread : Label Cpu → Prop
  | .scheduler _ => True
  | .yield _ => True
  | .sleep _ _ => True
  | .sleepReturn _ => True
  | .wakeup _ => True
  | .kill _ => True
  | .fork _ => True
  | .forkFail _ => True
  | .forkCopy _ _ => True
  | .forkFinish _ => True
  | .exit _ => True
  | .exitFinish _ => True
  | .wait _ => True
  | .waitRescan _ => True
  | _ => False

instance (label : Label Cpu) : Decidable label.OneThread := by
  induction label using Label.casesOn <;> first | exact isTrue trivial | exact isFalse id

/-- What the status of a main thread shows. -/
inductive Status.Shows : Status Cpu → Doing → Prop where
  | unused : Shows .unused .unused
  | released : Shows .zombie .unused
  | reserved : Shows (.embryo none) (.embryo false)
  | copied : Shows (.embryo (some .user)) (.embryo true)
  | onCpu {cpu : Cpu} {location : Location} {doing : Doing}
      (isDoing : location.doing = some doing) :
      Shows (.onCpu cpu location) doing
  | runnable {location : Location} {doing : Doing} (isDoing : location.doing = some doing) :
      Shows (.runnable location) doing
  | sleeping {call : SleepCall} {doing : Doing}
      (isDoing : (Location.asleep call).doing = some doing)
      (notWaiting : call ≠ .waiting) :
      Shows (.sleeping (.asleep call)) doing
  | asleep : Shows (.sleeping (.asleep .waiting)) .asleep
  | zombie : Shows .zombie .zombie

structure Standing (kernel : Kernel Cpu) (status : Slot → Status Cpu)
    (doing : ProcId → Doing) : Prop where
  view : View kernel status
  single : ∀ slot, slot ≠ mainThread slot.1 → status slot = .unused
  shown : ∀ process, (status (mainThread process)).Shows (doing process)
  states : ∀ process, (kernel.proc process).state = (doing process).state
  chan : ∀ process, doing process = .asleep →
    (kernel.thread (mainThread process)).chan = some (.proc process)

/-- Some of the processes that sleep in `wait` are woken. -/
def Roused (doing changed : ProcId → Doing) : Prop :=
  ∀ process, changed process = doing process ∨ doing process = .asleep ∧ changed process = .waiting

theorem Roused.refl (doing : ProcId → Doing) : Roused doing doing :=
  fun _ => Or.inl rfl

variable {process : ProcId}

theorem Roused.asleep {doing changed : ProcId → Doing}
    (roused : Roused doing changed) (asleep : changed process = .asleep) :
    doing process = .asleep := by
  rcases roused process with same | ⟨wasAsleep, -⟩
  · rw [← same, asleep]
  · exact wasAsleep

variable {slot : Slot} {new : Status Cpu}

section Standing

variable {kernel after : Kernel Cpu} {status : Slot → Status Cpu}
variable {doing : ProcId → Doing} {process : ProcId}

@[simp]
theorem mainThread_fst (process : ProcId) : (mainThread process).1 = process :=
  rfl

theorem mainThread_ne {first second : ProcId} (differs : first ≠ second) :
    mainThread first ≠ mainThread second :=
  fun same => differs (Prod.mk.inj same).1

section

variable (standing : Standing kernel status doing)
include standing

theorem Standing.slot_eq (used : status slot ≠ .unused) : ∃ process, slot = mainThread process := by
  by_contra other
  push Not at other
  exact used (standing.single slot (other slot.1))

/-- A thread on a processor is the main thread of its process. -/
theorem Standing.acting {cpu : Cpu} (runs : kernel.running cpu = some (slot, location)) :
    ∃ process, slot = mainThread process ∧ status slot = .onCpu cpu location ∧
        location.doing = some (doing process) := by
  rcases standing.view.status_of_running runs with onCpu | ⟨last, -⟩
  · obtain ⟨process, rfl⟩ := standing.slot_eq (by rw [onCpu]; simp)
    have shows := standing.shown process
    rw [onCpu] at shows
    cases shows with
    | onCpu isDoing => exact ⟨process, rfl, onCpu, isDoing⟩
  · obtain ⟨process, rfl⟩ := standing.slot_eq (by rw [last]; simp)
    have shows := standing.shown process
    rw [last] at shows
    cases shows

theorem Standing.set {next : Doing} (view : View after
      (update status (mainThread process) new)) (shows : new.Shows next)
    (states : ∀ other, (after.proc other).state = (update doing process next other).state)
    (chans : ∀ other, other ≠ process → (after.thread (mainThread other)).chan =
        (kernel.thread (mainThread other)).chan) (sleeps : next = .asleep →
      (after.thread (mainThread process)).chan = some (.proc process)) :
    Standing after (update status (mainThread process) new) (update doing process next) where
  view := view
  single := by
    intro slot other
    rw [update_of_ne]
    · exact standing.single slot other
    · rintro rfl
      exact other rfl
  shown := by
    intro other
    rcases eq_or_ne other process with rfl | same
    · rwa [update_self, update_self]
    · rw [update_of_ne same, update_of_ne]
      · exact standing.shown other
      · exact mainThread_ne same
  states := states
  chan := by
    intro other asleep
    rcases eq_or_ne other process with rfl | same
    · rw [update_self] at asleep
      exact sleeps asleep
    · rw [update_of_ne same] at asleep
      rw [chans other same]
      exact standing.chan other asleep

/-- The thread of one process changes its status and the process goes on with
what it does. -/
theorem Standing.keep (view : View after
      (update status (mainThread process) new)) (shows : new.Shows (doing process))
    (states : ∀ other, (after.proc other).state = (kernel.proc other).state)
    (chans : ∀ other, other ≠ process → (after.thread (mainThread other)).chan =
        (kernel.thread (mainThread other)).chan) (notAsleep : doing process ≠ .asleep) :
    Standing after (update status (mainThread process) new) doing := by
  have kept := standing.set view shows (fun other => by
    rw [states, standing.states, update_eq_self]) chans
    (fun asleep => absurd asleep notAsleep)
  rwa [update_eq_self] at kept

end

theorem Status.Shows.woken {doing : Doing}
    (shows : (Status.sleeping location : Status Cpu).Shows doing) :
    (Status.runnable location : Status Cpu).Shows
      (if doing = .asleep then .waiting else doing) := by
  cases shows with
  | sleeping isDoing notWaiting =>
    rw [if_neg (Location.doing_ne_asleep isDoing)]
    exact .runnable isDoing
  | asleep => exact .runnable rfl

/-- A thread that is under construction or gone is on no processor. -/
theorem Status.Shows.place_eq {status : Status Cpu} {doing : Doing}
    (shows : status.Shows doing) (notLive : ¬ doing.Live) :
    status.place = none := by
  cases shows with
  | onCpu isDoing => exact absurd (Location.doing_live isDoing) notLive
  | _ => rfl

theorem Status.Shows.embryo_eq {status : Status Cpu} {copied : Bool}
    (shows : status.Shows (.embryo copied)) :
    status = .embryo (if copied then some .user else none) := by
  cases shows with
  | reserved | copied => rfl
  | onCpu isDoing | runnable isDoing | sleeping isDoing => cases Location.doing_live isDoing

theorem Standing.wake (standing : Standing kernel status doing)
    (after : Kernel Cpu) (woken : Slot → Prop) [DecidablePred woken]
    (sleeping : ∀ slot, woken slot → (kernel.thread slot).state = .sleeping)
    (threads : ∀ slot, after.thread slot =
      if woken slot then { kernel.thread slot with state := .runnable }
      else kernel.thread slot)
    (running : after.running = kernel.running)
    (states : ∀ other, (after.proc other).state = (kernel.proc other).state) :
    ∃ changed newStatus, Standing after newStatus changed ∧ Roused doing changed ∧
      (∀ slot location, (status slot).place = some location → newStatus slot = status slot) ∧
      ∀ other, woken (mainThread other) → changed other ≠ .asleep := by
  have wasSleeping : ∀ slot, woken slot → ∃ location, status slot = .sleeping location := by
    intro slot isWoken
    have state := sleeping slot isWoken
    rw [standing.view.state_eq] at state
    cases current : status slot <;> simp [current, Status.state] at state
    exact ⟨_, rfl⟩
  refine ⟨fun other => if woken (mainThread other) then
      (if doing other = .asleep then .waiting else doing other)
    else doing other, _, ⟨standing.view.wakeAll woken sleeping ?_ ?_ running,
      ?_, ?_, ?_, ?_⟩, ?_, ?_, ?_⟩
  · intro slot
    rw [threads]
    split <;> rfl
  · intro slot
    rw [threads]
    split <;> rfl
  · intro slot other
    rw [standing.single slot other]
    split <;> rfl
  · intro other
    split
    next isWoken =>
      obtain ⟨location, isSleeping⟩ := wasSleeping _ isWoken
      have shows := standing.shown other
      rw [isSleeping] at shows ⊢
      exact shows.woken
    next => exact standing.shown other
  · intro other
    rw [states, standing.states]
    split
    next =>
      split
      next asleep => rw [asleep]; rfl
      next => rfl
    next => rfl
  · intro other asleep
    rw [threads]
    split at asleep
    next isWoken =>
      split at asleep
      next => cases asleep
      next notAsleep => exact absurd asleep notAsleep
    next notWoken =>
      rw [if_neg notWoken]
      exact standing.chan other asleep
  · intro other
    dsimp only
    split
    next =>
      split
      next asleep => exact Or.inr ⟨asleep, rfl⟩
      next => exact Or.inl rfl
    next => exact Or.inl rfl
  · intro slot location placed
    split
    next isWoken =>
      obtain ⟨_, isSleeping⟩ := wasSleeping _ isWoken
      rw [isSleeping] at placed
      cases placed
    next => rfl
  · intro other isWoken
    dsimp only
    rw [if_pos isWoken]
    split
    next => simp
    next notAsleep => exact notAsleep

end Standing

/-- What a section of `fork`, `exit` or `wait` completes. -/
inductive Event where
  | forked (parent child : ProcId)
  | exited (process : ProcId)
  | returned (process child : ProcId)

def event (kernel : Kernel Cpu) : Label Cpu → Option Event
  | .forkFinish cpu =>
    match kernel.running cpu with
    | some (slot, .forkCopied child) => some (.forked slot.1 child)
    | _ => none
  | .exitFinish cpu =>
    match kernel.running cpu with
    | some (slot, .exiting) => some (.exited slot.1)
    | _ => none
  | label =>
    match kernel.waiter label with
    | some (_, slot) => (kernel.zombieChild slot.1).map (.returned slot.1)
    | none => none

/-- What a section does to the process table and to what the processes do. -/
inductive Change (kernel after : Kernel Cpu) (doing : ProcId → Doing) :
    (ProcId → Doing) → Option Event → Prop where
  | quiet {changed : ProcId → Doing} (roused : Roused doing changed)
      (procs : ∀ process, after.proc process = kernel.proc process ∨
        after.proc process = { kernel.proc process with killed := true })
      (pids : after.nextpid = kernel.nextpid) :
      Change kernel after doing changed none
  | reserve (process child : ProcId) (isDoing : doing process = .working)
      (free : doing child = .unused)
      (procs : after.proc = update kernel.proc child
        { kernel.proc child with
          state := .embryo
          numOfThreads := 0
          pid := kernel.nextpid })
      (pids : after.nextpid = kernel.nextpid + 2) :
      Change kernel after doing
        (update (update doing child (.embryo false)) process (.building child false)) none
  | giveUp (process child : ProcId) (isDoing : doing process = .building child false)
      (procs : after.proc = update kernel.proc child { kernel.proc child with state := .unused })
      (pids : after.nextpid = kernel.nextpid) :
      Change kernel after doing (update (update doing child .unused) process .working) none
  | copy (process child : ProcId) (isDoing : doing process = .building child false)
      (procs : after.proc = update kernel.proc child
        { kernel.proc child with parent := some process })
      (pids : after.nextpid = kernel.nextpid + 1) :
      Change kernel after doing
        (update (update doing child (.embryo true)) process (.building child true)) none
  | finish (process child : ProcId) (isDoing : doing process = .building child true)
      (procs : after.proc = update kernel.proc child
        { kernel.proc child with
          numOfThreads := 1
          state := .runnable })
      (pids : after.nextpid = kernel.nextpid) :
      Change kernel after doing
        (update (update doing child .working) process .working) (some (.forked process child))
  | leave (process : ProcId) (isDoing : doing process = .working)
      (notInit : process ≠ initproc) (procs : after.proc = kernel.proc)
      (pids : after.nextpid = kernel.nextpid) :
      Change kernel after doing (update doing process .exiting) none
  | die {changed : ProcId → Doing} (process : ProcId)
      (isDoing : doing process = .exiting) (roused : Roused doing changed)
      (parent : ∀ other, (kernel.proc process).parent = some other → changed other ≠ .asleep)
      (heir : ∀ child, (kernel.proc child).parent = some process →
        doing child = .zombie → changed initproc ≠ .asleep)
      (procs : after.proc = update (kernel.adopt process) process
        { kernel.adopt process process with
          killed := true
          state := .zombie })
      (pids : after.nextpid = kernel.nextpid) :
      Change kernel after doing (update changed process .zombie) (some (.exited process))
  | reap (process child : ProcId) (live : (doing process).Live)
      (isParent : (kernel.proc child).parent = some process)
      (isZombie : doing child = .zombie)
      (procs : after.proc = update kernel.proc child (kernel.proc child).released)
      (pids : after.nextpid = kernel.nextpid) :
      Change kernel after doing
        (update (update doing child .unused) process .working) (some (.returned process child))
  | refuse (process : ProcId) (live : (doing process).Live) (procs : after.proc = kernel.proc)
      (pids : after.nextpid = kernel.nextpid) :
      Change kernel after doing (update doing process .working) none
  | fallAsleep (process : ProcId) (live : (doing process).Live)
      (nothing : ∀ child, (kernel.proc child).parent = some process → doing child ≠ .zombie)
      (procs : after.proc = kernel.proc)
      (pids : after.nextpid = kernel.nextpid) :
      Change kernel after doing (update doing process .asleep) none

/-- A section turns what the processes do into something that the tables show
again. -/
def Follows (kernel after : Kernel Cpu) (doing : ProcId → Doing) (event : Option Event) : Prop :=
  ∃ status changed, Standing after status changed ∧ Change kernel after doing changed event

section Sections

variable {kernel after : Kernel Cpu} {status : Slot → Status Cpu}
variable {doing : ProcId → Doing}

section

variable (standing : Standing kernel status doing)
include standing

theorem Standing.follows_keep (process : ProcId)
    (view : View after (update status (mainThread process) new)) (shows : new.Shows (doing process))
    (procs : after.proc = kernel.proc) (pids : after.nextpid = kernel.nextpid)
    (chans : ∀ other, other ≠ process → (after.thread (mainThread other)).chan =
        (kernel.thread (mainThread other)).chan) (notAsleep : doing process ≠ .asleep) :
    Follows kernel after doing none :=
  ⟨_, doing, standing.keep view shows (fun other => by rw [procs]) chans notAsleep,
    .quiet (Roused.refl doing) (fun other => Or.inl (by rw [procs])) pids⟩

theorem Standing.follows_same (states : ∀ slot,
      (after.thread slot).state = (kernel.thread slot).state)
    (contexts : ∀ slot, (after.thread slot).context = (kernel.thread slot).context)
    (chans : ∀ slot, (after.thread slot).chan = (kernel.thread slot).chan)
    (running : after.running = kernel.running) (procs : after.proc = kernel.proc)
    (pids : after.nextpid = kernel.nextpid) :
    Follows kernel after doing none := by
  refine ⟨status, doing, ⟨standing.view.congr states contexts running,
    standing.single, standing.shown, ?_, ?_⟩,
    .quiet (Roused.refl doing) (fun other => Or.inl (by rw [procs])) pids⟩
  · rw [procs]
    exact standing.states
  · intro process asleep
    rw [chans]
    exact standing.chan process asleep

theorem wakeup1_follows (chan : Option Chan) : Follows kernel (kernel.wakeup1 chan) doing none := by
  obtain ⟨changed, newStatus, woken, roused, -⟩ := standing.wake (kernel.wakeup1 chan)
    (fun slot => (kernel.thread slot).state = .sleeping ∧
      (kernel.thread slot).chan = chan) (fun slot isWoken => isWoken.1)
    (fun slot => rfl) rfl (fun other => rfl)
  exact ⟨newStatus, changed, woken, .quiet roused (fun other => Or.inl rfl) rfl⟩

theorem kill_follows (pid : Int) : Follows kernel (kernel.kill pid) doing none := by
  unfold kill
  split
  next => exact standing.follows_same (fun _ => rfl) (fun _ => rfl) (fun _ => rfl) rfl rfl rfl
  next process _ =>
    obtain ⟨changed, newStatus, woken, roused, -⟩ := standing.wake { kernel.setKilled process with
        thread := fun slot =>
          if slot.1 = process ∧ (kernel.thread slot).state = .sleeping then
            { kernel.thread slot with state := .runnable }
          else
            kernel.thread slot }
      (fun slot => slot.1 = process ∧ (kernel.thread slot).state = .sleeping)
      (fun slot isWoken => isWoken.2) (fun slot => rfl) rfl
      (kernel.setKilled_proc_state process)
    refine ⟨newStatus, changed, woken, .quiet roused ?_ rfl⟩
    intro other
    rcases eq_or_ne other process with rfl | same
    · exact Or.inr (by simp [setKilled, setProc])
    · exact Or.inl (by simp [setKilled, setProc, same])

end

variable [DecidableEq Cpu] {cpu : Cpu}

section

variable (standing : Standing kernel status doing)

include standing

theorem scheduler_follows (result : kernel.scheduler cpu = some after) :
    Follows kernel after doing none := by
  unfold scheduler at result
  split at result
  · cases result
  rename_i idle
  split at result
  next =>
    cases result
    exact standing.follows_same (fun _ => rfl) (fun _ => rfl) (fun _ => rfl) rfl rfl rfl
  next slot foundEq =>
    obtain ⟨location, runnable⟩ := standing.view.status_of_runnable (nextRunnable_state foundEq)
    obtain ⟨process, rfl⟩ := standing.slot_eq (by rw [runnable]; simp)
    have context := standing.view.context_eq (mainThread process) location (by rw [runnable]; rfl)
    rw [context] at result
    cases result
    have shows := standing.shown process
    rw [runnable] at shows
    cases shows with
    | runnable isDoing =>
      refine standing.follows_keep process (standing.view.enter idle ?_ rfl rfl ?_ ?_ rfl)
        (.onCpu isDoing) rfl rfl ?_ ?_
      · rw [runnable]
        rfl
      · intro other differs
        simp [goTo, setState, setThread, update_of_ne differs]
      · simp [goTo, setState, setThread, Status.state]
      · intro other differs
        simp [goTo, setState, setThread, mainThread_ne differs]
      · exact Location.doing_ne_asleep isDoing

theorem yield_follows (result : kernel.yield cpu = some after) :
    Follows kernel after doing none := by
  unfold yield at result
  split at result
  · cases result
  rename_i slot location runs
  split at result <;> cases result
  obtain ⟨process, rfl, onCpu, isDoing⟩ := standing.acting runs
  refine standing.follows_keep process
    (standing.view.leaveTo runs rfl ?_ rfl) (.runnable isDoing) rfl rfl
    ?_ (Location.doing_ne_asleep isDoing)
  · intro place saved
    exact (some.inj saved).symm
  · intro other differs
    simp [sched, setState, setThread, mainThread_ne differs]

theorem fallAsleep_follows {call : SleepCall} (chan : Chan)
    (runs : kernel.running cpu = some (slot, location))
    (same : (Location.asleep call).doing = location.doing) (notWaiting : call ≠ .waiting) :
    Follows kernel (kernel.fallAsleep cpu slot chan call) doing none := by
  obtain ⟨process, rfl, onCpu, isDoing⟩ := standing.acting runs
  refine standing.follows_keep process (standing.view.leaveTo runs rfl ?_ rfl)
    (.sleeping (same.trans isDoing) notWaiting) rfl rfl ?_
    (Location.doing_ne_asleep isDoing)
  · intro place saved
    exact (some.inj saved).symm
  · intro other differs
    simp [fallAsleep, sched, setThread, mainThread_ne differs]

theorem sleep_follows {chan : Chan} (result : kernel.sleep cpu chan = some after) :
    Follows kernel after doing none := by
  unfold sleep at result
  split at result <;> cases result
  next slot runs => exact fallAsleep_follows standing chan runs rfl (by simp)
  next slot runs => exact fallAsleep_follows standing chan runs rfl (by simp)

theorem sleepReturn_follows (result : kernel.sleepReturn cpu = some after) :
    Follows kernel after doing none := by
  unfold sleepReturn at result
  split at result <;> cases result
  rename_i slot call runs
  obtain ⟨process, rfl, onCpu, isDoing⟩ := standing.acting runs
  refine standing.follows_keep process (standing.view.stay runs rfl rfl ?_ ?_ rfl)
    (.onCpu (SleepCall.resume_doing isDoing)) rfl rfl ?_
    (Location.doing_ne_asleep isDoing)
  · intro other differs
    simp [goTo, setThread, update_of_ne differs]
  · simp only [goTo, setThread, update_self]
    rw [standing.view.state_eq, onCpu]
    rfl
  · intro other differs
    simp [goTo, setThread, mainThread_ne differs]

end

/-! ## `fork` -/

/-- What a section of `fork` stores: the caller goes on at `next`, and the child
and its thread get new records. -/
structure Stores (kernel after : Kernel Cpu) (cpu : Cpu)
    (process child : ProcId) (next : Location) (proc : Proc) (thread : Thread) : Prop where
  procs : after.proc = update kernel.proc child proc
  threads : after.thread = update kernel.thread (mainThread child) thread
  running : after.running = update kernel.running cpu (some (mainThread process, next))

variable {child : ProcId}

section

variable (standing : Standing kernel status doing)
include standing

theorem Standing.build {place : Location} {proc : Proc} {thread : Thread} {now childNow : Doing}
    (next : Location) (runs : kernel.running cpu = some (mainThread process, place))
    (stores : Stores kernel after cpu process child next proc thread)
    (notLive : ¬ (doing child).Live) (new : Status Cpu) (offCpu : new.place = none)
    (stateEq : thread.state = new.state)
    (contextEq : ∀ location, new.saved = some location → thread.context = some location)
    (shows : new.Shows childNow) (procEq : proc.state = childNow.state)
    (isDoing : next.doing = some now) (childAwake : childNow ≠ .asleep) :
    ∃ newStatus, Standing after newStatus (update (update doing child childNow) process now) := by
  obtain ⟨acting, isMain, onCpu, wasDoing⟩ := standing.acting runs
  obtain rfl : process = acting := (Prod.mk.inj isMain).1
  have live := Location.doing_live wasDoing
  have differs : process ≠ child := by
    rintro rfl
    exact notLive live
  have others : ∀ other, other ≠ mainThread child → after.thread other = kernel.thread other := by
    intro other otherNe
    rw [stores.threads, update_of_ne otherNe]
  have reserved : View { kernel with thread := after.thread }
      (update status (mainThread child) new) := by
    apply standing.view.change ((standing.shown child).place_eq notLive) offCpu
    · intro other otherNe
      simp [others other otherNe]
    · simpa [stores.threads] using stateEq
    · intro location saved
      simpa [stores.threads] using contextEq location saved
    · rfl
  refine ⟨update (update status (mainThread child) new) (mainThread process) (.onCpu cpu next),
    ⟨reserved.stay runs rfl rfl ?_ ?_ stores.running, ?_, ?_, ?_, ?_⟩⟩
  · exact fun other _ => ⟨rfl, rfl⟩
  · rw [others _ (mainThread_ne differs), standing.view.state_eq, onCpu]
    rfl
  · intro slot other
    rw [update_of_ne, update_of_ne]
    · exact standing.single slot other
    · rintro rfl
      exact other rfl
    · rintro rfl
      exact other rfl
  · intro other
    rcases eq_or_ne other process with rfl | isProcess
    · rw [update_self, update_self]
      exact .onCpu isDoing
    · rw [update_of_ne isProcess, update_of_ne (mainThread_ne isProcess)]
      rcases eq_or_ne other child with rfl | isChild
      · rwa [update_self, update_self]
      · rw [update_of_ne isChild, update_of_ne (mainThread_ne isChild)]
        exact standing.shown other
  · intro other
    rw [stores.procs]
    rcases eq_or_ne other process with rfl | isProcess
    · rw [update_self, update_of_ne differs, standing.states, live, Location.doing_live isDoing]
    · rw [update_of_ne isProcess]
      rcases eq_or_ne other child with rfl | isChild
      · rw [update_self, update_self, procEq]
      · rw [update_of_ne isChild, update_of_ne isChild, standing.states]
  · intro other asleep
    rcases eq_or_ne other process with rfl | isProcess
    · rw [update_self] at asleep
      exact absurd asleep (Location.doing_ne_asleep isDoing)
    · rw [update_of_ne isProcess] at asleep
      rcases eq_or_ne other child with rfl | isChild
      · rw [update_self] at asleep
        exact absurd asleep childAwake
      · rw [update_of_ne isChild] at asleep
        rw [others _ (mainThread_ne isChild)]
        exact standing.chan other asleep

theorem fork_follows (result : kernel.fork cpu = some after) :
    Follows kernel after doing none := by
  unfold fork at result
  split at result
  swap
  · cases result
  rename_i slot runs
  split at result
  next =>
    cases result
    exact standing.follows_same (fun _ => rfl) (fun _ => rfl) (fun _ => rfl) rfl rfl rfl
  next child found =>
    obtain ⟨process, rfl, onCpu, isDoing⟩ := standing.acting runs
    have free : doing child = .unused := by
      have state := standing.states child
      rw [unusedProc_spec found] at state
      cases current : doing child <;> simp [current, Doing.state] at state
      rfl
    have stores : Stores kernel after cpu process child (.forkAllocated child)
        { kernel.proc child with
          state := .embryo
          numOfThreads := 0
          pid := kernel.nextpid }
        { kernel.thread (mainThread child) with
          state := .embryo
          pid := kernel.nextpid + 1
          incarnation :=
            (kernel.thread (mainThread child)).incarnation + 1 } := by
      cases result
      exact ⟨rfl, rfl, rfl⟩
    obtain ⟨newStatus, built⟩ := standing.build _ runs stores
      (by rw [free]; decide) (.embryo none) rfl rfl (by rintro _ ⟨⟩)
      .reserved rfl rfl (by simp)
    refine ⟨newStatus, _, built, .reserve process child
      (some.inj isDoing).symm free stores.procs ?_⟩
    cases result
    rfl

def Linked (doing : ProcId → Doing) : Prop :=
  ∀ process child copied, doing process = .building child copied → doing child = .embryo copied

theorem forkFail_follows (linked : Linked doing) (result : kernel.forkFail cpu = some after) :
    Follows kernel after doing none := by
  unfold forkFail at result
  split at result
  swap
  · cases result
  rename_i slot child runs
  obtain ⟨process, rfl, onCpu, isDoing⟩ := standing.acting runs
  have builds : doing process = .building child false := (some.inj isDoing).symm
  have stores : Stores kernel after cpu process child .user
      { kernel.proc child with state := .unused }
      { kernel.thread (mainThread child) with
        kstack := none
        state := .unused } := by
    cases result
    exact ⟨rfl, rfl, rfl⟩
  obtain ⟨newStatus, built⟩ := standing.build _ runs stores
    (by rw [linked _ _ _ builds]; decide) .unused rfl rfl (by rintro _ ⟨⟩)
    .unused rfl rfl (by simp)
  refine ⟨newStatus, _, built, .giveUp process child builds stores.procs ?_⟩
  cases result
  rfl

theorem forkCopy_follows (linked : Linked doing) {kstack : Nat}
    (result : kernel.forkCopy cpu kstack = some after) :
    Follows kernel after doing none := by
  unfold forkCopy at result
  split at result
  swap
  · cases result
  rename_i slot child runs
  obtain ⟨process, rfl, onCpu, isDoing⟩ := standing.acting runs
  have builds : doing process = .building child false := (some.inj isDoing).symm
  have embryo := linked _ _ _ builds
  have state := standing.states child
  have shows := standing.shown child
  rw [embryo] at state shows
  have isEmbryo : (kernel.thread (mainThread child)).state = .embryo := by
    rw [standing.view.state_eq, shows.embryo_eq]
    rfl
  have stores : Stores kernel after cpu process child (.forkCopied child)
      { kernel.proc child with parent := some process }
      { kernel.thread (mainThread child) with
        kstack := some kstack
        context := some .user
        pid := kernel.nextpid } := by
    cases result
    exact ⟨rfl, rfl, rfl⟩
  obtain ⟨newStatus, built⟩ := standing.build _ runs stores
    (by rw [embryo]; decide) (.embryo (some .user)) rfl isEmbryo
    (fun _ saved => saved) .copied state rfl (by simp)
  refine ⟨newStatus, _, built, .copy process child builds stores.procs ?_⟩
  cases result
  rfl

theorem forkFinish_follows (linked : Linked doing) (result : kernel.forkFinish cpu = some after) :
    Follows kernel after doing (kernel.event (.forkFinish cpu)) := by
  unfold forkFinish at result
  split at result
  swap
  · cases result
  rename_i slot child runs
  obtain ⟨process, rfl, onCpu, isDoing⟩ := standing.acting runs
  have builds : doing process = .building child true := (some.inj isDoing).symm
  have embryo := linked _ _ _ builds
  have shows := standing.shown child
  rw [embryo] at shows
  have context : (kernel.thread (mainThread child)).context = some .user := by
    apply standing.view.context_eq
    rw [shows.embryo_eq]
    rfl
  have stores : Stores kernel after cpu process child .user { kernel.proc child with
        numOfThreads := 1
        state := .runnable }
      { kernel.thread (mainThread child) with state := .runnable } := by
    cases result
    exact ⟨rfl, rfl, rfl⟩
  obtain ⟨newStatus, built⟩ := standing.build _ runs stores
    (by rw [embryo]; decide) (.runnable .user) rfl rfl
    (fun _ saved => context.trans saved) (.runnable rfl) rfl rfl (by simp)
  refine ⟨newStatus, _, built, ?_⟩
  rw [event, runs]
  refine .finish process child builds stores.procs ?_
  cases result
  rfl

end

/-! ## `exit` -/

omit [DecidableEq Cpu] in
theorem Standing.states_set (standing : Standing kernel status doing) {next : Doing}
    (live : (doing process).Live) (stillLive : next.Live) (other : ProcId) :
    (kernel.proc other).state = (update doing process next other).state := by
  rw [standing.states]
  rcases eq_or_ne other process with rfl | same
  · rw [update_self, live, stillLive]
  · rw [update_of_ne same]

theorem exit_follows (standing : Standing kernel status doing)
    (result : kernel.exit cpu = some after) :
    Follows kernel after doing none := by
  unfold exit at result
  split at result
  swap
  · cases result
  rename_i slot runs
  split at result <;> cases result
  rename_i notInit
  obtain ⟨process, rfl, onCpu, isDoing⟩ := standing.acting runs
  have working : doing process = .working := (some.inj isDoing).symm
  have live : (doing process).Live := by rw [working]; rfl
  have moved : View (kernel.goTo cpu (mainThread process) .exiting)
      (update status (mainThread process) (.onCpu cpu .exiting)) :=
    standing.view.move onCpu (fun _ => rfl) (fun _ _ => rfl) rfl
  have shows : (Status.onCpu cpu .exiting).Shows .exiting := .onCpu rfl
  exact ⟨_, _, standing.set moved shows (standing.states_set live rfl) (fun _ _ => rfl) (by simp),
    .leave process working notInit rfl rfl⟩

def ExitWakes (kernel : Kernel Cpu) (process : ProcId) (slot : Slot) : Prop :=
  (kernel.thread slot).state = .sleeping ∧
    ((kernel.thread slot).chan = (kernel.proc process).parent.map .proc ∨
      (kernel.zombieChild process).isSome ∧ (kernel.thread slot).chan = some (.proc initproc))

instance (kernel : Kernel Cpu) (process : ProcId) : DecidablePred (kernel.ExitWakes process) :=
  fun _ => inferInstanceAs (Decidable (_ ∧ _))

section

omit [DecidableEq Cpu]

theorem abandonChildren_thread (kernel : Kernel Cpu) (process : ProcId) (slot : Slot) :
    (kernel.abandonChildren process).thread slot = if kernel.ExitWakes process slot then
        { kernel.thread slot with state := .runnable }
      else
        kernel.thread slot := by
  unfold abandonChildren ExitWakes
  by_cases passesZombie : (kernel.zombieChild process).isSome
  · by_cases sleeps : (kernel.thread slot).state = .sleeping
    · by_cases first : (kernel.thread slot).chan = (kernel.proc process).parent.map .proc
      · simp [passesZombie, wakeup1, sleeps, first]
      · simp [passesZombie, wakeup1, sleeps, first]
    · simp [passesZombie, wakeup1, sleeps]
  · simp [passesZombie, wakeup1]

theorem Standing.sleeping_of_asleep (standing : Standing kernel status doing)
    (asleep : doing process = .asleep) :
    (kernel.thread (mainThread process)).state = .sleeping := by
  have shows := standing.shown process
  rw [standing.view.state_eq]
  generalize status (mainThread process) = mainStatus at shows ⊢
  rw [asleep] at shows
  cases shows with
  | onCpu isDoing | runnable isDoing => exact absurd rfl (Location.doing_ne_asleep isDoing)
  | sleeping isDoing | asleep => rfl

theorem killSiblings_thread (view : View kernel status)
    (single : ∀ slot, slot ≠ mainThread slot.1 → status slot = .unused) (process : ProcId) :
    (kernel.killSiblings (mainThread process)).thread = kernel.thread := by
  funext slot
  simp only [killSiblings]
  rw [if_neg]
  rintro ⟨inProcess, -, used, other⟩
  apply used
  rw [view.state_eq, single]
  · rfl
  · intro isMain
    rw [isMain, inProcess] at other
    exact other rfl

theorem not_procIsAlive (view : View kernel status)
    (single : ∀ slot, slot ≠ mainThread slot.1 → status slot = .unused) (process : ProcId) :
    (kernel.setState (mainThread process) .zombie).procIsAlive process =
      false := by
  simp only [procIsAlive, List.any_eq_false, decide_eq_true_eq, Decidable.not_not]
  intro index _
  by_cases isMain : (process, index) = mainThread process
  · rw [isMain]
    exact Or.inl (by simp [setState, setThread])
  · right
    simp only [setState, setThread, update_of_ne isMain]
    rw [view.state_eq, single _ isMain]
    rfl

end

section

variable (standing : Standing kernel status doing)

include standing

omit [DecidableEq Cpu] in
theorem Standing.zombieChild_isSome (isChild : (kernel.proc child).parent = some process)
    (isZombie : doing child = .zombie) :
    (kernel.zombieChild process).isSome := by
  rw [zombieChild, List.find?_isSome]
  refine ⟨child, List.mem_finRange child, ?_⟩
  rw [standing.states, isZombie, isChild]
  simp [Doing.state]

theorem exitFinish_follows (result : kernel.exitFinish cpu = some after) :
    Follows kernel after doing (kernel.event (.exitFinish cpu)) := by
  unfold exitFinish at result
  split at result
  swap
  · cases result
  rename_i slot runs
  obtain ⟨process, rfl, onCpu, isDoing⟩ := standing.acting runs
  obtain ⟨thread, isLeft⟩ := kernel.abandonChildren_eq process
  rw [event, runs]
  obtain ⟨changed, newStatus, woken, roused, placed, awake⟩ :=
    standing.wake (kernel.abandonChildren process)
      (kernel.ExitWakes process) (fun slot wakes => wakes.1)
      (kernel.abandonChildren_thread process)
      (by rw [isLeft]) (fun other => by rw [isLeft]; exact adopt_state ..)
  have ended : View ((kernel.abandonChildren process).setKilled process)
      newStatus := woken.view
  have threads : (kernel.endProcess (mainThread process)).thread =
      (kernel.abandonChildren process).thread :=
    killSiblings_thread ended woken.single process
  have endedView : View (kernel.endProcess (mainThread process))
      newStatus := by
    apply ended.congr
    · exact fun slot => by rw [threads]; rfl
    · exact fun slot => by rw [threads]; rfl
    · rfl
  have dead : ((kernel.endProcess (mainThread process)).setState
      (mainThread process) .zombie).procIsAlive (mainThread process).1 =
        false := not_procIsAlive endedView woken.single process
  dsimp only at result
  rw [dead, if_neg (by simp)] at result
  have runsEnded : (kernel.endProcess (mainThread process)).running cpu =
      some (mainThread process, .exiting) := by
    rw [endProcess_running, runs]
  have left : View after (update newStatus (mainThread process) .zombie) := by
    cases result
    apply endedView.leave runsEnded rfl
    · intro other differs
      simp [sched, setState, setThread, setProc, update_of_ne differs]
    · simp [sched, setState, setThread, setProc, Status.state]
    · intro place saved
      cases saved
    · rfl
  have procs : after.proc = update (kernel.adopt process) process
      { kernel.adopt process process with
        killed := true
        state := .zombie } := by
    cases result
    simp [sched, setState, setThread, setProc, endProcess, killSiblings, setKilled, isLeft]
  have chans : ∀ other, other ≠ process → (after.thread (mainThread other)).chan =
        ((kernel.abandonChildren process).thread (mainThread other)).chan := by
    cases result
    intro other differs
    simp [sched, setState, setThread, setProc, mainThread_ne differs, threads]
  have states : ∀ other, (after.proc other).state =
      (update changed process .zombie other).state := by
    intro other
    rw [procs]
    rcases eq_or_ne other process with rfl | same
    · rw [update_self, update_self]
      rfl
    · rw [update_of_ne same, update_of_ne same, ← woken.states, isLeft]
  refine ⟨_, _, woken.set left .zombie states chans (by simp),
    .die process (some.inj isDoing).symm roused ?_ ?_ procs ?_⟩
  · intro other isParent asleep
    have wasAsleep := roused.asleep asleep
    refine awake other ⟨standing.sleeping_of_asleep wasAsleep, Or.inl ?_⟩ asleep
    rw [standing.chan other wasAsleep, isParent]
    rfl
  · intro child isChild isZombie asleep
    have wasAsleep := roused.asleep asleep
    exact awake initproc ⟨standing.sleeping_of_asleep wasAsleep,
      Or.inr ⟨standing.zombieChild_isSome isChild isZombie,
        standing.chan initproc wasAsleep⟩⟩ asleep
  · cases result
    simp [sched, setState, setThread, setProc, endProcess, killSiblings, setKilled, isLeft]

/-! ## `wait` -/

omit [DecidableEq Cpu] in
theorem Standing.release (isZombie : doing child = .zombie) {proc : Proc}
    (state : proc.state = .unused) :
    Standing (kernel.setProc child proc) status (update doing child .unused) where
  __ := standing
  shown := by
    intro other
    rcases eq_or_ne other child with rfl | same
    · have shows := standing.shown other
      rw [update_self]
      generalize status (mainThread other) = mainStatus at shows ⊢
      rw [isZombie] at shows
      cases shows with
      | onCpu isDoing | runnable isDoing | sleeping isDoing => cases Location.doing_live isDoing
      | zombie => exact .released
    · rw [update_of_ne same]
      exact standing.shown other
  states := by
    intro other
    rcases eq_or_ne other child with rfl | same
    · simp [setProc, state, Doing.state]
    · simp [setProc, same, standing.states]
  chan := by
    intro other asleep
    rcases eq_or_ne other child with rfl | same
    · rw [update_self] at asleep
      cases asleep
    · rw [update_of_ne same] at asleep
      exact standing.chan other asleep

omit [DecidableEq Cpu] in
theorem Standing.zombieChild_spec (found : kernel.zombieChild process = some child) :
    (kernel.proc child).parent = some process ∧ doing child = .zombie := by
  have zombie := List.find?_some found
  simp only [Bool.and_eq_true, beq_iff_eq] at zombie
  refine ⟨zombie.1, ?_⟩
  have state := standing.states child
  rw [zombie.2] at state
  cases current : doing child <;> simp [current, Doing.state] at state
  rfl

theorem waitSection_follows (runs : kernel.running cpu = some (slot, location)) :
    Follows kernel (kernel.waitSection cpu slot) doing
      ((kernel.zombieChild slot.1).map (.returned slot.1)) := by
  obtain ⟨process, rfl, onCpu, isDoing⟩ := standing.acting runs
  have live := Location.doing_live isDoing
  unfold waitSection
  rw [mainThread_fst]
  split
  next child found =>
    obtain ⟨isParent, isZombie⟩ := standing.zombieChild_spec found
    have differs : process ≠ child := by
      rintro rfl
      rw [isZombie] at live
      cases live
    have threads : (kernel.reapZombies process).thread = kernel.thread := by
      funext slot
      simp only [reapZombies]
      rw [if_neg]
      rintro ⟨inProcess, zombie⟩
      rw [standing.view.state_eq] at zombie
      by_cases isMain : slot = mainThread slot.1
      · rw [isMain, inProcess, onCpu] at zombie
        cases zombie
      · rw [standing.single slot isMain] at zombie
        cases zombie
    have released : Standing (kernel.setProc child (kernel.proc child).released) status
        (update doing child .unused) :=
      standing.release isZombie rfl
    have moved : View (((kernel.reapZombies process).setProc child
        (kernel.proc child).released).goTo cpu (mainThread process) .user)
        (update status (mainThread process) (.onCpu cpu .user)) := by
      apply standing.view.move onCpu
      · exact fun other => by rw [goTo_thread, setProc_thread, threads]
      · exact fun other _ => by rw [goTo_thread, setProc_thread, threads]
      · rfl
    have shows : (Status.onCpu cpu .user).Shows .working := .onCpu rfl
    rw [found]
    refine ⟨_, _, released.set moved shows (released.states_set (by rwa [update_of_ne differs]) rfl)
      (fun other _ => ?_) (by simp),
      .reap process child live isParent isZombie rfl rfl⟩
    rw [goTo_thread, setProc_thread, threads, setProc_thread]
  next nothing =>
    rw [nothing]
    split
    next =>
      have left : View (kernel.fallAsleep cpu (mainThread process) (.proc process) .waiting)
          (update status (mainThread process) (.sleeping (.asleep .waiting))) := by
        apply standing.view.leaveTo runs rfl _ rfl
        intro place saved
        exact (some.inj saved).symm
      refine ⟨_, _, standing.set left .asleep (standing.states_set live rfl)
        (fun other differs => ?_) (fun _ => ?_),
        .fallAsleep process live (fun child isChild isZombie => ?_) rfl rfl⟩
      · simp [fallAsleep, sched, setThread, mainThread_ne differs]
      · simp [fallAsleep, sched, setThread]
      · have found := standing.zombieChild_isSome isChild isZombie
        rw [nothing] at found
        cases found
    next =>
      have moved : View (kernel.goTo cpu (mainThread process) .user)
          (update status (mainThread process) (.onCpu cpu .user)) :=
        standing.view.move onCpu (fun _ => rfl) (fun _ _ => rfl) rfl
      have shows : (Status.onCpu cpu .user).Shows .working := .onCpu rfl
      exact ⟨_, _, standing.set moved shows (standing.states_set live rfl)
        (fun _ _ => rfl) (by simp), .refuse process live rfl rfl⟩

omit [DecidableEq Cpu] in
theorem Standing.asleep_of_context (sleeps : (kernel.thread slot).state = .sleeping)
    (context : (kernel.thread slot).context = some (.asleep .waiting)) :
    ∃ process, slot = mainThread process ∧ doing process = .asleep := by
  rw [standing.view.state_eq] at sleeps
  obtain ⟨location, isSleeping⟩ : ∃ location, status slot = .sleeping location := by
    cases current : status slot <;> simp [current, Status.state] at sleeps
    exact ⟨_, rfl⟩
  obtain ⟨process, rfl⟩ := standing.slot_eq (by rw [isSleeping]; simp)
  have saved := standing.view.context_eq (mainThread process) location (by rw [isSleeping]; rfl)
  rw [context] at saved
  cases saved
  have shows := standing.shown process
  rw [isSleeping] at shows
  generalize isWhat : doing process = what at shows
  cases shows with
  | sleeping isDoing notWaiting => exact absurd rfl notWaiting
  | asleep => exact ⟨process, rfl, isWhat⟩

theorem step_follows (linked : Linked doing) {label : Label Cpu} (oneThread : label.OneThread)
    (stepTo : kernel.step label = some after) :
    Follows kernel after doing (kernel.event label) := by
  cases label with
  | scheduler cpu => exact scheduler_follows standing stepTo
  | yield cpu => exact yield_follows standing stepTo
  | sleep cpu chan => exact sleep_follows standing stepTo
  | sleepReturn cpu => exact sleepReturn_follows standing stepTo
  | wakeup chan =>
    cases stepTo
    exact wakeup1_follows standing (some chan)
  | kill pid =>
    cases stepTo
    exact kill_follows standing pid
  | fork cpu => exact fork_follows standing stepTo
  | forkFail cpu => exact forkFail_follows standing linked stepTo
  | forkCopy cpu kstack => exact forkCopy_follows standing linked stepTo
  | forkFinish cpu => exact forkFinish_follows standing linked stepTo
  | exit cpu => exact exit_follows standing stepTo
  | exitFinish cpu => exact exitFinish_follows standing stepTo
  | wait cpu | waitRescan cpu =>
    simp only [step] at stepTo
    split at stepTo <;> cases stepTo
    next slot runs =>
      have follows := waitSection_follows standing runs
      simpa only [event, waiter, runs] using follows
  | _ => exact oneThread.elim

end

end Sections

end Kernel

end Xv6Kthreads
