import Xv6Kthreads.KernelDispatch

/-!
# Threads under construction and dying threads

`kthread_create` and `fork` reserve a thread slot under `ptable.lock` and
finish it without the lock, and the last thread of a process runs `exit` as a
zombie.  This file states what ties such threads to their process and to each
other, and shows that the elementary changes of which the process calls are
made keep it.
-/

namespace Xv6Kthreads

open Function

/-- A thread or a process that `kthread_create` or `fork` has reserved and not
yet finished. -/
inductive Construction where
  | thread (slot : Slot)
  | process (child : ProcId) (copied : Bool)

namespace Construction

def target : Construction → Slot
  | .thread slot => slot
  | .process child _ => mainThread child

def prepared : Construction → Option Location
  | .process _ true => some .user
  | _ => none

end Construction

def Location.construction : Location → Option Construction
  | .createAllocated slot => some (.thread slot)
  | .forkAllocated child => some (.process child false)
  | .forkCopied child => some (.process child true)
  | _ => none

theorem Location.Plain.construction_eq {location : Location} (plain : location.Plain) :
    location.construction = none := by
  cases location <;> first | rfl | exact plain.elim

namespace Kernel

variable {Cpu : Type*}

namespace Status

def construction (status : Status Cpu) : Option Construction :=
  status.location.bind Location.construction

/-- `UNUSED`, or `ZOMBIE` and off every processor. -/
inductive Gone : Status Cpu → Prop where
  | zombie : Gone .zombie
  | unused : Gone .unused

variable {status : Status Cpu}

theorem Gone.location_eq (gone : status.Gone) : status.location = none := by
  cases gone <;> rfl

theorem construction_of_location_none (nowhere : status.location = none) :
    status.construction = none := by
  rw [construction, nowhere]
  rfl

theorem Gone.construction_eq (gone : status.Gone) : status.construction = none :=
  construction_of_location_none gone.location_eq

theorem place_of_location_none (nowhere : status.location = none) : status.place = none := by
  cases status <;> first | rfl | simp [location] at nowhere

theorem Gone.saved_eq (gone : status.Gone) : status.saved = none := by
  cases gone <;> rfl

theorem QueuedOn.location_ne_none {index : MutexId} (queued : status.QueuedOn index) :
    status.location ≠ none := by
  cases queued <;> simp [location]

/-- Scheduling and mutex sections leave constructions where they are. -/
theorem Tame.construction_eq {before after : Status Cpu} (tame : Tame before after) :
    after.construction = before.construction := by
  cases tame with
  | quiet quiet =>
    cases quiet with
    | fallAsleep _ _ plain => exact plain.construction_eq.symm
    | move _ plain targetPlain => exact targetPlain.construction_eq.trans plain.construction_eq.symm
    | _ => rfl
  | _ => rfl

/-- `kalloc` has returned a kernel stack for the thread and `kfree` has not got
it back. -/
def stacked : Status Cpu → Bool
  | .embryo prepared => prepared.isSome
  | .unused => false
  | _ => true

theorem Tame.stacked_eq {before after : Status Cpu} (tame : Tame before after) :
    after.stacked = before.stacked := by
  cases tame with
  | quiet quiet => cases quiet <;> rfl
  | _ => rfl

theorem stacked_of_state (notUnused : status.state ≠ .unused) (notEmbryo : status.state ≠ .embryo) :
    status.stacked = true := by
  cases status with
  | embryo prepared => exact absurd rfl notEmbryo
  | unused => exact absurd rfl notUnused
  | _ => rfl

theorem Tame.location_isSome {before after : Status Cpu}
    (tame : Tame before after) (somewhere : after.location.isSome) :
    before.location.isSome := by
  cases tame with
  | quiet quiet =>
    cases quiet with
    | refl => exact somewhere
    | _ => rfl
  | _ => rfl

theorem Tame.eq_of_location_none {before after : Status Cpu}
    (tame : Tame before after) (nowhere : before.location = none) :
    after = before := by
  cases tame with
  | quiet quiet =>
    cases quiet with
    | refl => rfl
    | _ => simp [location] at nowhere
  | _ => simp [location] at nowhere

end Status

/-- What ties threads under construction and dying threads to their processes
and to each other. -/
structure Lifecycle (kernel : Kernel Cpu) (status : Slot → Status Cpu) : Prop where
  embryo : ∀ slot construction, (status slot).construction = some construction →
      status construction.target = .embryo construction.prepared
  unique : ∀ first second firstBuilds secondBuilds, (status first).construction = some firstBuilds →
      (status second).construction = some secondBuilds →
        firstBuilds.target = secondBuilds.target → first = second
  sibling : ∀ slot target, (status slot).construction = some (.thread target) → target.1 = slot.1
  child : ∀ slot child copied, (status slot).construction = some (.process child copied) →
      (kernel.proc child).state = .embryo
  live : ∀ slot, (status slot).location.isSome → (kernel.proc slot.1).state = .runnable
  lastExit : ∀ slot cpu, status slot = .lastExit cpu →
    ∀ other, other.1 = slot.1 → other ≠ slot → (status other).Gone

section Elementary

variable {kernel after : Kernel Cpu} {status changed : Slot → Status Cpu}

section

variable (life : Lifecycle kernel status)
include life

theorem Lifecycle.tame (tame : ∀ slot, (status slot).Tame (changed slot))
    (procs : ∀ process, (after.proc process).state = (kernel.proc process).state) :
    Lifecycle after changed where
  embryo slot construction builds := by
    rw [(tame slot).construction_eq] at builds
    have embryo := life.embryo slot construction builds
    rw [(tame _).eq_of_location_none (by rw [embryo]; rfl), embryo]
  unique first second firstBuilds secondBuilds firstEq secondEq := by
    rw [(tame _).construction_eq] at firstEq secondEq
    exact life.unique first second firstBuilds secondBuilds firstEq secondEq
  sibling slot target builds := by
    rw [(tame slot).construction_eq] at builds
    exact life.sibling slot target builds
  child slot child copied builds := by
    rw [(tame slot).construction_eq] at builds
    rw [procs]
    exact life.child slot child copied builds
  live slot somewhere := by
    rw [procs]
    exact life.live slot ((tame slot).location_isSome somewhere)
  lastExit slot cpu exiting other sameProc differs := by
    have wasExiting := tame slot
    rw [exiting] at wasExiting
    have gone := life.lastExit slot cpu wasExiting.lastExit_inv other sameProc differs
    rw [(tame other).eq_of_location_none gone.location_eq]
    exact gone

/-- Threads that are not under construction die or are released. -/
theorem Lifecycle.bury (dying : ∀ slot, changed slot = status slot ∨
      (changed slot).Gone ∧ ∀ prepared, status slot ≠ .embryo prepared)
    (procs : ∀ process, (after.proc process).state = (kernel.proc process).state) :
    Lifecycle after changed := by
  have building : ∀ slot construction, (changed slot).construction = some construction →
        (status slot).construction = some construction := by
    intro slot construction builds
    rcases dying slot with same | ⟨gone, -⟩
    · rwa [same] at builds
    · rw [gone.construction_eq] at builds
      simp at builds
  refine ⟨?_, ?_, ?_, ?_, ?_, ?_⟩
  · intro slot construction builds
    have embryo := life.embryo slot construction (building _ _ builds)
    rcases dying construction.target with same | ⟨-, notEmbryo⟩
    · rw [same, embryo]
    · exact absurd embryo (notEmbryo _)
  · intro first second firstBuilds secondBuilds firstEq secondEq
    exact life.unique first second firstBuilds secondBuilds
      (building _ _ firstEq) (building _ _ secondEq)
  · intro slot target builds
    exact life.sibling slot target (building _ _ builds)
  · intro slot child copied builds
    rw [procs]
    exact life.child slot child copied (building _ _ builds)
  · intro slot somewhere
    rw [procs]
    rcases dying slot with same | ⟨gone, -⟩
    · rw [same] at somewhere
      exact life.live slot somewhere
    · simp [gone.location_eq] at somewhere
  · intro slot cpu exiting other sameProc differs
    rcases dying slot with same | ⟨gone, -⟩
    · rw [same] at exiting
      rcases dying other with sameOther | ⟨goneOther, -⟩
      · rw [sameOther]
        exact life.lastExit slot cpu exiting other sameProc differs
      · exact goneOther
    · rw [exiting] at gone
      cases gone

/-- The state of a process without live threads and outside construction
changes. -/
theorem Lifecycle.setProcState {process : ProcId}
    (others : ∀ other, other ≠ process → (after.proc other).state = (kernel.proc other).state)
    (noLive : ∀ slot, slot.1 = process → (status slot).location = none)
    (notBuilt : ∀ slot copied, (status slot).construction ≠ some (.process process copied)) :
    Lifecycle after status where
  __ := life
  child slot child copied builds := by
    rw [others]
    · exact life.child slot child copied builds
    · rintro rfl
      exact notBuilt slot copied builds
  live slot somewhere := by
    rw [others]
    · exact life.live slot somewhere
    · intro inProcess
      simp [noLive slot inProcess] at somewhere

/-- The last thread of a process goes on in `exit` as a zombie. -/
theorem Lifecycle.exitLast {slot : Slot} {cpu : Cpu} (acting : status slot = .onCpu cpu .user)
    (siblings : ∀ other, other.1 = slot.1 → other ≠ slot → (status other).Gone)
    (procs : ∀ process, (after.proc process).state = (kernel.proc process).state) :
    Lifecycle after (update status slot (.lastExit cpu)) := by
  have building : ∀ other construction,
      (update status slot (.lastExit cpu) other).construction = some construction →
        other ≠ slot ∧ (status other).construction = some construction := by
    intro other construction builds
    rcases eq_or_ne other slot with rfl | same
    · simp [Status.construction, Status.location, Location.construction] at builds
    · rw [update_of_ne same] at builds
      exact ⟨same, builds⟩
  refine ⟨?_, ?_, ?_, ?_, ?_, ?_⟩
  · intro other construction builds
    have embryo := life.embryo other construction (building _ _ builds).2
    rw [update_of_ne, embryo]
    intro same
    simp [same, acting] at embryo
  · intro first second firstBuilds secondBuilds firstEq secondEq
    exact life.unique first second firstBuilds secondBuilds
      (building _ _ firstEq).2 (building _ _ secondEq).2
  · intro other target builds
    exact life.sibling other target (building _ _ builds).2
  · intro other child copied builds
    rw [procs]
    exact life.child other child copied (building _ _ builds).2
  · intro other somewhere
    rw [procs]
    rcases eq_or_ne other slot with rfl | same
    · exact life.live other (by rw [acting]; rfl)
    · rw [update_of_ne same] at somewhere
      exact life.live other somewhere
  · intro first firstCpu exiting other sameProc differs
    rcases eq_or_ne first slot with rfl | isSlot
    · rw [update_of_ne differs]
      exact siblings other sameProc differs
    · rw [update_of_ne isSlot] at exiting
      rcases eq_or_ne other slot with rfl | otherIsSlot
      · have gone := life.lastExit first firstCpu exiting other sameProc differs
        rw [acting] at gone
        cases gone
      · rw [update_of_ne otherIsSlot]
        exact life.lastExit first firstCpu exiting other sameProc differs

end

end Elementary

def stackHolders (status : Slot → Status Cpu) (slot : Slot) : Bool :=
  (status slot).stacked

/-- One section of `kthread_create` or `fork`, by `actor` on the reserved slot
`target`. -/
structure Build (kernel after : Kernel Cpu) (status : Slot → Status Cpu)
    (cpu : Cpu) (actor target : Slot) (place next : Location) (new : Status Cpu) : Prop where
  acting : status actor = .onCpu cpu place
  notQueued : ∀ index, place ≠ .lockQueued index
  idle : (status target).location = none
  offCpu : new.place = none
  notBuilding : new.construction = none
  alone : ∀ other construction, other ≠ actor → (status other).construction = some construction →
      construction.target ≠ target
  reserves : ∀ construction, next.construction = some construction →
    construction.target = target ∧ new = .embryo construction.prepared
  sibling : ∀ slot, next.construction = some (.thread slot) → slot.1 = actor.1
  child : ∀ child copied, next.construction = some (.process child copied) →
      (after.proc child).state = .embryo
  live : new.location.isSome → (after.proc target.1).state = .runnable
  noLastExit : ∀ slot cpu, status slot = .lastExit cpu → slot.1 ≠ target.1
  procs : ∀ process, (after.proc process).state = (kernel.proc process).state ∨
      (∀ slot, slot.1 = process → (status slot).location = none) ∧ ∀ other copied, other ≠ actor →
          (status other).construction ≠ some (.process process copied)

section Building

variable {kernel after : Kernel Cpu} {status : Slot → Status Cpu} {cpu : Cpu}
variable {actor target : Slot} {place next : Location} {new : Status Cpu}

theorem Build.actor_ne_target (build : Build kernel after status cpu actor target place next new) :
    actor ≠ target := by
  rintro rfl
  have idle := build.idle
  rw [build.acting] at idle
  simp [Status.location] at idle

def built (status : Slot → Status Cpu) (cpu : Cpu) (actor target : Slot)
    (next : Location) (new : Status Cpu) : Slot → Status Cpu :=
  update (update status target new) actor (.onCpu cpu next)

theorem built_actor : built status cpu actor target next new actor =
    .onCpu cpu next := by
  simp [built]

theorem built_target (differs : actor ≠ target) :
    built status cpu actor target next new target = new := by
  simp [built, Ne.symm differs]

theorem built_other {slot : Slot} (notActor : slot ≠ actor) (notTarget : slot ≠ target) :
    built status cpu actor target next new slot = status slot := by
  simp [built, notActor, notTarget]

theorem Build.stacked_eq (build : Build kernel after status cpu actor target place next new)
    (slot : Slot) :
    (built status cpu actor target next new slot).stacked =
      update (stackHolders status) target new.stacked slot := by
  rcases eq_or_ne slot target with rfl | isTarget
  · rw [built_target build.actor_ne_target, update_self]
  · rw [update_of_ne isTarget]
    rcases eq_or_ne slot actor with rfl | isActor
    · rw [built_actor, stackHolders, build.acting]
      rfl
    · rw [built_other isActor isTarget]
      rfl

theorem Build.construction_cases (build : Build kernel after status cpu actor target place next new)
    {slot : Slot} {construction : Construction}
    (builds : (built status cpu actor target next new slot).construction = some construction) :
    slot = actor ∧ next.construction = some construction ∨ slot ≠ actor ∧ slot ≠ target ∧
        (status slot).construction = some construction := by
  rcases eq_or_ne slot actor with rfl | isActor
  · rw [built_actor] at builds
    exact Or.inl ⟨rfl, builds⟩
  · rcases eq_or_ne slot target with rfl | isTarget
    · rw [built_target build.actor_ne_target, build.notBuilding] at builds
      simp at builds
    · rw [built_other isActor isTarget] at builds
      exact Or.inr ⟨isActor, isTarget, builds⟩

/-- The sections of `kthread_create` and `fork` keep the ties. -/
theorem Lifecycle.build (life : Lifecycle kernel status)
    (build : Build kernel after status cpu actor target place next new) :
    Lifecycle after (built status cpu actor target next new) := by
  have differs := build.actor_ne_target
  refine ⟨?_, ?_, ?_, ?_, ?_, ?_⟩
  · intro slot construction builds
    rcases build.construction_cases builds with ⟨-, reserved⟩ | other
    · obtain ⟨rfl, rfl⟩ := build.reserves construction reserved
      exact built_target differs
    · obtain ⟨notActor, -, builds⟩ := other
      have embryo := life.embryo slot construction builds
      rw [built_other, embryo]
      · intro isActor
        rw [isActor, build.acting] at embryo
        simp at embryo
      · exact build.alone slot construction notActor builds
  · intro first second firstBuilds secondBuilds firstEq secondEq sameTarget
    rcases build.construction_cases firstEq with ⟨rfl, reserved⟩ | firstOther
    · rcases build.construction_cases secondEq with ⟨rfl, -⟩ | secondOther
      · rfl
      · obtain ⟨notActor, -, builds⟩ := secondOther
        exact absurd (sameTarget.symm.trans (build.reserves firstBuilds reserved).1)
          (build.alone second secondBuilds notActor builds)
    · obtain ⟨firstNe, -, firstWas⟩ := firstOther
      rcases build.construction_cases secondEq with ⟨rfl, reserved⟩ | second_
      · exact absurd (sameTarget.trans (build.reserves secondBuilds reserved).1)
          (build.alone first firstBuilds firstNe firstWas)
      · exact life.unique first second firstBuilds secondBuilds firstWas second_.2.2 sameTarget
  · intro slot sibling builds
    rcases build.construction_cases builds with ⟨rfl, reserved⟩ | other
    · exact build.sibling sibling reserved
    · exact life.sibling slot sibling other.2.2
  · intro slot child copied builds
    rcases build.construction_cases builds with ⟨rfl, reserved⟩ | other
    · exact build.child child copied reserved
    · obtain ⟨notActor, -, builds⟩ := other
      rcases build.procs child with same | ⟨-, notBuilt⟩
      · rw [same]
        exact life.child slot child copied builds
      · exact absurd builds (notBuilt slot copied notActor)
  · intro slot somewhere
    rcases eq_or_ne slot target with rfl | isTarget
    · rw [built_target differs] at somewhere
      exact build.live somewhere
    · have wasSomewhere : (status slot).location.isSome := by
        by_cases isActor : slot = actor
        · rw [isActor, build.acting]
          rfl
        · rwa [built_other isActor isTarget] at somewhere
      rcases build.procs slot.1 with same | ⟨noLive, -⟩
      · rw [same]
        exact life.live slot wasSomewhere
      · simp [noLive slot rfl] at wasSomewhere
  · intro slot exitCpu exiting other sameProc otherNe
    have slotNe : slot ≠ actor := by
      rintro rfl
      rw [built_actor] at exiting
      simp at exiting
    rcases eq_or_ne slot target with rfl | isTarget
    · rw [built_target differs] at exiting
      have offCpu := build.offCpu
      simp [exiting, Status.place] at offCpu
    · rw [built_other slotNe isTarget] at exiting
      have gone := life.lastExit slot exitCpu exiting other sameProc otherNe
      rw [built_other]
      · exact gone
      · rintro rfl
        rw [build.acting] at gone
        cases gone
      · rintro rfl
        exact build.noLastExit slot exitCpu exiting sameProc.symm

end Building

/-- The kernel between two sections of a run in which threads are created and
die in order. -/
structure Coherent (kernel : Kernel Cpu) (status : Slot → Status Cpu)
    (waiters : MutexId → List QueueEntry) : Prop where
  view : View kernel status
  queues : Queues kernel status waiters
  life : Lifecycle kernel status

/-- The ties hold, and the given threads are those with a kernel stack. -/
def Stacked (kernel : Kernel Cpu) (waiters : MutexId → List QueueEntry)
    (holders : Slot → Bool) : Prop :=
  ∃ status, Coherent kernel status waiters ∧ ∀ slot, (status slot).stacked = holders slot

section Stacks

variable {kernel : Kernel Cpu} {status changed : Slot → Status Cpu}
variable {waiters : MutexId → List QueueEntry} {slot : Slot}

theorem Coherent.stacked (coherent : Coherent kernel status waiters) :
    Stacked kernel waiters (stackHolders status) :=
  ⟨status, coherent, fun _ => rfl⟩

theorem Stacked.congr {holders : Slot → Bool}
    (stacked : Stacked kernel waiters (stackHolders changed))
    (same : ∀ slot, (changed slot).stacked = holders slot) :
    Stacked kernel waiters holders := by
  obtain ⟨final, coherent, finalHolders⟩ := stacked
  exact ⟨final, coherent, fun slot => (finalHolders slot).trans (same slot)⟩

/-- The new status of one thread leaves it with or without a stack. -/
theorem Stacked.of_update (target : Slot) (new : Status Cpu)
    (same : (status target).stacked = new.stacked)
    (updated : Stacked kernel waiters (update (stackHolders status) target new.stacked)) :
    Stacked kernel waiters (stackHolders status) := by
  rw [← same] at updated
  rwa [← update_eq_self target (stackHolders status)]

theorem View.stacked_of_running (view : View kernel status) {cpu : Cpu}
    {place : Location} (runs : kernel.running cpu = some (slot, place)) :
    (status slot).stacked = true := by
  rcases view.status_of_running runs with onCpu | ⟨last, -⟩
  · rw [onCpu]
    rfl
  · rw [last]
    rfl

theorem stacked_update {new : Status Cpu} (holds : (status slot).stacked = true)
    (keeps : new.stacked = true) (other : Slot) :
    (update status slot new other).stacked =
      stackHolders status other := by
  rcases eq_or_ne other slot with rfl | same
  · rw [update_self, stackHolders, holds, keeps]
  · rw [update_of_ne same]
    rfl

end Stacks

section CoherentChanges

variable {kernel after : Kernel Cpu} {status changed : Slot → Status Cpu}
variable {waiters : MutexId → List QueueEntry}

/-- A section that changes no mutex and no thread in a queue. -/
theorem Queues.untouched (queues : Queues kernel status waiters)
    (mutexes : after.mutex = kernel.mutex)
    (untouched : ∀ slot index, slot ∈ (waiters index).map QueueEntry.slot →
      changed slot = status slot ∧
        (after.thread slot).incarnation = (kernel.thread slot).incarnation) :
    Queues after changed waiters := by
  have entryUntouched : ∀ index, ∀ entry ∈ waiters index, _ :=
    fun index entry listed => untouched entry.slot index (List.mem_map_of_mem listed)
  apply queues.transfer
  · rw [mutexes]
    exact queues.waiting
  · intro index entry listed queued
    rw [(entryUntouched index entry listed).1]
    exact queued
  · exact fun index entry listed => (entryUntouched index entry listed).2
  · intro index released
    rw [mutexes] at released
    exact Or.inl released
  · intro index freed
    rw [mutexes] at freed
    exact Or.inl freed

section

variable (coherent : Coherent kernel status waiters)
include coherent

section

variable {updated : MutexId → List QueueEntry} {takesBlocked : Prop}
  (effect : Effect kernel after status changed waiters updated takesBlocked)
include effect

theorem Coherent.of_effect :
    Coherent after changed updated :=
  ⟨effect.view, effect.queues, coherent.life.tame effect.tame effect.procs⟩

theorem Coherent.stacked_of_effect : Stacked after updated (stackHolders status) :=
  ⟨changed, coherent.of_effect effect, fun slot => (effect.tame slot).stacked_eq⟩

end

theorem Coherent.congr (threads : after.thread = kernel.thread)
    (mutexes : after.mutex = kernel.mutex) (running : after.running = kernel.running)
    (procs : ∀ process, (after.proc process).state = (kernel.proc process).state) :
    Coherent after status waiters := by
  refine ⟨?_, ?_, ?_⟩
  · exact coherent.view.congr (by simp [threads]) (by simp [threads]) running
  · exact coherent.queues.untouched mutexes fun slot index _ =>
      ⟨rfl, by rw [threads]⟩
  · exact coherent.life.tame (fun slot => .quiet (.refl _)) procs

/-- Any number of threads off every processor, outside construction and in no
queue, die or are released. -/
theorem Coherent.bury (dying : ∀ slot,
      (changed slot = status slot ∧ (after.thread slot).state = (kernel.thread slot).state ∧
          (after.thread slot).context = (kernel.thread slot).context) ∨
      ((changed slot).Gone ∧ (after.thread slot).state = (changed slot).state ∧
          (status slot).place = none ∧ (∀ prepared, status slot ≠ .embryo prepared) ∧
              ∀ index, slot ∉ (waiters index).map QueueEntry.slot))
    (incarnations : ∀ slot, (after.thread slot).incarnation = (kernel.thread slot).incarnation)
    (mutexes : after.mutex = kernel.mutex) (running : after.running = kernel.running)
    (procs : ∀ process, (after.proc process).state = (kernel.proc process).state) :
    Coherent after changed waiters := by
  refine ⟨?_, ?_, ?_⟩
  · apply coherent.view.pointwise running
    · intro slot
      rcases dying slot with ⟨same, -⟩ | ⟨gone, -, offCpu, -⟩
      · rw [same]
      · rw [reading_place, reading_place, offCpu]
        exact Status.place_of_location_none gone.location_eq
    · intro slot
      rcases dying slot with ⟨same, stateEq, -⟩ | ⟨-, stateEq, -⟩
      · rw [stateEq, same, coherent.view.state_eq, reading_state]
      · exact stateEq
    · intro slot location saved
      rcases dying slot with ⟨same, -, contextEq⟩ | ⟨gone, -⟩
      · rw [same] at saved
        rw [contextEq]
        exact coherent.view.context_eq slot location saved
      · rw [reading_saved, gone.saved_eq] at saved
        simp at saved
  · apply coherent.queues.untouched mutexes
    intro slot index listed
    rcases dying slot with ⟨same, -⟩ | ⟨-, -, -, -, notListed⟩
    · exact ⟨same, incarnations slot⟩
    · exact absurd listed (notListed index)
  · apply coherent.life.bury _ procs
    intro slot
    rcases dying slot with ⟨same, -⟩ | ⟨gone, -, -, notEmbryo, -⟩
    · exact Or.inl same
    · exact Or.inr ⟨gone, notEmbryo⟩

end

variable [DecidableEq Cpu] {cpu : Cpu} {actor target : Slot}
variable {place next : Location} {new : Status Cpu}

theorem Coherent.die (coherent : Coherent kernel status waiters)
    (runs : kernel.running cpu = some (actor, place))
    (notQueued : ∀ index, place ≠ .lockQueued index)
    (others : ∀ other, other ≠ actor → after.thread other = kernel.thread other)
    (zombie : (after.thread actor).state = .zombie) (mutexes : after.mutex = kernel.mutex)
    (running : after.running = update kernel.running cpu none)
    (procs : ∀ process, (after.proc process).state = (kernel.proc process).state) :
    Coherent after (update status actor .zombie) waiters := by
  have acting := coherent.view.status_of_running runs
  refine ⟨?_, ?_, ?_⟩
  · apply coherent.view.leave runs rfl
    · intro other differs
      simp [others other differs]
    · exact zombie
    · simp [Status.saved]
    · exact running
  · apply coherent.queues.untouched mutexes
    intro slot index listed
    have differs : slot ≠ actor := by
      rintro rfl
      refine coherent.queues.not_listed index ?_ listed
      intro queued
      rcases acting with onCpu | ⟨lastExit, -⟩
      · rw [onCpu] at queued
        cases queued
        exact notQueued index rfl
      · rw [lastExit] at queued
        cases queued
    exact ⟨update_of_ne differs _ _, by rw [others slot differs]⟩
  · apply coherent.life.bury _ procs
    intro slot
    rcases eq_or_ne slot actor with rfl | same
    · rw [update_self]
      refine Or.inr ⟨.zombie, ?_⟩
      rcases acting with onCpu | ⟨lastExit, -⟩
      · simp [onCpu]
      · simp [lastExit]
    · exact Or.inl (update_of_ne same _ _)

/-- A section of `kthread_create` or `fork`: only the reserved thread can get a
kernel stack. -/
theorem Coherent.build (coherent : Coherent kernel status waiters)
    (build : Build kernel after status cpu actor target place next new) {thread : Thread}
    (threads : after.thread = update kernel.thread target thread)
    (stateEq : thread.state = new.state)
    (contextEq : ∀ location, new.saved = some location → thread.context = some location)
    (mutexes : after.mutex = kernel.mutex)
    (running : after.running = update kernel.running cpu (some (actor, next))) :
    Stacked after waiters (update (stackHolders status) target new.stacked) := by
  have differs := build.actor_ne_target
  have others : ∀ other, other ≠ target → after.thread other = kernel.thread other := by
    intro other otherNe
    rw [threads, update_of_ne otherNe]
  refine ⟨built status cpu actor target next new,
    ⟨?_, ?_, coherent.life.build build⟩, build.stacked_eq⟩
  · have reserved : View { kernel with thread := after.thread } (update status target new) := by
      apply coherent.view.change (Status.place_of_location_none build.idle) build.offCpu
      · intro other otherNe
        simp [others other otherNe]
      · simpa [threads] using stateEq
      · simpa [threads] using contextEq
      · rfl
    apply reserved.move
    · rw [update_of_ne differs]
      exact build.acting
    · exact fun other => rfl
    · exact fun other _ => rfl
    · exact running
  · apply coherent.queues.untouched mutexes
    intro slot index listed
    have notActor : slot ≠ actor := by
      rintro rfl
      refine coherent.queues.not_listed index ?_ listed
      rw [build.acting]
      rintro ⟨⟩
      exact build.notQueued index rfl
    have notTarget : slot ≠ target := by
      rintro rfl
      refine coherent.queues.not_listed index ?_ listed
      exact fun queued => queued.location_ne_none build.idle
    exact ⟨built_other notActor notTarget, by rw [others slot notTarget]⟩

end CoherentChanges

end Kernel

end Xv6Kthreads
