import Xv6Kthreads.BufferCache
import Xv6Kthreads.LabelledRun

/-!
# Threads that share the buffer cache

Any number of threads read, change, log, write and release buffers.  One step
is a section under `bcache.lock`, a transfer by `iderw`, or an access of a
thread to a buffer that `bread` has returned to it.  A history variable keeps
the contents last given to every sector.

The list, the identities of the buffers and their holders are always in order.
The contents are not lost when a holder releases a changed buffer only after it
has been logged or written; the cache itself does not keep a changed buffer
that is not dirty.
-/

namespace Xv6Kthreads

namespace BufferSharing

open CircularList BufferCache LabelledRun Option Bcache

/-- How far a thread has come with a buffer: `bget` has returned it inside
`bread`, or `bread` has returned it. -/
inductive Stage where
  | reading
  | inUse
  deriving DecidableEq, Repr

structure Sharing (Thread Block : Type*) where
  cache : Bcache Block
  disk : Disk Block
  held : Thread → BufSlot → Option Stage
  last : Disk Block

inductive Label (Thread Block : Type*) where
  | bget (thread : Thread) (dev : UInt32) (sector : Nat)
  | fill (thread : Thread) (slot : BufSlot)
  | modify (thread : Thread) (slot : BufSlot) (data : Block)
  | logWrite (thread : Thread) (slot : BufSlot)
  | bwrite (thread : Thread) (slot : BufSlot)
  | brelse (thread : Thread) (slot : BufSlot)

variable {otherSlot : BufSlot}

namespace Sharing

variable {Thread Block : Type*}

/-- The cache as `binit` leaves it; nothing has been written yet. -/
def boot (zeroed : Block) (disk : Disk Block) : Sharing Thread Block where
  cache := binit zeroed
  disk := disk
  held := fun _ _ => none
  last := disk

variable [DecidableEq Thread] (state : Sharing Thread Block) (thread : Thread) (slot : BufSlot)

variable (stage : Option Stage)

/-- The holdings after one thread's stage at one buffer has changed. -/
def hold : Thread → BufSlot → Option Stage :=
  fun other otherSlot =>
    if other = thread ∧ otherSlot = slot then stage
    else state.held other otherSlot

def bget (dev : UInt32) (sector : Nat) : Option (BufSlot × Sharing Thread Block) :=
  match state.cache.bget dev sector with
  | .returned slot cache =>
    some (slot,
      { state with
        cache := cache
        held := state.hold thread slot (some .reading) })
  | .sleeps _ => none
  | .panics => none

def fill : Option (Sharing Thread Block) :=
  if state.held thread slot = some .reading then
    match (state.cache.buf slot).breadFill state.disk with
    | none => none
    | some (buf, disk) =>
      some
        { state with
          cache := state.cache.setBuf slot buf
          disk := disk
          held := state.hold thread slot (some .inUse) }
  else none

def modify (data : Block) : Option (Sharing Thread Block) :=
  if state.held thread slot = some .inUse then
    some
      { state with
        cache := state.cache.setBuf slot { state.cache.buf slot with data := data }
        last := state.last.write (state.cache.buf slot).dev (state.cache.buf slot).sector data }
  else none

def logWrite : Option (Sharing Thread Block) :=
  if state.held thread slot = some .inUse then
    some
      { state with
        cache := state.cache.setBuf slot (state.cache.buf slot).pin }
  else none

def bwrite : Option (Sharing Thread Block) :=
  if state.held thread slot = some .inUse then
    match (state.cache.buf slot).bwrite state.disk with
    | none => none
    | some (buf, disk) =>
      some
        { state with
          cache := state.cache.setBuf slot buf
          disk := disk }
  else none

def brelse : Option (Sharing Thread Block) :=
  if state.held thread slot = some .inUse then
    match state.cache.brelse slot with
    | none => none
    | some cache =>
      some
        { state with
          cache := cache
          held := state.hold thread slot none }
  else none

def step : Label Thread Block → Option (Sharing Thread Block)
  | .bget thread dev sector => (state.bget thread dev sector).map Prod.snd
  | .fill thread slot => state.fill thread slot
  | .modify thread slot data => state.modify thread slot data
  | .logWrite thread slot => state.logWrite thread slot
  | .bwrite thread slot => state.bwrite thread slot
  | .brelse thread slot => state.brelse thread slot

theorem hold_same : state.hold thread slot stage thread slot = stage := by
  simp [hold]

theorem hold_of_ne {thread other : Thread}
    {slot : BufSlot} (otherNe : ¬ (other = thread ∧ otherSlot = slot)) :
    state.hold thread slot stage other otherSlot = state.held other otherSlot := by
  rw [hold, if_neg otherNe]

end Sharing

section Invariants

variable {Thread Block : Type*}

structure Sound (state : Sharing Thread Block) : Prop where
  ordered : ∃ order, Bcache.Ordered state.cache.links order
  unique : state.cache.Unique
  busy : ∀ thread slot, state.held thread slot ≠ none → (state.cache.buf slot).busy = true
  alone : ∀ thread other slot, state.held thread slot ≠ none →
    state.held other slot ≠ none → thread = other
  dirtyValid : ∀ slot, (state.cache.buf slot).dirty = true → (state.cache.buf slot).valid = true
  inUseValid : ∀ thread slot, state.held thread slot = some .inUse →
    (state.cache.buf slot).valid = true

/-- A valid buffer has the last contents of its sector, as has the disk where no
valid buffer holds the sector. -/
structure Current (state : Sharing Thread Block) : Prop where
  validLast : ∀ slot, (state.cache.buf slot).dev ≠ noDev → (state.cache.buf slot).valid = true →
    (state.cache.buf slot).data =
      state.last (state.cache.buf slot).dev (state.cache.buf slot).sector
  unusedDisk : ∀ slot, (state.cache.buf slot).dev ≠ noDev → (state.cache.buf slot).valid = true →
    (state.cache.buf slot).dirty = false → (∀ thread, state.held thread slot ≠ some .inUse) →
    (state.cache.buf slot).data =
      state.disk (state.cache.buf slot).dev (state.cache.buf slot).sector
  uncached : ∀ dev sector, dev ≠ noDev → (∀ slot, (state.cache.buf slot).Holds dev sector →
      (state.cache.buf slot).valid = false) → state.last dev sector = state.disk dev sector

theorem sound_boot (zeroed : Block) (disk : Disk Block) :
    Sound (Sharing.boot zeroed disk : Sharing Thread Block) where
  ordered := ⟨_, ordered_binit zeroed⟩
  unique := fun _ _ used => absurd rfl used
  busy := fun _ _ holds => absurd rfl holds
  alone := fun _ _ _ holds => absurd rfl holds
  dirtyValid := fun _ dirty => absurd dirty (by simp [Sharing.boot, binit])
  inUseValid := fun _ _ holds => absurd holds (by simp [Sharing.boot])

theorem current_boot (zeroed : Block) (disk : Disk Block) :
    Current (Sharing.boot zeroed disk : Sharing Thread Block) where
  validLast := fun _ used => absurd rfl used
  unusedDisk := fun _ used => absurd rfl used
  uncached := fun _ _ _ _ => rfl

/-- A thread that holds a buffer replaces it by one with the same identity. -/
structure Replaces (state next : Sharing Thread Block) (thread : Thread)
    (slot : BufSlot) (buf : Buf Block) : Prop where
  held : state.held thread slot ≠ none
  ordered : ∀ order, Bcache.Ordered state.cache.links order →
    ∃ moved, Bcache.Ordered next.cache.links moved
  replaced : next.cache.buf slot = buf
  same : buf.Holds (state.cache.buf slot).dev (state.cache.buf slot).sector
  others : ∀ other, other ≠ slot → next.cache.buf other = state.cache.buf other
  otherHeld : ∀ other otherSlot, ¬ (other = thread ∧ otherSlot = slot) →
    next.held other otherSlot = state.held other otherSlot
  busy : next.held thread slot ≠ none → buf.busy = true
  dirtyValid : buf.dirty = true → buf.valid = true
  inUseValid : next.held thread slot = some .inUse → buf.valid = true

variable {state next : Sharing Thread Block} {thread : Thread} {slot : BufSlot} {buf : Buf Block}

section

variable (replaces : Replaces state next thread slot buf)

include replaces

theorem Replaces.identity (other : BufSlot) :
    (next.cache.buf other).Holds (state.cache.buf other).dev (state.cache.buf other).sector := by
  rcases eq_or_ne other slot with rfl | equal
  · rw [replaces.replaced]
    exact replaces.same
  · rw [replaces.others other equal]
    exact ⟨rfl, rfl⟩

/-- A thread that holds the buffer after the step held it before. -/
theorem Replaces.held_before {other : Thread} (holds : next.held other otherSlot ≠ none) :
    state.held other otherSlot ≠ none := by
  by_cases same : other = thread ∧ otherSlot = slot
  · obtain ⟨rfl, rfl⟩ := same
    exact replaces.held
  · rwa [replaces.otherHeld other otherSlot same] at holds

theorem Replaces.sound (sound : Sound state) : Sound next where
  ordered := by
    obtain ⟨order, ordered⟩ := sound.ordered
    exact replaces.ordered order ordered
  unique := sound.unique.congr replaces.identity
  busy := by
    intro other otherSlot holds
    rcases eq_or_ne otherSlot slot with rfl | same
    · have equal := sound.alone other thread otherSlot (replaces.held_before holds) replaces.held
      subst equal
      rw [replaces.replaced]
      exact replaces.busy holds
    · rw [replaces.others otherSlot same]
      exact sound.busy other otherSlot (replaces.held_before holds)
  alone := by
    intro first second otherSlot firstHolds secondHolds
    exact sound.alone first second otherSlot
      (replaces.held_before firstHolds) (replaces.held_before secondHolds)
  dirtyValid := by
    intro other dirty
    rcases eq_or_ne other slot with rfl | same
    · rw [replaces.replaced] at dirty ⊢
      exact replaces.dirtyValid dirty
    · rw [replaces.others other same] at dirty ⊢
      exact sound.dirtyValid other dirty
  inUseValid := by
    intro other otherSlot inUse
    have holds : next.held other otherSlot ≠ none := by simp [inUse]
    rcases eq_or_ne otherSlot slot with rfl | same
    · have equal := sound.alone other thread otherSlot (replaces.held_before holds) replaces.held
      subst equal
      rw [replaces.replaced]
      exact replaces.inUseValid inUse
    · rw [replaces.others otherSlot same]
      rw [replaces.otherHeld other otherSlot fun both => same both.2] at inUse
      exact sound.inUseValid other otherSlot inUse

end

/-- Nothing but one buffer and its holder can change, and nobody else holds
it. -/
structure Frame (state next : Sharing Thread Block) (thread : Thread) (slot : BufSlot) : Prop where
  buf : ∀ other, other ≠ slot → next.cache.buf other = state.cache.buf other
  held : ∀ other otherSlot, ¬ (other = thread ∧ otherSlot = slot) →
    next.held other otherSlot = state.held other otherSlot
  sole : ∀ other, other ≠ thread → state.held other slot = none

theorem Replaces.frame (replaces : Replaces state next thread slot buf) (sound : Sound state) :
    Frame state next thread slot where
  buf := replaces.others
  held := replaces.otherHeld
  sole := by
    intro other otherNe
    by_contra holds
    exact otherNe (sound.alone other thread slot holds replaces.held)

theorem Frame.kept (frame : Frame state next thread slot) {other : Thread}
    (otherNe : other ≠ thread) (holds : state.held other otherSlot ≠ none) :
    next.held other otherSlot = state.held other otherSlot ∧
      next.cache.buf otherSlot = state.cache.buf otherSlot := by
  have slotNe : otherSlot ≠ slot := by
    intro equal
    subst equal
    exact holds (frame.sole other otherNe)
  exact ⟨frame.held other otherSlot fun both => slotNe both.2, frame.buf otherSlot slotNe⟩

theorem Frame.owner (frame : Frame state next thread slot)
    {holder : Thread} (holds : next.held holder slot ≠ none) :
    holder = thread := by
  by_contra holderNe
  rw [frame.held holder slot fun both => holderNe both.1] at holds
  exact holds (frame.sole holder holderNe)

structure Touches (state next : Sharing Thread Block) (slot : BufSlot) : Prop where
  disk : ∀ dev sector, ¬ (state.cache.buf slot).Holds dev sector →
    next.disk dev sector = state.disk dev sector
  last : ∀ dev sector, ¬ (state.cache.buf slot).Holds dev sector →
    next.last dev sector = state.last dev sector

/-- The contents stay in order when the replaced buffer has the last contents
of its sector, and those of the disk unless it is dirty or in use. -/
theorem Replaces.current (replaces : Replaces state next thread slot buf)
    (touches : Touches state next slot) (sound : Sound state)
    (current : Current state)
    (validLast : buf.dev ≠ noDev → buf.valid = true → buf.data = next.last buf.dev buf.sector)
    (unusedDisk : buf.dev ≠ noDev → buf.valid = true → buf.dirty = false →
      next.held thread slot ≠ some .inUse →
      buf.data = next.disk buf.dev buf.sector)
    (uncached : buf.dev ≠ noDev → buf.valid = false →
      next.last buf.dev buf.sector = next.disk buf.dev buf.sector) :
    Current next := by
  have apart : ∀ other, other ≠ slot → (state.cache.buf other).dev ≠ noDev →
      ¬ (state.cache.buf slot).Holds (state.cache.buf other).dev
        (state.cache.buf other).sector := by
    intro other otherNe used holds
    exact otherNe (sound.unique other slot used holds).symm
  refine ⟨?_, ?_, ?_⟩
  · intro other used valid
    rcases eq_or_ne other slot with rfl | same
    · rw [replaces.replaced] at used valid ⊢
      exact validLast used valid
    · rw [replaces.others other same] at used valid ⊢
      rw [touches.last _ _ (apart other same used)]
      exact current.validLast other used valid
  · intro other used valid clean unused
    rcases eq_or_ne other slot with rfl | same
    · rw [replaces.replaced] at used valid clean ⊢
      exact unusedDisk used valid clean (unused thread)
    · rw [replaces.others other same] at used valid clean ⊢
      rw [touches.disk _ _ (apart other same used)]
      apply current.unusedDisk other used valid clean
      intro holder inUse
      apply unused holder
      rw [replaces.otherHeld holder other fun both => same both.2]
      exact inUse
  · intro dev sector used absent
    by_cases holds : (state.cache.buf slot).Holds dev sector
    · obtain ⟨bufDev, bufSector⟩ := replaces.same
      obtain ⟨rfl, rfl⟩ := holds
      have invalid := absent slot (replaces.identity slot)
      rw [replaces.replaced] at invalid
      rw [← bufDev] at used
      rw [← bufDev, ← bufSector]
      exact uncached used invalid
    · rw [touches.last _ _ holds, touches.disk _ _ holds]
      apply current.uncached dev sector used
      intro other otherHolds
      have otherNe : other ≠ slot := fun equal => holds (equal ▸ otherHolds)
      have invalid := absent other
      rw [replaces.others other otherNe] at invalid
      exact invalid otherHolds

theorem Sound.unheld (sound : Sound state)
    (idle : (state.cache.buf slot).busy = false) (other : Thread) :
    state.held other slot = none := by
  by_contra holds
  rw [sound.busy other slot holds] at idle
  exact Bool.noConfusion idle

end Invariants

section Steps

variable {Thread Block : Type*}
variable {state next : Sharing Thread Block} {thread : Thread} {slot : BufSlot}

def filled (state : Sharing Thread Block) (slot : BufSlot) : Buf Block :=
  if (state.cache.buf slot).valid then state.cache.buf slot
  else
    { state.cache.buf slot with
      valid := true
      data := state.disk (state.cache.buf slot).dev (state.cache.buf slot).sector }

theorem filled_holds (state : Sharing Thread Block) (slot : BufSlot) :
    (filled state slot).Holds (state.cache.buf slot).dev (state.cache.buf slot).sector := by
  unfold filled
  split <;> exact ⟨rfl, rfl⟩

theorem filled_valid (state : Sharing Thread Block) (slot : BufSlot) :
    (filled state slot).valid = true := by
  unfold filled
  split
  next valid => exact valid
  next => rfl

theorem filled_busy (state : Sharing Thread Block) (slot : BufSlot) :
    (filled state slot).busy = (state.cache.buf slot).busy := by
  unfold filled
  split <;> rfl

theorem modify_eq {data : Block} (modified : state.modify thread slot data = some next) :
    state.held thread slot = some .inUse ∧
      next = { state with
        cache := state.cache.setBuf slot { state.cache.buf slot with data }
        last := state.last.write (state.cache.buf slot).dev
          (state.cache.buf slot).sector data } := by
  obtain ⟨inUse, result⟩ := ite_none_right_eq_some.mp modified
  exact ⟨inUse, (some.inj result).symm⟩

theorem logWrite_eq (logged : state.logWrite thread slot = some next) :
    state.held thread slot = some .inUse ∧
      next = { state with
        cache := state.cache.setBuf slot (state.cache.buf slot).pin } := by
  obtain ⟨inUse, result⟩ := ite_none_right_eq_some.mp logged
  exact ⟨inUse, (some.inj result).symm⟩

section

variable (sound : Sound state)

include sound

theorem bwrite_eq (written : state.bwrite thread slot = some next) :
    state.held thread slot = some .inUse ∧
      next = { state with
        cache := state.cache.setBuf slot { state.cache.buf slot with valid := true, dirty := false }
        disk := state.disk.write (state.cache.buf slot).dev
          (state.cache.buf slot).sector (state.cache.buf slot).data } := by
  obtain ⟨inUse, written⟩ := ite_none_right_eq_some.mp written
  rw [Buf.bwrite_of_busy (sound.busy thread slot (by simp [inUse]))] at written
  cases written
  exact ⟨inUse, rfl⟩

theorem replaces_of_inUse (inUse : state.held thread slot = some .inUse) (buf : Buf Block)
    (same : buf.Holds (state.cache.buf slot).dev (state.cache.buf slot).sector)
    (busy : buf.busy = (state.cache.buf slot).busy)
    (valid : buf.valid = true) (disk last : Disk Block) :
    Replaces state { state with
        cache := state.cache.setBuf slot buf, disk, last } thread slot buf := by
  have held : state.held thread slot ≠ none := by simp [inUse]
  exact
    { held := held
      ordered := fun order ordered => ⟨order, ordered⟩
      replaced := setBuf_buf_same ..
      same := same
      others := fun other otherNe => setBuf_buf_of_ne _ _ otherNe
      otherHeld := fun _ _ _ => rfl
      busy := fun _ => by
        rw [busy]
        exact sound.busy thread slot held
      dirtyValid := fun _ => valid
      inUseValid := fun _ => valid }

theorem modify_replaces {data : Block} (modified : state.modify thread slot data = some next) :
    Replaces state next thread slot { state.cache.buf slot with data } := by
  obtain ⟨inUse, rfl⟩ := modify_eq modified
  exact replaces_of_inUse sound inUse { state.cache.buf slot with data } ⟨rfl, rfl⟩ rfl
    (sound.inUseValid thread slot inUse) _ _

theorem logWrite_replaces (logged : state.logWrite thread slot = some next) :
    Replaces state next thread slot (state.cache.buf slot).pin := by
  obtain ⟨inUse, rfl⟩ := logWrite_eq logged
  exact replaces_of_inUse sound inUse (state.cache.buf slot).pin ⟨rfl, rfl⟩
    rfl (sound.inUseValid thread slot inUse) _ _

theorem bwrite_replaces (written : state.bwrite thread slot = some next) :
    Replaces state next thread slot
      { state.cache.buf slot with valid := true, dirty := false } := by
  obtain ⟨inUse, rfl⟩ := bwrite_eq sound written
  exact replaces_of_inUse sound inUse
    { state.cache.buf slot with valid := true, dirty := false } ⟨rfl, rfl⟩
    rfl rfl _ _

section

variable (current : Current state)

include current

theorem Current.filled_last (used : (state.cache.buf slot).dev ≠ noDev) : (filled state slot).data =
      state.last (state.cache.buf slot).dev (state.cache.buf slot).sector := by
  unfold filled
  split
  next valid => exact current.validLast slot used valid
  next invalid =>
    refine (current.uncached _ _ used ?_).symm
    intro other holds
    rw [sound.unique slot other used holds]
    exact Bool.eq_false_iff.mpr invalid

theorem Current.modify {data : Block} (modified : state.modify thread slot data = some next) :
    Current next := by
  have replaces := modify_replaces sound modified
  obtain ⟨inUse, rfl⟩ := modify_eq modified
  refine replaces.current ⟨fun _ _ _ => rfl, ?_⟩ sound current ?_ ?_ ?_
  · intro dev sector apart
    exact Disk.write_of_ne _ _ fun same => apart ⟨same.1.symm, same.2.symm⟩
  · intro _ _
    exact (Disk.write_same ..).symm
  · intro _ _ _ unused
    exact absurd inUse unused
  · intro _ invalid
    rw [sound.inUseValid thread slot inUse] at invalid
    exact Bool.noConfusion invalid

theorem Current.logWrite (logged : state.logWrite thread slot = some next) : Current next := by
  have replaces := logWrite_replaces sound logged
  obtain ⟨inUse, rfl⟩ := logWrite_eq logged
  refine replaces.current ⟨fun _ _ _ => rfl, fun _ _ _ => rfl⟩ sound current ?_ ?_ ?_
  · exact current.validLast slot
  · intro _ _ clean
    exact Bool.noConfusion clean
  · intro _ invalid
    have impossible := invalid.symm.trans (sound.inUseValid thread slot inUse)
    exact Bool.noConfusion impossible

theorem Current.bwrite (written : state.bwrite thread slot = some next) : Current next := by
  have replaces := bwrite_replaces sound written
  obtain ⟨inUse, rfl⟩ := bwrite_eq sound written
  refine replaces.current ⟨?_, fun _ _ _ => rfl⟩ sound current ?_ ?_ ?_
  · intro dev sector apart
    exact Disk.write_of_ne _ _ fun same => apart ⟨same.1.symm, same.2.symm⟩
  · intro used _
    exact current.validLast slot used (sound.inUseValid thread slot inUse)
  · intro _ _ _ _
    exact (Disk.write_same ..).symm
  · intro _ invalid
    exact Bool.noConfusion invalid

end

end

variable [DecidableEq Thread] {sector : Nat} {dev : UInt32}

section

variable (sound : Sound state) (got : state.bget thread dev sector = some (slot, next))

include sound got

/-- A returning `bget` gives the caller a buffer of the sector. -/
theorem bget_cases : ∃ cache, Bcache.Bgets state.cache dev sector slot cache ∧
      next = { state with cache, held := state.hold thread slot (some .reading) } := by
  obtain ⟨order, ordered⟩ := sound.ordered
  simp only [Sharing.bget] at got
  split at got <;> cases got
  next found cache returned => exact ⟨cache, bgets_of_bget ordered returned, rfl⟩

theorem bget_frame :
    Frame state next thread slot := by
  obtain ⟨cache, gets, rfl⟩ := bget_cases sound got
  exact
    { buf := fun other otherNe => gets.others otherNe
      held := fun other otherSlot otherNe => state.hold_of_ne _ otherNe
      sole := fun other _ => sound.unheld gets.idle other }

theorem Sound.bget :
    Sound next := by
  obtain ⟨cache, gets, rfl⟩ := bget_cases sound got
  have unheld := sound.unheld gets.idle
  have heldBefore : ∀ other otherSlot, otherSlot ≠ slot →
      state.hold thread slot (some .reading) other otherSlot =
        state.held other otherSlot := fun other otherSlot otherNe =>
    state.hold_of_ne _ fun both => otherNe both.2
  have holder : ∀ other, state.hold thread slot (some .reading) other slot ≠ none →
        other = thread := by
    intro other holds
    by_contra otherNe
    rw [state.hold_of_ne _ fun both => otherNe both.1, unheld other] at holds
    exact holds rfl
  refine ⟨?_, gets.unique sound.unique, ?_, ?_, gets.dirty_valid sound.dirtyValid, ?_⟩
  · rw [gets.links]
    exact sound.ordered
  · intro other otherSlot holds
    rcases eq_or_ne otherSlot slot with rfl | same
    · exact gets.result.2
    · dsimp only at holds ⊢
      rw [heldBefore other otherSlot same] at holds
      rw [gets.others same]
      exact sound.busy other otherSlot holds
  · intro first second otherSlot firstHolds secondHolds
    rcases eq_or_ne otherSlot slot with rfl | same
    · exact (holder first firstHolds).trans (holder second secondHolds).symm
    · dsimp only at firstHolds secondHolds
      rw [heldBefore _ otherSlot same] at firstHolds secondHolds
      exact sound.alone first second otherSlot firstHolds secondHolds
  · intro other otherSlot inUse
    dsimp only at inUse ⊢
    rcases eq_or_ne otherSlot slot with rfl | same
    · have equal := holder other (by simp [inUse])
      subst equal
      rw [state.hold_same] at inUse
      cases inUse
    · rw [heldBefore other otherSlot same] at inUse
      rw [gets.others same]
      exact sound.inUseValid other otherSlot inUse

end

/-- A recycled buffer was clean and unused, so that the disk has its
contents. -/
theorem Current.bget (sound : Sound state) (current : Current state)
    (got : state.bget thread dev sector = some (slot, next)) :
    Current next := by
  obtain ⟨cache, gets, rfl⟩ := bget_cases sound got
  have unused : ∀ holder, state.held holder slot ≠ some .inUse := by
    intro holder
    rw [sound.unheld gets.idle holder]
    exact (some_ne_none _).symm
  have unusedBefore : ∀ other, other ≠ slot →
      (∀ holder, state.hold thread slot (some .reading) holder other ≠ some .inUse) →
      ∀ holder, state.held holder other ≠ some .inUse := by
    intro other otherNe after holder inUse
    apply after holder
    rw [state.hold_of_ne _ fun both => otherNe both.2]
    exact inUse
  refine ⟨?_, ?_, ?_⟩
  · intro other used valid
    rcases eq_or_ne other slot with rfl | same
    · cases gets with
      | cached =>
        rw [setBuf_buf_same] at used valid ⊢
        exact current.validLast other used valid
      | recycled =>
        rw [setBuf_buf_same] at valid
        exact Bool.noConfusion valid
    · rw [gets.others same] at used valid ⊢
      exact current.validLast other used valid
  · intro other used valid clean after
    rcases eq_or_ne other slot with rfl | same
    · cases gets with
      | cached =>
        rw [setBuf_buf_same] at used valid clean ⊢
        exact current.unusedDisk other used valid clean unused
      | recycled =>
        rw [setBuf_buf_same] at valid
        exact Bool.noConfusion valid
    · rw [gets.others same] at used valid clean ⊢
      exact current.unusedDisk other used valid clean (unusedBefore other same after)
  · intro otherDev otherSector used absent
    by_cases held : (state.cache.buf slot).Holds otherDev otherSector ∧
        (state.cache.buf slot).valid = true
    · obtain ⟨⟨rfl, rfl⟩, valid⟩ := held
      cases gets with
      | cached =>
        have invalid := absent slot (by simp [Buf.Holds])
        rw [setBuf_buf_same] at invalid
        rw [invalid] at valid
        exact Bool.noConfusion valid
      | recycled _ _ clean =>
        rw [← current.validLast slot used valid]
        exact current.unusedDisk slot used valid clean unused
    · apply current.uncached otherDev otherSector used
      intro other holds
      rcases eq_or_ne other slot with rfl | same
      · exact Bool.eq_false_iff.mpr fun valid => held ⟨holds, valid⟩
      · have invalid := absent other
        rw [gets.others same] at invalid
        exact invalid holds

theorem fill_eq (sound : Sound state) (read : state.fill thread slot = some next) :
    state.held thread slot = some .reading ∧
      next = { state with
        cache := state.cache.setBuf slot (filled state slot)
        held := state.hold thread slot (some .inUse) } := by
  obtain ⟨reading, read⟩ := ite_none_right_eq_some.mp read
  refine ⟨reading, ?_⟩
  cases valid : (state.cache.buf slot).valid with
  | true =>
    rw [Buf.breadFill_of_valid valid] at read
    cases read
    simp [filled, valid]
  | false =>
    have busy := sound.busy thread slot (by simp [reading])
    have clean : (state.cache.buf slot).dirty = false := by
      apply Bool.eq_false_iff.mpr
      intro dirty
      rw [sound.dirtyValid slot dirty] at valid
      exact Bool.noConfusion valid
    rw [Buf.breadFill_of_invalid busy valid clean] at read
    cases read
    simp [filled, valid]

theorem brelse_eq (released : state.brelse thread slot = some next) :
    state.held thread slot = some .inUse ∧
      next = { state with
        cache :=
          { links := state.cache.links.moveToFront none (some slot)
            buf := Function.update state.cache.buf slot
              { state.cache.buf slot with busy := false } }
        held := state.hold thread slot none } := by
  obtain ⟨inUse, released⟩ := ite_none_right_eq_some.mp released
  simp only [brelse] at released
  split at released
  next => simp at released
  next cache relinked =>
    split at relinked
    next => simp at relinked
    next =>
      simp only [some.injEq] at relinked released
      subst relinked
      exact ⟨inUse, released.symm⟩

section

variable (sound : Sound state)

include sound

theorem fill_replaces (read : state.fill thread slot = some next) :
    Replaces state next thread slot (filled state slot) := by
  obtain ⟨reading, rfl⟩ := fill_eq sound read
  have held : state.held thread slot ≠ none := by simp [reading]
  exact
    { held := held
      ordered := fun order ordered => ⟨order, ordered⟩
      replaced := setBuf_buf_same ..
      same := filled_holds state slot
      others := fun other otherNe => setBuf_buf_of_ne _ _ otherNe
      otherHeld := fun other otherSlot otherNe =>
        state.hold_of_ne _ otherNe
      busy := fun _ => by
        rw [filled_busy]
        exact sound.busy thread slot held
      dirtyValid := fun _ => filled_valid state slot
      inUseValid := fun _ => filled_valid state slot }

theorem brelse_replaces (released : state.brelse thread slot = some next) :
    Replaces state next thread slot { state.cache.buf slot with busy := false } := by
  obtain ⟨inUse, rfl⟩ := brelse_eq released
  have held : state.held thread slot ≠ none := by simp [inUse]
  have unheld : state.hold thread slot none thread slot = none := state.hold_same thread slot none
  exact
    { held := held
      ordered := by
        intro order ordered
        obtain ⟨front, back, rfl⟩ := List.append_of_mem (ordered.mem slot)
        exact ⟨_, ordered.moveToFront⟩
      replaced := Function.update_self ..
      same := ⟨rfl, rfl⟩
      others := fun other otherNe => Function.update_of_ne otherNe ..
      otherHeld := fun other otherSlot otherNe =>
        state.hold_of_ne _ otherNe
      busy := fun holds => absurd unheld holds
      dirtyValid := sound.dirtyValid slot
      inUseValid := fun holds => by
        have impossible := unheld.symm.trans holds
        cases impossible }

/-- Every step keeps the list, the identities and the holders in order. -/
theorem Sound.step (label : Label Thread Block) (stepTo : state.step label = some next) :
    Sound next := by
  cases label with
  | bget thread dev sector =>
    obtain ⟨⟨slot, after⟩, got, rfl⟩ := map_eq_some_iff.mp stepTo
    exact sound.bget got
  | fill thread slot => exact (fill_replaces sound stepTo).sound sound
  | modify thread slot data => exact (modify_replaces sound stepTo).sound sound
  | logWrite thread slot => exact (logWrite_replaces sound stepTo).sound sound
  | bwrite thread slot => exact (bwrite_replaces sound stepTo).sound sound
  | brelse thread slot => exact (brelse_replaces sound stepTo).sound sound

theorem Sound.step_dirty (label : Label Thread Block) (stepTo : state.step label = some next)
    (other : BufSlot) (dirty : (state.cache.buf other).dirty = true) :
    (next.cache.buf other).Holds (state.cache.buf other).dev (state.cache.buf other).sector := by
  cases label with
  | bget thread dev sector =>
    obtain ⟨⟨slot, after⟩, got, rfl⟩ := map_eq_some_iff.mp stepTo
    obtain ⟨cache, gets, rfl⟩ := bget_cases sound got
    exact gets.dirty_kept other dirty
  | fill thread slot => exact (fill_replaces sound stepTo).identity other
  | modify thread slot data => exact (modify_replaces sound stepTo).identity other
  | logWrite thread slot => exact (logWrite_replaces sound stepTo).identity other
  | bwrite thread slot => exact (bwrite_replaces sound stepTo).identity other
  | brelse thread slot => exact (brelse_replaces sound stepTo).identity other

theorem Current.fill (current : Current state) (read : state.fill thread slot = some next) :
    Current next := by
  have replaces := fill_replaces sound read
  obtain ⟨reading, rfl⟩ := fill_eq sound read
  obtain ⟨sameDev, sameSector⟩ := filled_holds state slot
  refine replaces.current ⟨fun _ _ _ => rfl, fun _ _ _ => rfl⟩ sound current ?_ ?_ ?_
  · intro used _
    rw [sameDev] at used
    rw [sameDev, sameSector]
    exact current.filled_last sound used
  · intro _ _ _ unused
    exact absurd (state.hold_same thread slot _) unused
  · intro _ invalid
    rw [filled_valid] at invalid
    exact Bool.noConfusion invalid

/-- The disk has the contents of a released buffer unless the buffer is
dirty. -/
theorem Current.brelse (current : Current state)
    (saved : (state.cache.buf slot).dirty = true ∨ (state.cache.buf slot).data =
        state.disk (state.cache.buf slot).dev (state.cache.buf slot).sector)
    (released : state.brelse thread slot = some next) : Current next := by
  have replaces := brelse_replaces sound released
  obtain ⟨inUse, rfl⟩ := brelse_eq released
  refine replaces.current ⟨fun _ _ _ => rfl, fun _ _ _ => rfl⟩ sound current ?_ ?_ ?_
  · exact current.validLast slot
  · intro _ _ clean _
    rcases saved with dirty | saved
    · rw [show (state.cache.buf slot).dirty = false from clean] at dirty
      exact Bool.noConfusion dirty
    · exact saved
  · intro _ invalid
    have impossible := invalid.symm.trans (sound.inUseValid thread slot inUse)
    exact Bool.noConfusion impossible

end

/-- A buffer is released only when `log_write` has made it dirty or the disk has
its contents. -/
def Saves (state : Sharing Thread Block) : Label Thread Block → Prop
  | .brelse _ slot =>
    (state.cache.buf slot).dirty = true ∨ (state.cache.buf slot).data =
        state.disk (state.cache.buf slot).dev (state.cache.buf slot).sector
  | _ => True

instance [DecidableEq Block] (state : Sharing Thread Block) : DecidablePred (Saves state) := by
  intro label
  cases label <;> unfold Saves <;> infer_instance

theorem Current.step (sound : Sound state) (current : Current state) (label : Label Thread Block)
    (saves : Saves state label) (stepTo : state.step label = some next) : Current next := by
  cases label with
  | bget thread dev sector =>
    obtain ⟨⟨slot, after⟩, got, rfl⟩ := map_eq_some_iff.mp stepTo
    exact current.bget sound got
  | fill thread slot => exact current.fill sound stepTo
  | modify thread slot data => exact current.modify sound stepTo
  | logWrite thread slot => exact current.logWrite sound stepTo
  | bwrite thread slot => exact current.bwrite sound stepTo
  | brelse thread slot => exact current.brelse sound saves stepTo

end Steps

section Runs

variable {Thread Block : Type*} [DecidableEq Thread]

theorem sound_of_reaches {zeroed : Block} {disk : Disk Block} {state : Sharing Thread Block}
    (reaches : Reaches Sharing.step (Sharing.boot zeroed disk) state) :
    Sound state :=
  reaches.invariant Sound (sound_boot zeroed disk)
    fun _ label _ sound stepTo => sound.step label stepTo

theorem current_of_guardedReaches {zeroed : Block} {disk : Disk Block}
    {state : Sharing Thread Block}
    (reaches : GuardedReaches Sharing.step Saves (Sharing.boot zeroed disk)
      state) : Sound state ∧ Current state :=
  reaches.invariant (fun state => Sound state ∧ Current state)
    ⟨sound_boot zeroed disk, current_boot zeroed disk⟩
    fun _ label _ holds saves stepTo =>
      ⟨holds.1.step label stepTo, holds.2.step holds.1 label saves stepTo⟩

/-- In every run the cache stays well formed, and `bread` returns the contents
last given to the sector when no changed buffer is released unlogged. -/
theorem cache_sound_and_current (zeroed : Block) (disk : Disk Block) :
    (∀ state : Sharing Thread Block, Reaches Sharing.step (Sharing.boot zeroed disk) state →
        (∃ order : List BufSlot, Ring state.cache.links none (order.map some) ∧
          order.Perm (List.finRange nbuf)) ∧
        (∀ slot other, (state.cache.buf slot).dev ≠ noDev →
          (state.cache.buf other).dev = (state.cache.buf slot).dev →
          (state.cache.buf other).sector = (state.cache.buf slot).sector → other = slot) ∧
        (∀ thread other slot, state.held thread slot ≠ none → state.held other slot ≠ none →
            thread = other ∧ (state.cache.buf slot).busy = true) ∧
        (∀ label next slot, state.step label = some next → (state.cache.buf slot).dirty = true →
            (next.cache.buf slot).dev = (state.cache.buf slot).dev ∧
            (next.cache.buf slot).sector = (state.cache.buf slot).sector)) ∧
    (∀ state : Sharing Thread Block,
      GuardedReaches Sharing.step Saves (Sharing.boot zeroed disk) state →
        ∀ thread slot next, state.fill thread slot = some next →
          (state.cache.buf slot).dev ≠ noDev → (next.cache.buf slot).data =
              state.last (state.cache.buf slot).dev (state.cache.buf slot).sector) := by
  constructor
  · intro state reaches
    have sound := sound_of_reaches reaches
    refine ⟨sound.ordered, ?_, ?_, ?_⟩
    · intro slot other used sameDev sameSector
      exact sound.unique slot other used ⟨sameDev, sameSector⟩
    · intro thread other slot holds otherHolds
      exact ⟨sound.alone thread other slot holds otherHolds, sound.busy thread slot holds⟩
    · intro label next slot stepTo dirty
      exact sound.step_dirty label stepTo slot dirty
  · intro state reaches thread slot next read used
    obtain ⟨sound, current⟩ := current_of_guardedReaches reaches
    rw [(fill_replaces sound read).replaced]
    exact current.filled_last sound used

end Runs

/-- A thread changes a buffer, logs it, releases it and asks for it again. -/
def loggedChange : List (Label Unit Nat) :=
  [.bget () 1 5, .fill () 0, .modify () 0 7, .logWrite () 0, .brelse () 0, .bget () 1 5]

theorem cache_sound_and_current_loggedChange : ∃ state : Sharing Unit Nat,
      GuardedReaches Sharing.step Saves (Sharing.boot 0 fun _ _ => 0) state ∧
      ∃ next, state.fill () 0 = some next ∧ state.last 1 5 = 7 ∧
        (next.cache.buf 0).data = state.last 1 5 := by
  obtain ⟨state, run, read, changed, dev, sector⟩ :
      ∃ state ∈ runLabels (restrict Sharing.step Saves)
      (Sharing.boot 0 fun _ _ => 0) loggedChange,
      (state.fill () 0).isSome ∧ state.last 1 5 = 7 ∧ (state.cache.buf 0).Holds 1 5 := by
    decide +kernel
  obtain ⟨next, read⟩ := isSome_iff_exists.mp read
  have reaches := guardedReaches_of_runLabels loggedChange run
  have used : (state.cache.buf 0).dev ≠ noDev := by
    rw [dev]
    decide
  have returned := (cache_sound_and_current 0 fun _ _ => 0).2 state reaches ()
    0 next read used
  rw [dev, sector] at returned
  exact ⟨state, reaches, next, read, changed, returned⟩

/-- A thread changes a buffer and releases it without logging or writing it;
the other buffers are then taken, so that this one is recycled. -/
def forgottenChange : List (Label Unit Nat) :=
  [.bget () 1 5, .fill () 0, .modify () 0 7, .brelse () 0] ++
    (List.range 29).map (fun index => .bget () 1 (100 + index)) ++
    [.bget () 1 200, .fill () 0, .brelse () 0, .bget () 1 5]

theorem forgottenChange_loses_contents : ∃ state : Sharing Unit Nat,
      Reaches Sharing.step (Sharing.boot 0 fun _ _ => 0) state ∧
      ∃ next, state.fill () 0 = some next ∧ (state.cache.buf 0).Holds 1 5 ∧ state.last 1 5 = 7 ∧
        (next.cache.buf 0).data = 0 := by
  obtain ⟨state, run, next, read, facts⟩ :
      ∃ state ∈ runLabels Sharing.step (Sharing.boot 0 fun _ _ => 0) forgottenChange,
      ∃ next ∈ state.fill () 0, (state.cache.buf 0).Holds 1 5 ∧ state.last 1 5 = 7 ∧
        (next.cache.buf 0).data = 0 := by
    decide +kernel
  exact ⟨state, reaches_of_runLabels _ run, next, read, facts⟩

end BufferSharing

end Xv6Kthreads
