import Xv6Kthreads.LogSystem

/-!
# The buffer cache under the log

All users of the cache are threads that follow the log's discipline, and the
script of the log itself.  Then every buffer that is in use outside an operation
is dirty or has the contents of the disk, and the log area has its last contents
on the disk.  Taking, filling and releasing a buffer change neither the disk nor
the last contents of a sector, and pin nothing.
-/

namespace Xv6Kthreads

namespace LogSystem

open BufferCache BufferSharing LogFormat

section Cache

variable {Client : Type*}

def Pinned (sharing : Sharing (Option Client) Block) (sector : Nat) : Prop :=
  ∃ slot, (sharing.cache.buf slot).dirty = true ∧ (sharing.cache.buf slot).sector = sector

structure Shared (start : Nat) (ops : List Client)
    (sharing : Sharing (Option Client) Block) : Prop where
  sound : Sound sharing
  current : Current sharing
  root : ∀ slot, (sharing.cache.buf slot).valid = true → (sharing.cache.buf slot).dev = rootdev
  heldRoot : ∀ thread slot, sharing.held thread slot ≠ none → (sharing.cache.buf slot).dev = rootdev
  saved : ∀ thread slot, sharing.held thread slot = some .inUse →
    (sharing.cache.buf slot).dirty = true ∨ (sharing.cache.buf slot).data =
      sharing.disk (sharing.cache.buf slot).dev (sharing.cache.buf slot).sector ∨
    ∃ client ∈ ops, thread = some client
  logArea : ∀ sector, start ≤ sector → sharing.last rootdev sector = sharing.disk rootdev sector

structure Quiet (state next : Sharing (Option Client) Block) : Prop where
  disk : next.disk = state.disk
  last : next.last = state.last
  pinned : ∀ sector, Pinned next sector → Pinned state sector

theorem rootdev_ne_noDev : rootdev ≠ noDev := by
  decide

theorem shared_boot (start : Nat) (disk : Disk Block) :
    Shared start ([] : List Client) (Sharing.boot (fun _ => 0) disk) where
  sound := sound_boot _ disk
  current := current_boot _ disk
  root := fun _ valid => Bool.noConfusion valid
  heldRoot := fun _ _ holds => absurd rfl holds
  saved := fun _ _ holds => by simp [Sharing.boot] at holds
  logArea := fun _ _ => rfl

theorem pinned_boot (disk : Disk Block) (sector : Nat) : ¬ Pinned (Sharing.boot (fun _ => 0) disk :
      Sharing (Option Client) Block) sector := by
  rintro ⟨slot, dirty, _⟩
  exact Bool.noConfusion dirty

variable {start : Nat} {ops : List Client}
variable {state next : Sharing (Option Client) Block}
variable {thread : Option Client} {slot : BufSlot}

/-- The contents of a buffer in use are the last ones of its sector. -/
theorem Shared.data_last (shared : Shared start ops state)
    (inUse : state.held thread slot = some .inUse) :
    (state.cache.buf slot).dev = rootdev ∧
    (state.cache.buf slot).data = state.last rootdev (state.cache.buf slot).sector := by
  have valid := shared.sound.inUseValid thread slot inUse
  have root := shared.root slot valid
  refine ⟨root, ?_⟩
  rw [← root]
  apply shared.current.validLast slot _ valid
  rw [root]
  exact rootdev_ne_noDev

variable {sector : Nat}

/-- Outside operations the disk has the last contents of every sector that is
not pinned. -/
theorem Shared.last_eq_disk (shared : Shared start [] state) (unpinned : ¬ Pinned state sector) :
    state.last rootdev sector = state.disk rootdev sector := by
  by_cases cached : ∃ slot, (state.cache.buf slot).Holds rootdev sector ∧
      (state.cache.buf slot).valid = true
  · obtain ⟨slot, ⟨dev, rfl⟩, valid⟩ := cached
    have used : (state.cache.buf slot).dev ≠ noDev := by
      rw [dev]
      exact rootdev_ne_noDev
    have clean : (state.cache.buf slot).dirty = false :=
      Bool.eq_false_iff.mpr fun dirty => unpinned ⟨slot, dirty, rfl⟩
    have validLast := shared.current.validLast slot used valid
    rw [dev] at validLast
    rw [← validLast]
    by_cases inUse : ∃ holder, state.held holder slot = some .inUse
    · obtain ⟨holder, inUse⟩ := inUse
      rcases shared.saved holder slot inUse with dirty | same | inOp
      · rw [clean] at dirty
        exact Bool.noConfusion dirty
      · rw [dev] at same
        exact same
      · obtain ⟨client, member, _⟩ := inOp
        cases member
    · have same := shared.current.unusedDisk slot used valid clean
        fun holder holds => inUse ⟨holder, holds⟩
      rw [dev] at same
      exact same
  · apply shared.current.uncached rootdev sector rootdev_ne_noDev
    intro slot holds
    exact Bool.eq_false_iff.mpr fun valid => cached ⟨slot, holds, valid⟩

theorem Shared.saved_of_frame (shared : Shared start ops state)
    (frame : Frame state next thread slot)
    (disk : ∀ other, other ≠ slot → (state.cache.buf other).dev = rootdev →
      next.disk (state.cache.buf other).dev (state.cache.buf other).sector =
        state.disk (state.cache.buf other).dev (state.cache.buf other).sector)
    (own : ∀ holder, next.held holder slot = some .inUse → (next.cache.buf slot).dirty = true ∨
      (next.cache.buf slot).data =
        next.disk (next.cache.buf slot).dev (next.cache.buf slot).sector ∨
      ∃ client ∈ ops, holder = some client) :
    ∀ holder other, next.held holder other = some .inUse → (next.cache.buf other).dirty = true ∨
      (next.cache.buf other).data =
        next.disk (next.cache.buf other).dev (next.cache.buf other).sector ∨
      ∃ client ∈ ops, holder = some client := by
  intro holder other inUse
  rcases eq_or_ne other slot with rfl | same
  · exact own holder inUse
  · rw [frame.held holder other fun both => same both.2] at inUse
    have valid := shared.sound.inUseValid holder other inUse
    rw [frame.buf other same, disk other same (shared.root other valid)]
    exact shared.saved holder other inUse

theorem filled_dirty (state : Sharing (Option Client) Block) (slot : BufSlot) :
    (filled state slot).dirty = (state.cache.buf slot).dirty := by
  unfold filled
  split <;> rfl

/-- A buffer that has just been read is dirty or has the contents of the
disk. -/
theorem filled_saved (shared : Shared start ops state)
    (reading : state.held thread slot = some .reading)
    (root : (state.cache.buf slot).dev = rootdev) :
    (filled state slot).dirty = true ∨
    (filled state slot).data = state.disk (filled state slot).dev (filled state slot).sector := by
  unfold filled
  split
  next valid =>
    cases dirty : (state.cache.buf slot).dirty with
    | true => exact Or.inl rfl
    | false =>
      right
      apply shared.current.unusedDisk slot _ valid dirty
      · intro holder inUse
        have same := shared.sound.alone thread holder slot
          (by rw [reading]; exact Option.some_ne_none _)
          (by rw [inUse]; exact Option.some_ne_none _)
        subst same
        rw [reading] at inUse
        cases inUse
      · rw [root]
        exact rootdev_ne_noDev
  next => exact Or.inr rfl

/-- Whose operation is still running matters only for buffers that are not
saved. -/
theorem Shared.change_ops {others : List Client} (shared : Shared start ops state)
    (saved : ∀ client ∈ ops, client ∈ others ∨ ∀ slot, state.held (some client) slot = some .inUse →
        (state.cache.buf slot).dirty = true ∨
        (state.cache.buf slot).data = state.disk (state.cache.buf slot).dev
            (state.cache.buf slot).sector) :
    Shared start others state := by
  refine { shared with saved := ?_ }
  intro holder slot inUse
  rcases shared.saved holder slot inUse with dirty | same | inOp
  · exact Or.inl dirty
  · exact Or.inr (Or.inl same)
  · obtain ⟨client, member, rfl⟩ := inOp
    rcases saved client member with member | saved
    · exact Or.inr (Or.inr ⟨client, member, rfl⟩)
    · exact (saved slot inUse).imp_right Or.inl

/-- A section that stores one buffer it holds. -/
theorem Shared.replace {buf : Buf Block} (shared : Shared start ops state)
    (replaces : Replaces state next thread slot buf) (current : Current next)
    (disk : ∀ other, other ≠ slot → (state.cache.buf other).dev = rootdev →
      next.disk (state.cache.buf other).dev (state.cache.buf other).sector =
        state.disk (state.cache.buf other).dev (state.cache.buf other).sector)
    (own : ∀ holder, next.held holder slot = some .inUse → buf.dirty = true ∨
      buf.data = next.disk buf.dev buf.sector ∨ ∃ client ∈ ops, holder = some client)
    (logArea : ∀ sector, start ≤ sector → next.last rootdev sector = next.disk rootdev sector) :
    Shared start ops next := by
  have saved := shared.saved_of_frame (replaces.frame shared.sound) disk
    (by rwa [replaces.replaced])
  refine ⟨replaces.sound shared.sound, current, ?_, ?_, saved, logArea⟩
  · intro other valid
    rw [(replaces.identity other).1]
    rcases eq_or_ne other slot with rfl | same
    · exact shared.heldRoot thread other replaces.held
    · rw [replaces.others other same] at valid
      exact shared.root other valid
  · intro holder other holds
    rw [(replaces.identity other).1]
    exact shared.heldRoot holder other (replaces.held_before holds)

theorem Pinned.before {buf : Buf Block} (replaces : Replaces state next thread slot buf)
    (same : buf.dirty = (state.cache.buf slot).dirty) (pinned : Pinned next sector) :
    Pinned state sector := by
  obtain ⟨other, dirty, rfl⟩ := pinned
  refine ⟨other, ?_, (replaces.identity other).2.symm⟩
  rcases eq_or_ne other slot with rfl | isSlot
  · rwa [replaces.replaced, same] at dirty
  · rwa [replaces.others other isSlot] at dirty

variable {data : Block}

theorem modify_quiet (sound : Sound state) (modified : state.modify thread slot data = some next) :
    next.disk = state.disk ∧
    next.last = state.last.write (state.cache.buf slot).dev (state.cache.buf slot).sector data ∧
    ∀ sector, Pinned next sector → Pinned state sector := by
  have replaces := modify_replaces sound modified
  obtain ⟨_, rfl⟩ := modify_eq modified
  exact ⟨rfl, rfl, fun _ => Pinned.before replaces rfl⟩

theorem Shared.modify {client : Client} (shared : Shared start ops state) (member : client ∈ ops)
    (home : (state.cache.buf slot).sector < start)
    (modified : state.modify (some client) slot data = some next) :
    Shared start ops next := by
  have replaces := modify_replaces shared.sound modified
  have frame := replaces.frame shared.sound
  have current := shared.current.modify shared.sound modified
  obtain ⟨inUse, rfl⟩ := modify_eq modified
  refine shared.replace replaces current (fun _ _ _ => rfl) ?_ ?_
  · intro holder holds
    have owner := frame.owner (by rw [holds]; exact Option.some_ne_none _)
    exact Or.inr (Or.inr ⟨client, member, owner⟩)
  · intro sector inLog
    change state.last.write _ _ data rootdev sector = _
    rw [Disk.write_of_ne _ _ fun same => by omega]
    exact shared.logArea sector inLog

theorem logWrite_pinned (sound : Sound state) (logged : state.logWrite thread slot = some next) :
    next.disk = state.disk ∧ next.last = state.last ∧
    ∀ sector, Pinned next sector →
      Pinned state sector ∨ sector = (state.cache.buf slot).sector := by
  have replaces := logWrite_replaces sound logged
  obtain ⟨_, rfl⟩ := logWrite_eq logged
  refine ⟨rfl, rfl, ?_⟩
  rintro pinned ⟨other, dirty, rfl⟩
  rcases eq_or_ne other slot with rfl | same
  · right
    exact (replaces.identity other).2
  · left
    refine ⟨other, ?_, (replaces.identity other).2.symm⟩
    rw [replaces.others other same] at dirty
    exact dirty

theorem Shared.logWrite (shared : Shared start ops state)
    (logged : state.logWrite thread slot = some next) :
    Shared start ops next := by
  have replaces := logWrite_replaces shared.sound logged
  have current := shared.current.logWrite shared.sound logged
  obtain ⟨inUse, rfl⟩ := logWrite_eq logged
  exact shared.replace replaces current (fun _ _ _ => rfl) (fun _ _ => Or.inl rfl) shared.logArea

def stored (state : Sharing (Option Client) Block) (slot : BufSlot) (data : Block) : Buf Block :=
  { state.cache.buf slot with valid := true, dirty := false, data := data }

theorem store_eq (sound : Sound state) (stores : System.store state slot data = some next) :
    state.held none slot = some .inUse ∧
      next = { state with
        cache := state.cache.setBuf slot (stored state slot data)
        disk := state.disk.write (state.cache.buf slot).dev (state.cache.buf slot).sector data
        last := state.last.write (state.cache.buf slot).dev
          (state.cache.buf slot).sector data } := by
  simp only [System.store] at stores
  split at stores
  next => simp at stores
  next modified changes =>
    have middle := (modify_replaces sound changes).sound sound
    obtain ⟨inUse, rfl⟩ := modify_eq changes
    obtain ⟨_, rfl⟩ := bwrite_eq middle stores
    refine ⟨inUse, ?_⟩
    simp [Bcache.setBuf, stored]

theorem store_replaces (sound : Sound state) (stores : System.store state slot data = some next) :
    Replaces state next none slot (stored state slot data) := by
  obtain ⟨inUse, rfl⟩ := store_eq sound stores
  exact replaces_of_inUse sound inUse (stored state slot data) ⟨rfl, rfl⟩ rfl rfl _ _

section

variable (shared : Shared start ops state) (stores : System.store state slot data = some next)
include shared stores

/-- The script writes a block, which is not pinned any more. -/
theorem Shared.store :
    Shared start ops next := by
  have replaces := store_replaces shared.sound stores
  have current : Current next := by
    simp only [System.store] at stores
    split at stores
    next => simp at stores
    next modified changes =>
      have middle := (modify_replaces shared.sound changes).sound shared.sound
      exact (shared.current.modify shared.sound changes).bwrite middle stores
  obtain ⟨inUse, rfl⟩ := store_eq shared.sound stores
  have root := (shared.data_last inUse).1
  refine shared.replace replaces current ?_
    (fun _ _ => Or.inr (Or.inl (Disk.write_same ..).symm)) ?_
  · intro other otherNe otherRoot
    apply Disk.write_of_ne
    rintro ⟨dev, sector⟩
    apply otherNe
    apply shared.sound.unique slot other
    · rw [root]
      exact rootdev_ne_noDev
    · exact ⟨dev, sector⟩
  · intro sector inLog
    change state.last.write _ _ data rootdev sector = state.disk.write _ _ data rootdev sector
    by_cases same : rootdev = (state.cache.buf slot).dev ∧ sector = (state.cache.buf slot).sector
    · obtain ⟨dev, rfl⟩ := same
      rw [dev, Disk.write_same, Disk.write_same]
    · rw [Disk.write_of_ne _ _ same, Disk.write_of_ne _ _ same]
      exact shared.logArea sector inLog

theorem store_pinned (pinned : Pinned next sector) :
    Pinned state sector ∧ sector ≠ (state.cache.buf slot).sector := by
  have replaces := store_replaces shared.sound stores
  obtain ⟨other, dirty, rfl⟩ := pinned
  obtain ⟨inUse, _⟩ := store_eq shared.sound stores
  have root := (shared.data_last inUse).1
  have otherNe : other ≠ slot := by
    rintro rfl
    rw [replaces.replaced] at dirty
    exact Bool.noConfusion dirty
  rw [replaces.others other otherNe] at dirty ⊢
  refine ⟨⟨other, dirty, rfl⟩, ?_⟩
  intro equal
  apply otherNe
  apply shared.sound.unique slot other
  · rw [root]
    exact rootdev_ne_noDev
  · refine ⟨?_, equal⟩
    rw [root]
    exact shared.root other (shared.sound.dirtyValid other dirty)

end

variable [DecidableEq Client]

section

variable (sound : Sound state) (got : state.bget thread rootdev sector = some (slot, next))
include sound got

theorem bget_quiet :
    Quiet state next := by
  obtain ⟨cache, gets, rfl⟩ := bget_cases sound got
  refine ⟨rfl, rfl, ?_⟩
  rintro pinned ⟨other, dirty, rfl⟩
  change (cache.buf other).dirty = true at dirty
  rcases eq_or_ne other slot with rfl | same
  · cases gets with
    | cached =>
      rw [Bcache.setBuf_buf_same] at dirty
      exact ⟨other, dirty, by simp⟩
    | recycled =>
      rw [Bcache.setBuf_buf_same] at dirty
      exact Bool.noConfusion dirty
  · refine ⟨other, ?_, ?_⟩
    · rw [gets.others same] at dirty
      exact dirty
    · exact congrArg Buf.sector (gets.others same).symm

theorem bget_result :
    next.held thread slot = some .reading ∧
    (next.cache.buf slot).Holds rootdev sector ∧
    ∀ holder other, state.held holder other ≠ none → other ≠ slot := by
  obtain ⟨cache, gets, rfl⟩ := bget_cases sound got
  refine ⟨state.hold_same .., gets.result.1, ?_⟩
  rintro holder other holds rfl
  exact holds (sound.unheld gets.idle holder)

end

theorem Shared.bget (shared : Shared start ops state)
    (got : state.bget thread rootdev sector = some (slot, next)) :
    Shared start ops next := by
  have frame := bget_frame shared.sound got
  have sound := shared.sound.bget got
  have current := shared.current.bget shared.sound got
  obtain ⟨cache, gets, rfl⟩ := bget_cases shared.sound got
  refine ⟨sound, current, ?_, ?_, ?_, shared.logArea⟩
  · intro other valid
    change (cache.buf other).valid = true at valid
    change (cache.buf other).dev = rootdev
    rcases eq_or_ne other slot with rfl | same
    · exact gets.result.1.1
    · rw [gets.others same] at valid ⊢
      exact shared.root other valid
  · intro holder other holds
    change (cache.buf other).dev = rootdev
    rcases eq_or_ne other slot with rfl | same
    · exact gets.result.1.1
    · rw [frame.held holder other fun both => same both.2] at holds
      rw [gets.others same]
      exact shared.heldRoot holder other holds
  · apply shared.saved_of_frame frame
    · exact fun _ _ _ => rfl
    · intro holder inUse
      have owner := frame.owner (by rw [inUse]; exact Option.some_ne_none _)
      subst owner
      have reading : state.hold holder slot (some .reading) holder slot =
          some .reading := state.hold_same ..
      have impossible := reading.symm.trans inUse
      cases impossible

theorem fill_quiet (sound : Sound state) (read : state.fill thread slot = some next) :
    Quiet state next := by
  have replaces := fill_replaces sound read
  obtain ⟨_, rfl⟩ := fill_eq sound read
  exact ⟨rfl, rfl, fun _ => Pinned.before replaces (filled_dirty state slot)⟩

theorem Shared.fill (shared : Shared start ops state) (read : state.fill thread slot = some next) :
    Shared start ops next := by
  have replaces := fill_replaces shared.sound read
  have current := shared.current.fill shared.sound read
  have root := shared.heldRoot thread slot replaces.held
  obtain ⟨reading, rfl⟩ := fill_eq shared.sound read
  exact shared.replace replaces current (fun _ _ _ => rfl)
    (fun _ _ => (filled_saved shared reading root).imp_right Or.inl) shared.logArea

theorem brelse_quiet (sound : Sound state) (released : state.brelse thread slot = some next) :
    Quiet state next := by
  have replaces := brelse_replaces sound released
  obtain ⟨_, rfl⟩ := brelse_eq released
  exact ⟨rfl, rfl, fun _ => Pinned.before replaces rfl⟩

theorem Shared.brelse (shared : Shared start ops state)
    (saved : (state.cache.buf slot).dirty = true ∨ (state.cache.buf slot).data =
        state.disk (state.cache.buf slot).dev (state.cache.buf slot).sector)
    (released : state.brelse thread slot = some next) :
    Shared start ops next := by
  have replaces := brelse_replaces shared.sound released
  have frame := replaces.frame shared.sound
  have current := shared.current.brelse shared.sound saved released
  obtain ⟨_, rfl⟩ := brelse_eq released
  refine shared.replace replaces current (fun _ _ _ => rfl) ?_ shared.logArea
  intro holder inUse
  have owner := frame.owner (by rw [inUse]; exact Option.some_ne_none _)
  subst owner
  have unheld : state.hold holder slot none holder slot = none := state.hold_same ..
  have impossible := unheld.symm.trans inUse
  cases impossible

end Cache

end LogSystem

end Xv6Kthreads
