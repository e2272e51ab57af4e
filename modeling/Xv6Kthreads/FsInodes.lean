import Xv6Kthreads.FsState
import Xv6Kthreads.FsVolume

/-!
# The blocks of a locked inode

A cache entry with an inode that has been read from the disk shows a volume: its
copy of the inode beside any view of the other inodes.  `bmap` finds a block of
the inode or gives it a new one.  It keeps the ownership of the blocks, and what
the inodes contain.
-/

namespace Xv6Kthreads

namespace FileSystem

open Sections Function

/-- The volume as it is seen through a cache entry; `others` is a view of the
other inodes. -/
def Fs.volume (fs : Fs) (others : Nat → Dinode) (ip : Entry) : Volume where
  ino := update others (fs.inode ip).inum (fs.inode ip).copy
  block := fs.block

theorem Fs.volume_own (fs : Fs) (others : Nat → Dinode) (ip : Entry) :
    (fs.volume others ip).ino (fs.inode ip).inum = (fs.inode ip).copy :=
  update_self ..

/-- Only the copy of one entry, its inode on the disk, the blocks and the
history have changed. -/
structure Local (ip : Entry) (fs after : Fs) : Prop where
  others : ∀ entry, entry ≠ ip → after.inode entry = fs.inode entry
  own : after.inode ip = { fs.inode ip with copy := (after.inode ip).copy }
  dinode : ∀ inum, inum ≠ (fs.inode ip).inum → after.dinode inum = fs.dinode inum
  holders : after.holders = fs.holders
  file : after.file = fs.file
  cwd : after.cwd = fs.cwd

namespace Local

variable {ip : Entry} {fs middle after : Fs}

theorem refl (fs : Fs) : Local ip fs fs :=
  ⟨fun _ _ => rfl, rfl, fun _ _ => rfl, rfl, rfl, rfl⟩

theorem inum (changes : Local ip fs after) : (after.inode ip).inum = (fs.inode ip).inum := by
  rw [changes.own]

theorem trans (first : Local ip fs middle) (second : Local ip middle after) :
    Local ip fs after where
  others entry differs := by
    rw [second.others entry differs, first.others entry differs]
  own := by
    have inner := first.own
    have outer := second.own
    rw [inner] at outer
    exact outer
  dinode inum differs := by
    rw [second.dinode inum (by rwa [first.inum]), first.dinode inum differs]
  holders := second.holders.trans first.holders
  file := second.file.trans first.file
  cwd := second.cwd.trans first.cwd

end Local

variable [sb : Superblock] {others : Nat → Dinode} {fs middle after : Fs}
  {ip : Entry} {b : Nat} {places : Finset Place} {allowed : Stop → Prop}

/-! ### Allocation -/

def Fs.allocated (fs : Fs) (b : Nat) : Fs :=
  { fs with
    block := Volume.taken ⟨fs.dinode, fs.block⟩ b
    logged := b :: bblock b :: fs.logged
    allocations := ⟨b, dataFree fs⟩ :: fs.allocations }

theorem wp_balloc {post : Nat → Fs → Prop}
    (full : firstFree fs = none → allowed (.panic .ballocOutOfBlocks))
    (found : ∀ b, firstFree fs = some b → post b (fs.allocated b)) :
    balloc.wp fs allowed post := by
  unfold balloc
  rw [Act.wp_bind, Act.wp_read]
  split
  next isFull => exact full isFull
  next b isFree => exact found b isFree

/-- The block that `balloc` finds is free and lies behind the bitmap. -/
theorem firstFree_spec (owned : (fs.volume others ip).Owned) (found : firstFree fs = some b) :
    Usable b ∧ (fs.volume others ip).marked b = false ∧ b < sb.size := by
  obtain ⟨isFree, inside, _⟩ := List.find?_range_eq_some.mp found
  have below : b < sb.size := List.mem_range.mp inside
  have unmarked : (fs.volume others ip).marked b = false := by
    have isClear : fs.marked b = false := by simpa using isFree
    exact isClear
  have above : dataStart ≤ b := by
    by_contra before
    have marked := owned.reserved b (by omega) (mapped_of_lt below)
    rw [unmarked] at marked
    cases marked
  exact ⟨⟨above, mapped_of_lt below⟩, unmarked, below⟩

/-- The free blocks suffice for the inode of the entry to get its blocks at the
places. -/
def Fs.Room (fs : Fs) (others : Nat → Dinode) (ip : Entry) (places : Finset Place) : Prop :=
  (fs.volume others ip).Room (fs.inode ip).inum places

omit sb in
theorem Fs.pointer_volume (fs : Fs) (others : Nat → Dinode) (ip : Entry) (place : Place) :
    (fs.volume others ip).pointer (fs.inode ip).inum place =
      (fs.inode ip).copy.pointer fs.block place := by
  rw [Volume.pointer, fs.volume_own]
  rfl

/-- `balloc` finds a block while the inode lacks one and there is room. -/
theorem not_room (isFull : firstFree fs = none) {place : Place}
    (isNeeded : place ∈ places) (empty : (fs.inode ip).copy.pointer fs.block place = 0) :
    ¬ fs.Room others ip places := by
  intro room
  have marked : ∀ b < sb.size, (fs.volume others ip).marked b = true := by
    intro b inside
    have notFree := List.find?_eq_none.mp isFull b (List.mem_range.mpr inside)
    have isMarked : fs.marked b = true := by simpa using notFree
    exact isMarked
  rw [← fs.pointer_volume others] at empty
  exact room.pointer_ne_zero marked isNeeded empty

/-- The inode has got blocks at some of the places. -/
structure Filled (others : Nat → Dinode) (ip : Entry) (places : Finset Place) (fs after : Fs) :
    Prop where
  changes : Local ip fs after
  disk : after.dinode = fs.dinode
  copy : (after.inode ip).copy = { (fs.inode ip).copy with addrs := (after.inode ip).copy.addrs }
  owned : (after.volume others ip).Owned
  has : ∀ bn, (fs.inode ip).copy.Has fs.block bn → (after.inode ip).copy.Has after.block bn
  byteAt : ∀ j off, ((after.volume others ip).ino j).byteAt after.block off =
    ((fs.volume others ip).ino j).byteAt fs.block off
  room : fs.Room others ip places → after.Room others ip places

theorem Filled.refl (owned : (fs.volume others ip).Owned) :
    Filled others ip places fs fs :=
  ⟨Local.refl fs, rfl, rfl, owned, fun _ => id, fun _ _ => rfl, id⟩

theorem Filled.trans (first : Filled others ip places fs middle)
    (second : Filled others ip places middle after) : Filled others ip places fs after := by
  refine ⟨first.changes.trans second.changes, second.disk.trans first.disk, ?_,
    second.owned, fun bn isThere => second.has bn (first.has bn isThere), ?_,
    second.room ∘ first.room⟩
  · have outer := second.copy
    rw [first.copy] at outer
    exact outer
  · intro j off
    rw [second.byteAt, first.byteAt]

theorem Filled.of_gains {place : Place} (isNeeded : place ∈ places) (changes : Local ip fs after)
    (disk : after.dinode = fs.dinode)
    (copy : (after.inode ip).copy =
      { (fs.inode ip).copy with addrs := (after.inode ip).copy.addrs })
    (owned : (fs.volume others ip).Owned) (found : firstFree fs = some b)
    (gains : Volume.Gains (fs.inode ip).inum place b (fs.volume others ip)
      (after.volume others ip)) : Filled others ip places fs after := by
  obtain ⟨usable, unmarked, inside⟩ := firstFree_spec owned found
  refine ⟨changes, disk, copy, gains.owned owned usable unmarked, ?_, gains.byteAt, ?_⟩
  rotate_left
  · unfold Fs.Room
    rw [changes.inum]
    exact gains.room usable inside unmarked isNeeded
  rintro bn ⟨other, isLeaf, filled⟩
  refine ⟨other, isLeaf, ?_⟩
  rw [← fs.pointer_volume others] at filled
  rw [← after.pointer_volume others, changes.inum]
  by_cases same : other = place
  · rw [same, gains.points]
    exact usable.pos
  · rw [gains.rest _ other (fun both => same both.2)]
    exact filled

/-! ### `bmap` -/

section Mapping

variable (owned : (fs.volume others ip).Owned)

include owned

theorem Filled.address {index : Fin 13} (isNeeded : .addr index ∈ places)
    (empty : (fs.inode ip).copy.addrs index = 0) (found : firstFree fs = some b) :
    Filled others ip places fs
      ((fs.allocated b).setCopy ip ((fs.inode ip).copy.setAddr index b)) := by
  obtain ⟨usable, unmarked, _⟩ := firstFree_spec owned found
  have inode : ((fs.allocated b).setCopy ip ((fs.inode ip).copy.setAddr index b)).inode ip =
        { fs.inode ip with copy := (fs.inode ip).copy.setAddr index b } :=
    update_self ..
  have own := fs.volume_own others ip
  refine Filled.of_gains isNeeded ⟨fun _ differs => update_of_ne differs _ _,
    by rw [inode], fun _ _ => rfl, rfl, rfl, rfl⟩ rfl ?_ owned found
    (Volume.Gains.address owned usable unmarked index
      ((fs.inode ip).copy.setAddr index b) ?_ ?_ ?_ rfl)
  · rw [inode]
    rfl
  · rw [own, empty]
  · rw [own]
    rfl
  · unfold Fs.volume
    rw [inode, update_idem]

theorem wp_bmapAddr {index : Fin 13} {post : Nat → Fs → Prop} (isNeeded : .addr index ∈ places)
    (full : ¬ fs.Room others ip places → allowed (.panic .ballocOutOfBlocks))
    (holds : ∀ after, Filled others ip places fs after → (after.inode ip).copy.addrs index ≠ 0 →
        post ((after.inode ip).copy.addrs index) after) :
    (bmapAddr ip index).wp fs allowed post := by
  unfold bmapAddr
  rw [Act.wp_bind, Act.wp_read]
  by_cases empty : (fs.inode ip).copy.addrs index = 0
  · rw [if_pos empty, Act.wp_bind]
    refine wp_balloc (fun isFull => full (not_room isFull isNeeded
      (show (fs.inode ip).copy.pointer fs.block (.addr index) = 0 from empty))) ?_
    intro b found
    have stored : (((fs.allocated b).setCopy ip
        ((fs.inode ip).copy.setAddr index b)).inode ip).copy.addrs index =
          b := by
      simp [Fs.setCopy, Fs.setInode, Dinode.setAddr]
    have result := holds _ (Filled.address owned isNeeded empty found)
    rw [stored] at result
    exact result (firstFree_spec owned found).1.pos
  · rw [if_neg empty]
    exact holds fs (Filled.refl owned) empty

/-- The state after `balloc` has returned block `b` and its number has been
stored in an indirect block. -/
def Fs.linked (fs : Fs) (table j b : Nat) : Fs :=
  ((fs.allocated b).setBlock table ((fs.block table).setWord j b)).logWrite table

theorem Filled.indirect {j : Fin 128} (isNeeded : .entry j ∈ places)
    (indirect : (fs.inode ip).copy.addrs (.last 12) ≠ 0)
    (empty : (fs.block ((fs.inode ip).copy.addrs (.last 12))).word j.val = 0)
    (found : firstFree fs = some b) :
    Filled others ip places fs (fs.linked ((fs.inode ip).copy.addrs (.last 12)) j.val b) ∧
      ((fs.linked ((fs.inode ip).copy.addrs (.last 12)) j.val b).inode ip).copy.pointer
        (fs.linked ((fs.inode ip).copy.addrs (.last 12)) j.val b).block (.entry j) =
          b := by
  obtain ⟨usable, unmarked, inside⟩ := firstFree_spec owned found
  have own := fs.volume_own others ip
  have gains : Volume.Gains (fs.inode ip).inum (.entry j) b (fs.volume others ip)
      ((fs.linked ((fs.inode ip).copy.addrs (.last 12)) j.val b).volume others ip) :=
    Volume.Gains.indirect owned usable unmarked (by rw [own]) indirect empty
      rfl rfl (inside.trans sb.size_lt)
  refine ⟨Filled.of_gains isNeeded ⟨fun _ _ => rfl, rfl, fun _ _ => rfl, rfl, rfl, rfl⟩
    rfl rfl owned found gains, ?_⟩
  rw [← Fs.pointer_volume _ others]
  exact gains.points

/-- `bmap` returns the block at the place that belongs to `bn`. -/
theorem wp_bmap {bn : Nat} {post : Nat → Fs → Prop}
    (full : ¬ fs.Room others ip places → allowed (.panic .ballocOutOfBlocks))
    (inRange : bn < 140) (needs : path bn ⊆ places)
    (holds : ∀ after place, Filled others ip places fs after → leaf bn = some place →
      (after.inode ip).copy.pointer after.block place ≠ 0 →
        post ((after.inode ip).copy.pointer after.block place) after) :
    (bmap ip bn).wp fs allowed post := by
  unfold bmap
  by_cases direct : bn < 12
  · rw [dif_pos direct]
    refine wp_bmapAddr owned (needs (by simp [path_direct direct])) full ?_
    intro after filled nonzero
    exact holds after _ filled (leaf_direct direct) nonzero
  · have inside : bn - 12 < NINDIRECT := (by omega : bn - 12 < 128)
    have isLeaf := leaf_indirect direct inside
    rw [path_indirect direct inside, Finset.insert_subset_iff, Finset.singleton_subset_iff] at needs
    obtain ⟨table, entry⟩ := needs
    rw [dif_neg direct, if_pos inside, Act.wp_bind]
    refine wp_bmapAddr owned table full ?_
    intro middle first nonzero
    rw [Act.wp_bind, bread, Act.wp_read]
    by_cases empty : (middle.block ((middle.inode ip).copy.addrs (.last 12))).word (bn - 12) = 0
    · rw [if_pos empty, Act.wp_bind]
      have isEmpty : (middle.inode ip).copy.pointer middle.block
          (.entry ⟨bn - 12, inside⟩) = 0 := by
        simp only [Dinode.pointer, if_neg nonzero]
        exact empty
      refine wp_balloc (fun isFull => full fun room =>
        not_room isFull entry isEmpty (first.room room)) ?_
      intro b found
      obtain ⟨second, points⟩ := Filled.indirect first.owned
        entry nonzero empty found
      have result := holds _ _ (first.trans second) isLeaf
      rw [points] at result
      exact result (firstFree_spec first.owned found).1.pos
    · rw [if_neg empty]
      have result := holds middle _ first isLeaf
      simp only [Dinode.pointer, if_neg nonzero] at result
      exact result empty

end Mapping

end FileSystem

end Xv6Kthreads
