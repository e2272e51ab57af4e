import Xv6Kthreads.FsFormat
import Mathlib.Data.Finset.Union
import Mathlib.Data.Fintype.Sum
import Mathlib.Tactic.DeriveFintype

/-!
# Blocks and their owners

A volume is a table of inodes with the contents of the blocks.  Each inode points
to blocks at thirteen addresses and through its indirect block.  This file
states that every block has at most one owner and that the bitmap marks the owned
blocks.  What the inodes contain does not change when an inode gets a new block
from `balloc`, because a missing block and a new one both count as zeros.
-/

namespace Xv6Kthreads

open Function Finset

namespace FileSystem

/-- A place where an inode keeps the number of a block: one of its addresses,
or an entry of its indirect block. -/
inductive Place where
  | addr (index : Fin 13)
  | entry (j : Fin 128)
  deriving DecidableEq, Fintype, Repr

/-- The place of the address of the `bn`-th block of an inode. -/
def leaf (bn : Nat) : Option Place :=
  if direct : bn < 12 then some (.addr ⟨bn, lt_addrs direct⟩)
  else if indirect : bn - 12 < 128 then some (.entry ⟨bn - 12, indirect⟩)
  else none

theorem leaf_direct {bn : Nat} (direct : bn < 12) :
    leaf bn = some (.addr ⟨bn, lt_addrs direct⟩) := by
  rw [leaf, dif_pos direct]

theorem leaf_indirect {bn : Nat} (indirect : ¬ bn < 12) (inside : bn - 12 < 128) :
    leaf bn = some (.entry ⟨bn - 12, inside⟩) := by
  rw [leaf, dif_neg indirect, dif_pos inside]

def Place.number : Place → Nat
  | .addr index => index.val
  | .entry j => j.val + 12

theorem number_of_leaf {bn : Nat} {place : Place} (isLeaf : leaf bn = some place) :
    place.number = bn ∧ place ≠ .addr (.last 12) := by
  by_cases direct : bn < 12
  · rw [leaf_direct direct, Option.some.injEq] at isLeaf
    subst isLeaf
    refine ⟨rfl, ?_⟩
    intro isLast
    rw [Place.addr.injEq, Fin.ext_iff] at isLast
    exact absurd isLast (Nat.ne_of_lt direct)
  · by_cases inside : bn - 12 < 128
    · rw [leaf_indirect direct inside, Option.some.injEq] at isLeaf
      subst isLeaf
      refine ⟨?_, Place.noConfusion⟩
      change bn - 12 + 12 = bn
      omega
    · rw [leaf, dif_neg direct, dif_neg inside] at isLeaf
      exact absurd isLeaf (by simp)

/-- The places that `bmap` looks at to find the `bn`-th block of an inode. -/
def path (bn : Nat) : Finset Place :=
  match leaf bn with
  | none => ∅
  | some (.addr index) => {.addr index}
  | some (.entry j) => {.addr (.last 12), .entry j}

theorem path_direct {bn : Nat} (direct : bn < 12) : path bn = {.addr ⟨bn, lt_addrs direct⟩} := by
  rw [path, leaf_direct direct]

theorem path_indirect {bn : Nat} (indirect : ¬ bn < 12) (inside : bn - 12 < 128) :
    path bn = {.addr (.last 12), .entry ⟨bn - 12, inside⟩} := by
  rw [path, leaf_indirect indirect inside]

/-- The places for the blocks with the `n` bytes at `off`. -/
def needed (off n : Nat) : Finset Place :=
  ((range MAXFILE).filter fun bn => bn * 512 < off + n ∧ off < (bn + 1) * 512).biUnion path

theorem path_subset_needed {bn off n : Nat} (inRange : bn < MAXFILE) (below : bn * 512 < off + n)
    (above : off < (bn + 1) * 512) : path bn ⊆ needed off n :=
  subset_biUnion_of_mem path (mem_filter.mpr ⟨mem_range.mpr inRange, below, above⟩)

theorem needed_subset {off n start size : Nat} (above : start ≤ off)
    (below : off + n ≤ start + size) : needed off n ⊆ needed start size := by
  refine biUnion_subset_biUnion_of_subset_left path ?_
  intro bn isIn
  obtain ⟨inRange, least, most⟩ := mem_filter.mp isIn
  exact mem_filter.mpr ⟨inRange, by omega, by omega⟩

structure Volume where
  ino : Nat → Dinode
  block : Nat → Block

namespace Dinode

variable (inode : Dinode) (block : Nat → Block)

def pointer : Place → Nat
  | .addr index => inode.addrs index
  | .entry j =>
    if inode.addrs (.last 12) = 0 then 0 else (block (inode.addrs (.last 12))).word j.val

def Has (bn : Nat) : Prop :=
  ∃ place, leaf bn = some place ∧ inode.pointer block place ≠ 0

def NoHoles : Prop :=
  ∀ bn, bn * 512 < inode.size → inode.Has block bn

def dataAt (place : Place) : Block :=
  if inode.pointer block place = 0 then fun _ => 0
  else block (inode.pointer block place)

def byteAt (off : Nat) : UInt8 :=
  match leaf (off / 512) with
  | some place => blockBytes (inode.dataAt block place) (off % 512) 0
  | none => 0

variable {inode block}

/-- An inode that has a block has what `bmap` looks at to find it. -/
theorem Has.path {bn : Nat} {place : Place} (has : inode.Has block bn) (onPath : place ∈ path bn) :
    inode.pointer block place ≠ 0 := by
  obtain ⟨found, isLeaf, nonzero⟩ := has
  rw [FileSystem.path, isLeaf] at onPath
  cases found with
  | addr index =>
    rw [mem_singleton.mp onPath]
    exact nonzero
  | entry j =>
    rcases mem_insert.mp onPath with rfl | onPath
    · exact fun none => nonzero (if_pos none)
    · rw [mem_singleton.mp onPath]
      exact nonzero

end Dinode

section Layout

variable [sb : Superblock]

def Mapped (b : Nat) : Prop :=
  b / BPB ≤ sb.size / BPB

/-- A block behind the bitmap whose bit lies in the bitmap. -/
def Usable (b : Nat) : Prop :=
  dataStart ≤ b ∧ Mapped b

theorem mapped_of_lt {b : Nat} (below : b < sb.size) : Mapped b :=
  Nat.div_le_div_right (Nat.le_of_lt below)

theorem bblock_lt {b : Nat} (mapped : Mapped b) : bblock b < dataStart := by
  unfold Mapped at mapped
  unfold bblock dataStart
  omega

theorem Usable.pos {b : Nat} (usable : Usable b) : b ≠ 0 := by
  have above := usable.1
  have positive : 0 < dataStart := Nat.succ_pos _
  omega

theorem Usable.bblock_ne {b c : Nat} (usable : Usable b) (mapped : Mapped c) : bblock c ≠ b := by
  have below := bblock_lt mapped
  have above := usable.1
  omega

theorem bblock_eq_iff {b c : Nat} (sameBit : b % BPB = c % BPB) : bblock b = bblock c ↔ b = c := by
  unfold bblock
  constructor
  · intro same
    have bySplit := Nat.div_add_mod b BPB
    have cySplit := Nat.div_add_mod c BPB
    have sameQuotient : b / BPB = c / BPB := by omega
    rw [← bySplit, ← cySplit, sameBit, sameQuotient]
  · rintro rfl
    rfl

end Layout

namespace Volume

def pointer (volume : Volume) (i : Nat) (place : Place) : Nat :=
  (volume.ino i).pointer volume.block place

variable [sb : Superblock]

def marked (volume : Volume) (b : Nat) : Bool :=
  getBit (volume.block (bblock b)) (b % BPB)

/-- Every block has at most one owner, owned blocks are marked, and so are the
blocks before the data area. -/
structure Owned (volume : Volume) : Prop where
  range : ∀ i place, volume.pointer i place ≠ 0 → Usable (volume.pointer i place)
  unique : ∀ i j place other, volume.pointer i place ≠ 0 →
    volume.pointer i place = volume.pointer j other → i = j ∧ place = other
  marked : ∀ i place, volume.pointer i place ≠ 0 → volume.marked (volume.pointer i place) = true
  reserved : ∀ b, b < dataStart → Mapped b → volume.marked b = true

def missing (volume : Volume) (i : Nat) (places : Finset Place) : Finset Place :=
  places.filter fun place => volume.pointer i place = 0

def free (volume : Volume) : Finset Nat :=
  (range sb.size).filter fun b => volume.marked b = false

/-- The free blocks suffice for the inode to get its blocks at the places. -/
def Room (volume : Volume) (i : Nat) (places : Finset Place) : Prop :=
  (volume.missing i places).card ≤ volume.free.card

variable {volume after : Volume} {i b : Nat} {places : Finset Place}

theorem Owned.pointer_ne (owned : volume.Owned) (usable : Usable b)
    (unmarked : volume.marked b = false) (j : Nat) (place : Place) :
    volume.pointer j place ≠ b := by
  rintro rfl
  rw [owned.marked j place usable.pos] at unmarked
  cases unmarked

theorem Owned.congr (owned : volume.Owned)
    (pointers : ∀ j place, after.pointer j place = volume.pointer j place)
    (marks : ∀ c, Mapped c → after.marked c = volume.marked c) :
    after.Owned := by
  refine ⟨?_, ?_, ?_, ?_⟩
  · intro j other
    rw [pointers]
    exact owned.range j other
  · intro j k first second
    rw [pointers, pointers]
    exact owned.unique j k first second
  · intro j other
    rw [pointers]
    intro isFilled
    rw [marks _ (owned.range j other isFilled).2]
    exact owned.marked j other isFilled
  · intro c below mapped
    rw [marks c mapped]
    exact owned.reserved c below mapped

omit sb in
/-- The volume has the same pointers, and the blocks that are leaves have the
same data. -/
theorem byteAt_congr {j : Nat} (same : ∀ bn place, leaf bn = some place →
      (after.ino j).dataAt after.block place =
        (volume.ino j).dataAt volume.block place) (off : Nat) :
    (after.ino j).byteAt after.block off = (volume.ino j).byteAt volume.block off := by
  unfold Dinode.byteAt
  split
  next place isLeaf => rw [same _ place isLeaf]
  next => rfl

/-! ### A new block -/

/-- Inode `i` gets block `b` at a place where it had none. -/
structure Gains (i : Nat) (place : Place) (b : Nat) (volume after : Volume) : Prop where
  empty : volume.pointer i place = 0
  points : after.pointer i place = b
  rest : ∀ j other, ¬ (j = i ∧ other = place) → after.pointer j other = volume.pointer j other
  marks : ∀ c, Mapped c → after.marked c = (decide (c = b) || volume.marked c)
  leaves : ∀ j bn other, leaf bn = some other →
    volume.pointer j other ≠ 0 → after.block (volume.pointer j other) =
      volume.block (volume.pointer j other)
  zeros : after.block b = fun _ => 0

section

variable {place : Place} (gains : Gains i place b volume after)
include gains

theorem Gains.owned (owned : volume.Owned) (usable : Usable b) (unmarked : volume.marked b = false)
    : after.Owned := by
  have isNew : ∀ j other, volume.pointer j other ≠ b := owned.pointer_ne usable unmarked
  refine ⟨?_, ?_, ?_, ?_⟩
  · intro j other
    by_cases same : j = i ∧ other = place
    · obtain ⟨rfl, rfl⟩ := same
      rw [gains.points]
      exact fun _ => usable
    · rw [gains.rest j other same]
      exact owned.range j other
  · intro j k first second
    by_cases sameFirst : j = i ∧ first = place
    · obtain ⟨rfl, rfl⟩ := sameFirst
      rw [gains.points]
      intro _ same
      by_contra differs
      rw [gains.rest k second (fun both => differs ⟨both.1.symm, both.2.symm⟩)] at same
      exact isNew k second same.symm
    · rw [gains.rest j first sameFirst]
      intro filled same
      by_cases sameSecond : k = i ∧ second = place
      · obtain ⟨rfl, rfl⟩ := sameSecond
        rw [gains.points] at same
        exact absurd same (isNew j first)
      · rw [gains.rest k second sameSecond] at same
        exact owned.unique j k first second filled same
  · intro j other
    by_cases same : j = i ∧ other = place
    · obtain ⟨rfl, rfl⟩ := same
      rw [gains.points]
      intro _
      rw [gains.marks b usable.2]
      simp
    · rw [gains.rest j other same]
      intro filled
      rw [gains.marks _ (owned.range j other filled).2, owned.marked j other filled, Bool.or_true]
  · intro c below mapped
    rw [gains.marks c mapped, owned.reserved c below mapped, Bool.or_true]

theorem Gains.byteAt (j off : Nat) :
    (after.ino j).byteAt after.block off = (volume.ino j).byteAt volume.block off := by
  refine byteAt_congr ?_ off
  intro bn other isLeaf
  change (if after.pointer j other = 0 then _ else
    after.block (after.pointer j other)) =
      if volume.pointer j other = 0 then _ else
        volume.block (volume.pointer j other)
  by_cases same : j = i ∧ other = place
  · obtain ⟨rfl, rfl⟩ := same
    rw [gains.points, gains.zeros, if_pos gains.empty]
    split <;> rfl
  · rw [gains.rest j other same]
    split
    · rfl
    next filled => exact gains.leaves j bn other isLeaf filled

/-- The inode has one block less to get, and there is one free block less. -/
theorem Gains.room (usable : Usable b) (inside : b < sb.size) (unmarked : volume.marked b = false)
    (isNeeded : place ∈ places) (room : volume.Room i places) : after.Room i places := by
  have missing : after.missing i places = (volume.missing i places).erase place := by
    ext other
    simp only [Volume.missing, mem_filter, mem_erase]
    by_cases same : other = place
    · simp [same, gains.points, usable.pos]
    · rw [gains.rest i other (fun both => same both.2)]
      simp [same]
  have free : after.free = volume.free.erase b := by
    ext c
    simp only [Volume.free, mem_filter, mem_range, mem_erase]
    by_cases below : c < sb.size
    · rw [gains.marks c (mapped_of_lt below)]
      simp [below]
    · simp [below]
  have isMissing : place ∈ volume.missing i places := by
    simp [Volume.missing, gains.empty, isNeeded]
  have isFree : b ∈ volume.free := by
    simp [Volume.free, inside, unmarked]
  unfold Room at room ⊢
  rw [missing, free, card_erase_of_mem isMissing, card_erase_of_mem isFree]
  exact Nat.sub_le_sub_right room 1

end

/-- Without a free block there is room only for an inode that has the blocks. -/
theorem Room.pointer_ne_zero (room : volume.Room i places)
    (full : ∀ b < sb.size, volume.marked b = true) {place : Place} (isNeeded : place ∈ places) :
    volume.pointer i place ≠ 0 := by
  have none : volume.free = ∅ := by
    apply filter_eq_empty_iff.mpr
    intro b inside
    rw [full b (mem_range.mp inside)]
    exact Bool.noConfusion
  unfold Room at room
  rw [none, card_empty, Nat.le_zero, card_eq_zero] at room
  exact filter_eq_empty_iff.mp room isNeeded

/-- The room depends on the block numbers of the inode and on the bitmap. -/
theorem Room.congr (pointers : ∀ place, after.pointer i place = volume.pointer i place)
    (marks : ∀ b < sb.size, after.marked b = volume.marked b) (room : volume.Room i places) :
    after.Room i places := by
  have missing : after.missing i places = volume.missing i places := by
    unfold Volume.missing
    simp only [pointers]
  have free : after.free = volume.free := by
    apply filter_congr
    intro b inside
    rw [marks b (mem_range.mp inside)]
  unfold Room at room ⊢
  rw [missing, free]
  exact room

def taken (volume : Volume) (b : Nat) : Nat → Block :=
  update (update volume.block (bblock b) (setBit (volume.block (bblock b)) (b % BPB))) b fun _ => 0

theorem taken_self : volume.taken b b = fun _ => 0 :=
  update_self _ _ _

theorem marked_taken (usable : Usable b) {c : Nat} (mapped : Mapped c)
    (same : after.block (bblock c) = volume.taken b (bblock c)) :
    after.marked c = (decide (c = b) || volume.marked c) := by
  unfold marked
  rw [same, taken, update_of_ne (usable.bblock_ne mapped)]
  by_cases sameBlock : bblock c = bblock b
  · have inside : b % BPB < 4096 := Nat.mod_lt _ (by decide)
    rw [sameBlock, update_self, getBit_setBit inside]
    congr 1
    simp only [decide_eq_decide]
    constructor
    · intro sameBit
      exact (bblock_eq_iff sameBit).mp sameBlock
    · rintro rfl
      rfl
  · have differs : c ≠ b := by
      rintro rfl
      exact sameBlock rfl
    rw [update_of_ne sameBlock]
    simp [differs]

section Allocation

variable (owned : volume.Owned) (usable : Usable b)
variable (unmarked : volume.marked b = false)

include owned usable unmarked

theorem Owned.taken_pointer {j : Nat} {place : Place} (filled : volume.pointer j place ≠ 0) :
    volume.taken b (volume.pointer j place) = volume.block (volume.pointer j place) := by
  unfold taken
  rw [update_of_ne (owned.pointer_ne usable unmarked j place), update_of_ne
      (Ne.symm ((owned.range j place filled).bblock_ne usable.2))]

/-- An inode whose addresses stay keeps its pointers when `balloc` takes a
block. -/
theorem Owned.pointer_taken {j : Nat} (ino : (after.ino j).addrs = (volume.ino j).addrs)
    (block : (volume.ino j).addrs (.last 12) ≠ 0 → after.block ((volume.ino j).addrs (.last 12)) =
        volume.taken b ((volume.ino j).addrs (.last 12))) (place : Place) :
    after.pointer j place = volume.pointer j place := by
  cases place with
  | addr index =>
    change (after.ino j).addrs index = _
    rw [ino]
    rfl
  | entry k =>
    simp only [pointer, Dinode.pointer, ino]
    by_cases none : (volume.ino j).addrs (.last 12) = 0
    · rw [if_pos none, if_pos none]
    · have kept := owned.taken_pointer usable unmarked
        (show volume.pointer j (.addr (.last 12)) ≠ 0 from none)
      rw [if_neg none, if_neg none, block none]
      exact congrArg (fun block => ByteBlock.word block k.val) kept

theorem Gains.address (index : Fin 13) (inode : Dinode) (empty : (volume.ino i).addrs index = 0)
    (addrs : inode.addrs = update (volume.ino i).addrs index b)
    (ino : after.ino = update volume.ino i inode) (block : after.block = volume.taken b) :
    Gains i (.addr index) b volume after := by
  have own : after.ino i = inode := by rw [ino, update_self]
  refine ⟨empty, ?_, ?_, ?_, ?_, ?_⟩
  · simp only [pointer, Dinode.pointer, own, addrs, update_self]
  · intro j other differs
    rcases eq_or_ne j i with rfl | same
    · cases other with
      | addr position =>
        have apart : position ≠ index := by
          rintro rfl
          exact differs ⟨rfl, rfl⟩
        simp only [pointer, Dinode.pointer, own, addrs, update_of_ne apart]
      | entry k =>
        simp only [pointer, Dinode.pointer, own, addrs, block]
        rcases eq_or_ne (Fin.last 12) index with rfl | last
        · rw [update_self, if_neg usable.pos, if_pos empty, taken_self]
          exact ByteBlock.word_zero k.val
        · rw [update_of_ne last]
          by_cases none : (volume.ino j).addrs (.last 12) = 0
          · rw [if_pos none, if_pos none]
          · have kept := owned.taken_pointer usable unmarked
              (show volume.pointer j (.addr (.last 12)) ≠ 0 from none)
            rw [if_neg none, if_neg none]
            exact congrArg (fun block => ByteBlock.word block k.val) kept
    · refine owned.pointer_taken usable unmarked ?_ ?_ other
      · rw [ino, update_of_ne same]
      · intro _
        rw [block]
  · intro c mapped
    exact marked_taken usable mapped (congrFun block _)
  · intro j bn other _ filled
    rw [block]
    exact owned.taken_pointer usable unmarked filled
  · rw [block]
    exact taken_self

/-- An inode gets a block in an entry of its indirect block. -/
theorem Gains.indirect {j : Fin 128} {table : Nat}
    (isTable : (volume.ino i).addrs (.last 12) = table) (indirect : table ≠ 0)
    (empty : (volume.block table).word j.val = 0)
    (ino : after.ino = volume.ino)
    (block : after.block = update (volume.taken b) table ((volume.block table).setWord j.val b))
    (small : b < 2 ^ 32) : Gains i (.entry j) b volume after := by
  subst isTable
  have isPointer : volume.pointer i (.addr (.last 12)) = (volume.ino i).addrs (.last 12) := rfl
  have table : Usable ((volume.ino i).addrs (.last 12)) := owned.range i (.addr (.last 12)) indirect
  have isNew := owned.pointer_ne usable unmarked i (.addr (.last 12))
  have content : after.block ((volume.ino i).addrs (.last 12)) =
      (volume.block ((volume.ino i).addrs (.last 12))).setWord j.val b := by
    rw [block, update_self]
  have inside : 4 * j.val + 3 < 512 := by omega
  refine ⟨?_, ?_, ?_, ?_, ?_, ?_⟩
  · simp only [pointer, Dinode.pointer]
    rw [if_neg indirect, empty]
  · simp only [pointer, Dinode.pointer, ino]
    rw [if_neg indirect, content, ByteBlock.word_setWord_same _ inside small]
  · intro k other differs
    rcases eq_or_ne k i with rfl | same
    · cases other with
      | addr position => simp only [pointer, Dinode.pointer, ino]
      | entry l =>
        have apart : l.val ≠ j.val := by
          intro same
          exact differs ⟨rfl, congrArg Place.entry (Fin.ext same)⟩
        simp only [pointer, Dinode.pointer, ino]
        rw [if_neg indirect, if_neg indirect, content, ByteBlock.word_setWord_of_ne _ apart]
    · refine owned.pointer_taken usable unmarked (by rw [ino]) ?_ other
      intro filled
      rw [block, update_of_ne]
      intro sameTable
      exact same (owned.unique k i (.addr (.last 12)) (.addr (.last 12)) filled sameTable).1
  · intro c mapped
    apply marked_taken usable mapped
    rw [block, update_of_ne (table.bblock_ne mapped)]
  · intro k bn other isLeaf filled
    rw [block, update_of_ne]
    · exact owned.taken_pointer usable unmarked filled
    · intro sameTable
      exact (number_of_leaf isLeaf).2 (owned.unique k i other (.addr (.last 12)) filled sameTable).2
  · rw [block, update_of_ne (Ne.symm (isPointer ▸ isNew))]
    exact taken_self

end Allocation

/-! ### New data -/

section Data

variable (owned : volume.Owned) {bn : Nat} {place : Place} {contents : Block}
  (filled : volume.pointer i place ≠ 0) (isLeaf : leaf bn = some place)
  (ino : after.ino = volume.ino)
  (block : after.block = update volume.block (volume.pointer i place) contents)

include owned filled isLeaf ino block

/-- New data in a block of an inode do not change the pointers. -/
theorem Owned.pointer_data (j : Nat) (other : Place) :
    after.pointer j other = volume.pointer j other := by
  cases other with
  | addr position => simp only [pointer, Dinode.pointer, ino]
  | entry k =>
    simp only [pointer, Dinode.pointer, ino, block]
    by_cases none : (volume.ino j).addrs (.last 12) = 0
    · rw [if_pos none, if_pos none]
    · have apart : (volume.ino j).addrs (.last 12) ≠ volume.pointer i place := by
        intro same
        exact (number_of_leaf isLeaf).2
          (owned.unique i j place (.addr (.last 12)) filled same.symm).2
      rw [if_neg none, if_neg none]
      exact congrArg (fun block => ByteBlock.word block k.val) (update_of_ne apart _ _)

theorem Owned.of_data : after.Owned := by
  have pointers := owned.pointer_data filled isLeaf ino block
  have usable := owned.range i place filled
  have marks : ∀ c, Mapped c → after.marked c = volume.marked c := by
    intro c mapped
    unfold Volume.marked
    rw [block, update_of_ne (usable.bblock_ne mapped)]
  exact owned.congr pointers marks

/-- New data in block `bn` of inode `i` change the bytes of this block. -/
theorem Owned.byteAt_data (j off : Nat) : (after.ino j).byteAt after.block off =
      if j = i ∧ off / 512 = bn then blockBytes contents (off % 512) 0
      else (volume.ino j).byteAt volume.block off := by
  have pointers := owned.pointer_data filled isLeaf ino block
  have dataAt : ∀ other, (after.ino j).dataAt after.block other =
      if after.pointer j other = 0 then fun _ => 0
      else after.block (after.pointer j other) := fun _ => rfl
  by_cases same : j = i ∧ off / 512 = bn
  · obtain ⟨rfl, rfl⟩ := same
    unfold Dinode.byteAt
    rw [if_pos ⟨rfl, rfl⟩, isLeaf]
    dsimp only
    rw [dataAt, pointers, if_neg filled, block, update_self]
  · rw [if_neg same]
    unfold Dinode.byteAt
    split
    next other isOther =>
      rw [dataAt, pointers]
      change _ = blockBytes (if volume.pointer j other = 0 then fun _ => 0
        else volume.block (volume.pointer j other)) _ _
      congr 1
      split
      · rfl
      next isFilled =>
        rw [block, update_of_ne]
        intro samePointer
        have equal := owned.unique j i other place isFilled samePointer
        apply same
        refine ⟨equal.1, ?_⟩
        rw [← (number_of_leaf isOther).1, equal.2]
        exact (number_of_leaf isLeaf).1
    next => rfl

end Data

omit sb in
/-- Fields of an inode other than its addresses are changed. -/
theorem pointer_fields {inode : Dinode} (addrs : inode.addrs = (volume.ino i).addrs)
    (ino : after.ino = update volume.ino i inode)
    (block : after.block = volume.block) (j : Nat) (place : Place) :
    after.pointer j place = volume.pointer j place := by
  have own : (after.ino j).addrs = (volume.ino j).addrs := by
    rw [ino]
    by_cases same : j = i
    · rw [same, update_self, addrs]
    · rw [update_of_ne same]
  cases place <;> simp only [pointer, Dinode.pointer, own, block]

end Volume

end FileSystem

end Xv6Kthreads
