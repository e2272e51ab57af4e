import Mathlib.Data.List.GetD
import Xv6Kthreads.Mkfs

/-!
# The layout of an image

While `mkfs` runs, each inode is described by a record: the blocks of its file
in order, its indirect block and its bytes.  An image is laid out as the records
say if the indirect blocks list the blocks, the blocks hold the bytes with zeros
behind them, no block is used twice, and the blocks that have been taken from
the counter are exactly those below it.
-/

namespace Xv6Kthreads

namespace Mkfs

open Sections FileSystem Function List

/-! ### Inodes in their blocks -/

structure DiskInode.Small (din : DiskInode) : Prop where
  type : din.type < 65536
  major : din.major < 65536
  minor : din.minor < 65536
  nlink : din.nlink < 65536
  size : din.size < 4294967296
  addrs : ∀ index, din.addrs index < 4294967296

variable {din : DiskInode}

theorem DiskInode.Small.words (small : din.Small) (index : Nat) : din.words index < 4294967296 := by
  have first := small.type
  have second := small.major
  have third := small.minor
  have fourth := small.nlink
  match index with
  | 0 => exact (by omega : din.type + 65536 * din.major < 4294967296)
  | 1 => exact (by omega : din.minor + 65536 * din.nlink < 4294967296)
  | 2 => exact small.size
  | index + 3 =>
    by_cases inside : index < 13
    · have value : din.words (index + 3) = din.addrs ⟨index, inside⟩ :=
        dif_pos inside
      rw [value]
      exact small.addrs ⟨index, inside⟩
    · have value : din.words (index + 3) = 0 := dif_neg inside
      omega

theorem word_putInode (buf : Block) {slot index : Nat}
    (small : din.Small) (isSlot : slot < 8) (isWord : index < 16) :
    (putInode buf slot din).word (16 * slot + index) = din.words index :=
  buf.word_putWords_inside isWord (by omega) (small.words index)

theorem getInode_putInode_same (buf : Block) {slot : Nat} (small : din.Small) (isSlot : slot < 8) :
    getInode (putInode buf slot din) slot = din := by
  have stored := fun index (isWord : index < 16) =>
    word_putInode buf small isSlot isWord
  have first := stored 0 (by omega)
  rw [Nat.add_zero] at first
  have typeSmall := small.type
  have minorSmall := small.minor
  unfold getInode
  rw [first, stored 1 (by omega), stored 2 (by omega)]
  apply DiskInode.ext
  · exact (by omega : (din.type + 65536 * din.major) % 65536 = din.type)
  · exact (by omega : (din.type + 65536 * din.major) / 65536 = din.major)
  · exact (by omega : (din.minor + 65536 * din.nlink) % 65536 = din.minor)
  · exact (by omega : (din.minor + 65536 * din.nlink) / 65536 = din.nlink)
  · rfl
  · funext index
    have inside := index.isLt
    change (putInode buf slot din).word (16 * slot + (index.val + 3)) = _
    rw [stored (index.val + 3) (by omega)]
    exact dif_pos inside

theorem getInode_putInode_of_ne (buf : Block) {slot other : Nat}
    (din : DiskInode) (differs : other ≠ slot) :
    getInode (putInode buf slot din) other = getInode buf other := by
  have same : ∀ index < 16, (putInode buf slot din).word
      (16 * other + index) = buf.word (16 * other + index) := by
    intro index isWord
    exact buf.word_putWords_outside _ (by omega)
  have first := same 0 (by omega)
  rw [Nat.add_zero] at first
  unfold getInode
  rw [first, same 1 (by omega), same 2 (by omega)]
  congr 1
  funext index
  exact same _ (by omega)

def inodeAt (sector : Nat → Block) (inum : Nat) : DiskInode :=
  getInode (sector (i2b inum)) (inum % IPB)

theorem i2b_bounds {inum : Nat} (small : inum < 208) : 2 ≤ i2b inum ∧ i2b inum < 28 := by
  unfold i2b IPB
  omega

/-! ### Records -/

structure Record where
  type : Nat
  blocks : List Nat
  indirect : Nat
  bytes : List UInt8

variable {record : Record} {b : Nat}

namespace Record

def empty (type : Nat) : Record where
  type := type
  blocks := []
  indirect := 0
  bytes := []

def dinode (record : Record) : DiskInode where
  type := record.type
  major := 0
  minor := 0
  nlink := if record.type = 0 then 0 else 1
  size := record.bytes.length
  addrs := fun index =>
    if index.val < 12 then record.blocks.getD index.val 0
    else record.indirect

def uses (record : Record) : List Nat :=
  if record.indirect = 0 then record.blocks
  else record.indirect :: record.blocks

def addBlock (record : Record) (b : Nat) : Record :=
  { record with blocks := record.blocks ++ [b] }

def setIndirect (record : Record) (b : Nat) : Record :=
  { record with indirect := b }

def append (record : Record) (p : List UInt8) : Record :=
  { record with bytes := record.bytes ++ p }

structure Tight (record : Record) : Prop where
  blocks : record.blocks.length = (record.bytes.length + 511) / 512
  indirect : record.indirect = 0 ↔ record.blocks.length ≤ 12

theorem mem_uses_of_mem_blocks (isBlock : b ∈ record.blocks) : b ∈ record.uses := by
  unfold uses
  split
  · exact isBlock
  · exact mem_cons_of_mem _ isBlock

theorem indirect_mem_uses (some : record.indirect ≠ 0) : record.indirect ∈ record.uses := by
  unfold uses
  rw [if_neg some]
  exact mem_cons_self

theorem mem_uses_iff : b ∈ record.uses ↔
      b ∈ record.blocks ∨ record.indirect ≠ 0 ∧ b = record.indirect := by
  unfold uses
  split
  next none => simp [none]
  next some => simp [some, or_comm]

theorem mem_uses_addBlock {c : Nat} : c ∈ (record.addBlock b).uses ↔ c ∈ record.uses ∨ c = b := by
  rw [mem_uses_iff, mem_uses_iff]
  simp only [addBlock, mem_append, mem_singleton]
  constructor
  · rintro ((isBlock | isNew) | isIndirect)
    · exact .inl (.inl isBlock)
    · exact .inr isNew
    · exact .inl (.inr isIndirect)
  · rintro ((isBlock | isIndirect) | isNew)
    · exact .inl (.inl isBlock)
    · exact .inr isIndirect
    · exact .inl (.inr isNew)

theorem mem_uses_setIndirect {c : Nat} (isMem : c ∈ (record.setIndirect b).uses) :
    c ∈ record.uses ∨ c = b := by
  rw [mem_uses_iff] at isMem ⊢
  rcases isMem with isBlock | ⟨_, isNew⟩
  · exact .inl (.inl isBlock)
  · exact .inr isNew

end Record

structure Stored (sector : Nat → Block) (record : Record) : Prop where
  length : record.blocks.length ≤ 140
  direct : record.indirect = 0 → record.blocks.length ≤ 12
  table : record.indirect ≠ 0 → ∀ j < 128,
    (sector record.indirect).word j = record.blocks.getD (12 + j) 0
  data : ∀ k < record.blocks.length, ∀ pos < 512, (sector (record.blocks.getD k 0)).byte pos =
      (record.bytes.getD (512 * k + pos) 0).toNat
  distinct : record.uses.Nodup

theorem getD_mem {list : List Nat} {k : Nat} (inside : k < list.length) : list.getD k 0 ∈ list := by
  rw [getD_eq_getElem list 0 inside]
  exact list.getElem_mem inside

namespace Stored

variable {sector next : Nat → Block} {record : Record}

theorem empty (type : Nat) : Stored sector (Record.empty type) where
  length := Nat.zero_le _
  direct _ := Nat.zero_le _
  table some := absurd rfl some
  data k inside := absurd inside (Nat.not_lt_zero k)
  distinct := nodup_nil

section

variable (stored : Stored sector record)

include stored

theorem congr (same : ∀ b ∈ record.uses, next b = sector b) : Stored next record where
  __ := stored
  table some j inside := by
    rw [same _ (Record.indirect_mem_uses some)]
    exact stored.table some j inside
  data k inside pos isPos := by
    rw [same _ (Record.mem_uses_of_mem_blocks (getD_mem inside))]
    exact stored.data k inside pos isPos

theorem blocks_nodup :
    record.blocks.Nodup := by
  have distinct := stored.distinct
  unfold Record.uses at distinct
  split at distinct
  · exact distinct
  · exact distinct.of_cons

theorem indirect_notMem (some : record.indirect ≠ 0) : record.indirect ∉ record.blocks := by
  have distinct := stored.distinct
  unfold Record.uses at distinct
  rw [if_neg some] at distinct
  exact (nodup_cons.1 distinct).1

theorem getD_ne {k l : Nat} (first : k < record.blocks.length) (second : l < record.blocks.length)
    (differs : k ≠ l) : record.blocks.getD k 0 ≠ record.blocks.getD l 0 := by
  rw [getD_eq_getElem _ 0 first, getD_eq_getElem _ 0 second]
  intro same
  exact differs (stored.blocks_nodup.getElem_inj_iff.1 same)

theorem addBlock_data (padding : record.bytes.length ≤ 512 * record.blocks.length)
    (isZero : sector b = fun _ => 0) :
    ∀ k < (record.addBlock b).blocks.length, ∀ pos < 512,
      (sector ((record.addBlock b).blocks.getD k 0)).byte pos =
        ((record.addBlock b).bytes.getD (512 * k + pos) 0).toNat := by
  intro k inside pos isPos
  simp only [Record.addBlock, length_append, length_cons, length_nil] at inside ⊢
  by_cases isOld : k < record.blocks.length
  · rw [getD_append _ _ _ _ isOld]
    exact stored.data k isOld pos isPos
  · have isLast : k = record.blocks.length := by omega
    subst isLast
    rw [getD_append_right _ _ _ _ (Nat.le_refl _), Nat.sub_self]
    have isBehind : record.bytes.length ≤ 512 * record.blocks.length + pos := by omega
    rw [getD_eq_default _ _ isBehind]
    change (sector b).byte pos = 0
    rw [isZero]
    unfold ByteBlock.byte
    split <;> rfl

section

variable (isNew : b ∉ record.uses)

include isNew

theorem addBlock_distinct : (record.addBlock b).uses.Nodup := by
  have distinct := stored.distinct
  unfold Record.uses at distinct isNew
  unfold Record.uses Record.addBlock
  split at distinct
  next none =>
    rw [if_pos none] at isNew
    rw [if_pos none]
    exact nodup_append.2 ⟨distinct, nodup_singleton b, fun c isBlock d isLast same => by
        rw [mem_singleton] at isLast
        exact isNew (isLast ▸ same ▸ isBlock)⟩
  next some =>
    rw [if_neg some] at isNew
    rw [if_neg some, ← cons_append]
    exact nodup_append.2 ⟨distinct, nodup_singleton b, fun c isBlock d isLast same => by
        rw [mem_singleton] at isLast
        exact isNew (isLast ▸ same ▸ isBlock)⟩

theorem addDirect (isZero : sector b = fun _ => 0)
    (padding : record.bytes.length ≤ 512 * record.blocks.length)
    (direct : record.blocks.length < 12) (none : record.indirect = 0) :
    Stored sector (record.addBlock b) where
  length := by
    simp only [Record.addBlock, length_append, length_cons, length_nil]
    omega
  direct _ := by
    simp only [Record.addBlock, length_append, length_cons, length_nil]
    omega
  table some := absurd none some
  data := stored.addBlock_data padding isZero
  distinct := stored.addBlock_distinct isNew

theorem addIndirect (nonzero : b ≠ 0) (isZero : sector b = fun _ => 0)
    (direct : record.blocks.length ≤ 12) (none : record.indirect = 0) :
    Stored sector (record.setIndirect b) where
  __ := stored
  direct isNone := absurd isNone nonzero
  table _ j inside := by
    change (sector b).word j = record.blocks.getD (12 + j) 0
    rw [isZero, getD_eq_default _ _ (by omega)]
    exact ByteBlock.word_zero j
  distinct := by
    have distinct := stored.distinct
    unfold Record.uses at distinct isNew
    rw [if_pos none] at distinct isNew
    unfold Record.uses Record.setIndirect
    rw [if_neg nonzero]
    exact nodup_cons.2 ⟨isNew, distinct⟩

theorem addEntry (small : b < 4294967296) (isZero : sector b = fun _ => 0)
    (padding : record.bytes.length ≤ 512 * record.blocks.length) (far : 12 ≤ record.blocks.length)
    (inside : record.blocks.length < 140) (some : record.indirect ≠ 0) :
    Stored (update sector record.indirect
        ((sector record.indirect).setWord (record.blocks.length - 12) b))
      (record.addBlock b) := by
  have differs : b ≠ record.indirect := by
    rintro rfl
    exact isNew (Record.indirect_mem_uses some)
  refine ⟨?_, fun none => absurd none some, ?_, ?_, stored.addBlock_distinct isNew⟩
  · simp only [Record.addBlock, length_append, length_cons, length_nil]
    omega
  · intro _ j isEntry
    simp only [Record.addBlock]
    rw [update_self]
    rcases eq_or_ne j (record.blocks.length - 12) with rfl | isLast
    · have last : 12 + (record.blocks.length - 12) =
          record.blocks.length := by omega
      rw [ByteBlock.word_setWord_same _ (by omega) small, last,
        getD_append_right _ _ _ _ (Nat.le_refl _), Nat.sub_self]
      rfl
    · rw [ByteBlock.word_setWord_of_ne _ isLast, stored.table some j isEntry]
      by_cases isOld : 12 + j < record.blocks.length
      · rw [getD_append _ _ _ _ isOld]
      · have isBehind : (record.blocks ++ [b]).length ≤ 12 + j := by
          simp only [length_append, length_cons, length_nil]
          omega
        rw [getD_eq_default _ _ (by omega), getD_eq_default _ _ isBehind]
  · have data := stored.addBlock_data padding isZero
    intro k isBlock pos isPos
    rw [update_of_ne]
    · exact data k isBlock pos isPos
    · intro same
      have isMem := getD_mem isBlock
      rw [same] at isMem
      simp only [Record.addBlock, mem_append, mem_singleton] at isMem
      rcases isMem with isOld | isLast
      · exact stored.indirect_notMem some isOld
      · exact differs isLast.symm

end

theorem append {k : Nat} {p : List UInt8} (isBlock : k < record.blocks.length)
    (starts : 512 * k ≤ record.bytes.length)
    (ends : record.bytes.length + p.length ≤ 512 * (k + 1)) :
    Stored (update sector (record.blocks.getD k 0) (putBytes (sector (record.blocks.getD k 0))
          (record.bytes.length - 512 * k) p.length (cString p)))
      (record.append p) := by
  refine { stored with table := ?_, data := ?_ }
  · intro some j isEntry
    have differs : record.indirect ≠ record.blocks.getD k 0 := by
      intro same
      apply stored.indirect_notMem some
      rw [same]
      exact getD_mem isBlock
    simp only [Record.append]
    rw [update_of_ne differs]
    exact stored.table some j isEntry
  · intro l isOther pos isPos
    simp only [Record.append] at isOther ⊢
    rcases eq_or_ne l k with rfl | same
    · rw [update_self, byte_putBytes _ _ _ _ isPos]
      by_cases isOld : 512 * l + pos < record.bytes.length
      · rw [if_neg (by omega), getD_append _ _ _ _ isOld]
        exact stored.data l isOther pos isPos
      · rw [getD_append_right _ _ _ _ (by omega)]
        have shift : pos - (record.bytes.length - 512 * l) =
            512 * l + pos - record.bytes.length := by omega
        by_cases within : 512 * l + pos < record.bytes.length + p.length
        · rw [if_pos (by omega), shift]
          rfl
        · rw [if_neg (by omega), stored.data l isOther pos isPos,
            getD_eq_default _ _ (by omega),
            getD_eq_default _ _ (by omega)]
    · rw [update_of_ne (stored.getD_ne isOther isBlock same), stored.data l isOther pos isPos]
      by_cases isOld : 512 * l + pos < record.bytes.length
      · rw [getD_append _ _ _ _ isOld]
      · rw [getD_eq_default _ _ (by omega), getD_append_right _ _ _ _ (by omega),
          getD_eq_default _ _ (by omega)]

end

end Stored

/-! ### Images -/

structure Laid (image : Image) (records : Nat → Record) : Prop where
  sectors : image.sectors = 1024
  used : image.usedblocks = image.freeblock
  start : 29 ≤ image.freeblock
  bound : image.freeblock ≤ 1024
  superblock : image.sector 1 = superblockSector
  stored : ∀ inum, Stored image.sector (records inum)
  range : ∀ inum, ∀ b ∈ (records inum).uses, 29 ≤ b ∧ b < image.freeblock
  disjoint : ∀ i j, i ≠ j → ∀ b ∈ (records i).uses, b ∉ (records j).uses
  zero : ∀ b, image.freeblock ≤ b → b < 1024 → image.sector b = fun _ => 0
  taken : ∀ b, b ∈ image.blocks ↔ 29 ≤ b ∧ b < image.freeblock

variable {image next : Image} {records : Nat → Record} {inum : Nat}

/-- The record of one inode changes, and sectors only in the blocks that it
uses afterwards. -/
theorem Laid.change (laid : Laid image records) (sectors : next.sectors = image.sectors)
    (used : next.usedblocks = next.freeblock)
    (grows : image.freeblock ≤ next.freeblock) (bound : next.freeblock ≤ 1024)
    (taken : ∀ b, b ∈ next.blocks ↔ b ∈ image.blocks ∨ image.freeblock ≤ b ∧ b < next.freeblock)
    (frame : ∀ b, b ∉ record.uses → next.sector b = image.sector b)
    (uses : ∀ b ∈ record.uses, b ∈ (records inum).uses ∨ image.freeblock ≤ b ∧ b < next.freeblock)
    (stored : Stored next.sector record) :
    Laid next (update records inum record) := by
  have range : ∀ b ∈ record.uses, 29 ≤ b ∧ b < next.freeblock := by
    intro b isUsed
    have start := laid.start
    rcases uses b isUsed with isOld | isNew
    · have inRange := laid.range inum b isOld
      omega
    · omega
  have separate : ∀ other, other ≠ inum → ∀ b ∈ (records other).uses, b ∉ record.uses := by
    intro other differs b isOther isUsed
    rcases uses b isUsed with isOld | isNew
    · exact laid.disjoint other inum differs b isOther isOld
    · have inRange := laid.range other b isOther
      omega
  refine ⟨sectors.trans laid.sectors, used, Nat.le_trans laid.start grows,
    bound, ?_, ?_, ?_, ?_, ?_, ?_⟩
  · rw [frame 1, laid.superblock]
    intro isUsed
    have inRange := range 1 isUsed
    omega
  · intro other
    rcases eq_or_ne other inum with rfl | same
    · rw [update_self]
      exact stored
    · rw [update_of_ne same]
      exact (laid.stored other).congr fun b isOther =>
        frame b (separate other same b isOther)
  · intro other
    rcases eq_or_ne other inum with rfl | same
    · rw [update_self]
      exact range
    · rw [update_of_ne same]
      intro b isOther
      have inRange := laid.range other b isOther
      omega
  · intro i j differs b
    rcases eq_or_ne i inum with rfl | first
    · rw [update_self, update_of_ne (Ne.symm differs)]
      intro isUsed isOther
      exact separate j (Ne.symm differs) b isOther isUsed
    · rw [update_of_ne first]
      rcases eq_or_ne j inum with rfl | second
      · rw [update_self]
        exact separate i first b
      · rw [update_of_ne second]
        exact laid.disjoint i j differs b
  · intro b isFree inside
    rw [frame b]
    · exact laid.zero b (by omega) inside
    · intro isUsed
      have inRange := range b isUsed
      omega
  · intro b
    rw [taken, laid.taken]
    have start := laid.start
    omega

theorem Laid.writeLow (laid : Laid image records) {sec : Nat}
    (low : sec < 29) (isOther : sec ≠ 1) (buf : Block) :
    Laid (image.write sec buf) records :=
  { laid with
    sectors := by
      have sectors := laid.sectors
      change max image.sectors (sec + 1) = 1024
      omega
    superblock := by
      change update image.sector sec buf 1 = _
      rw [update_of_ne (Ne.symm isOther)]
      exact laid.superblock
    stored inum := by
      refine (laid.stored inum).congr fun b isUsed => ?_
      have inRange := laid.range inum b isUsed
      exact update_of_ne (by omega) _ _
    zero b isFree inside := by
      have start := laid.start
      have isBehind : image.freeblock ≤ b := isFree
      change update image.sector sec buf b = _
      rw [update_of_ne (by omega)]
      exact laid.zero b isFree inside }

end Mkfs

end Xv6Kthreads
