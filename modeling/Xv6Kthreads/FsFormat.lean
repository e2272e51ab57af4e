import Xv6Kthreads.LogFormat

/-!
# The on-disk format of the file system

The constants and macros of `fs.h`, the bits of the free bitmap and the
sixteen bytes of a directory entry.  The inode blocks are represented by the
inodes that they hold.
-/

namespace Xv6Kthreads

namespace FileSystem

abbrev Block := LogFormat.Block

def BSIZE : Nat := 512

def NDIRECT : Nat := 12

/-- The number of block addresses in an indirect block. -/
def NINDIRECT : Nat := 128

def MAXFILE : Nat := NDIRECT + NINDIRECT

def IPB : Nat := 8

def BPB : Nat := 4096

def DIRSIZ : Nat := 14

def direntSize : Nat := 16

def ROOTINO : Nat := 1

/-- The number of bytes that `readi` copies from a file of `size` bytes, unless
it refuses the offset.  The sum of two words wraps around. -/
def readCount (size off n : Nat) : Option Nat :=
  if off > size ∨ (off + n) % 2 ^ 32 < off then
    none
  else if off + n > size then
    some (size - off)
  else
    some n

section Counting

variable {size off n count : Nat}

theorem readCount_eq (inside : off ≤ size) (small : off + n < 2 ^ 32) :
    readCount size off n = some (min n (size - off)) := by
  rw [readCount, if_neg (by omega)]
  split
  · rw [Nat.min_eq_right (by omega)]
  · rw [Nat.min_eq_left (by omega)]

theorem readCount_eq_none_iff :
    readCount size off n = none ↔ off > size ∨ (off + n) % 2 ^ 32 < off := by
  rw [readCount]
  split
  next refused => exact iff_of_true rfl refused
  next accepted => split <;> exact iff_of_false nofun accepted

theorem readCount_le (isCount : readCount size off n = some count) :
    count ≤ n ∧ off + count ≤ size := by
  rw [readCount] at isCount
  split at isCount
  · cases isCount
  · split at isCount <;> cases isCount <;> omega

end Counting

/-- `struct superblock`, which the kernel reads and never writes. -/
class Superblock where
  size : Nat
  nblocks : Nat
  ninodes : Nat
  nlog : Nat
  size_lt : size < 2 ^ 32

/-- The types of inodes; a free inode has type 0. -/
inductive InodeType where
  | free
  | dir
  | file
  | dev
  deriving DecidableEq, Repr

@[ext]
structure Dinode where
  type : InodeType
  major : Int
  minor : Int
  nlink : Int
  size : Nat
  addrs : Fin 13 → Nat

theorem lt_addrs {bn : Nat} (direct : bn < 12) : bn < 13 := by
  omega

def Dinode.zeroed : Dinode where
  type := .free
  major := 0
  minor := 0
  nlink := 0
  size := 0
  addrs := fun _ => 0

def Dinode.setAddr (inode : Dinode) (index : Fin 13) (b : Nat) : Dinode :=
  { inode with addrs := Function.update inode.addrs index b }

def iblock (inum : Nat) : Nat :=
  inum / IPB + 2

section Layout

variable [sb : Superblock]

def bblock (b : Nat) : Nat :=
  b / BPB + sb.ninodes / IPB + 3

/-- The first block after the bitmap, as `mkfs` lays out the disk. -/
def dataStart : Nat :=
  sb.ninodes / IPB + 3 + (sb.size / BPB + 1)

def logStart : Nat :=
  sb.size - sb.nlog

def InData (b : Nat) : Prop :=
  dataStart ≤ b ∧ b < logStart

instance (b : Nat) : Decidable (InData b) :=
  inferInstanceAs (Decidable (_ ∧ _))

end Layout

section Bits

variable (block : Block)

def getBit (bi : Nat) : Bool :=
  (block.byte (bi / 8)).testBit (bi % 8)

def setBit (bi : Nat) : Block :=
  block.setByte (bi / 8) (block.byte (bi / 8) ||| (1 <<< (bi % 8)))

def clearBit (bi : Nat) : Block :=
  block.setByte (bi / 8) (block.byte (bi / 8) &&& (255 ^^^ (1 <<< (bi % 8))))

theorem testBit_mask (first second : Nat) : (1 <<< (first % 8)).testBit (second % 8) =
      decide (first % 8 = second % 8) := by
  rw [Nat.one_shiftLeft, Nat.testBit_two_pow]

theorem mask_lt (bi : Nat) : 1 <<< (bi % 8) < 2 ^ 8 := by
  rw [Nat.one_shiftLeft]
  exact Nat.pow_lt_pow_right (by omega) (Nat.mod_lt _ (by omega))

variable {block} {bi : Nat}

theorem getBit_setBit (inside : bi < 4096) (other : Nat) : getBit (setBit block bi) other =
      (decide (other = bi) || getBit block other) := by
  unfold getBit setBit
  by_cases sameByte : other / 8 = bi / 8
  · have small : block.byte (bi / 8) ||| 1 <<< (bi % 8) < 256 :=
      Nat.or_lt_two_pow (n := 8) (block.byte_lt _) (mask_lt bi)
    rw [sameByte, block.byte_setByte_same (by omega), Nat.mod_eq_of_lt small,
      Nat.testBit_or, testBit_mask, Bool.or_comm]
    congr 1
    simp only [decide_eq_decide]
    omega
  · have differs : other ≠ bi := by
      rintro rfl
      exact sameByte rfl
    rw [block.byte_setByte_of_ne sameByte]
    simp [differs]

end Bits

abbrev Bytes := Nat → UInt8

def cString (characters : List UInt8) : Bytes :=
  fun index => characters.getD index 0

def strncmp (p q : Bytes) : Nat → Int
  | 0 => 0
  | n + 1 =>
    if p 0 ≠ 0 ∧ p 0 = q 0 then
      strncmp (fun index => p (index + 1)) (fun index => q (index + 1)) n
    else
      (p 0).toNat - (q 0).toNat

/-- The bytes that `strncpy` stores: those of the string up to its end, and
zeros. -/
def strncpy (t : Bytes) : Bytes :=
  fun index => if (List.range index).all (t · ≠ 0) then t index else 0

/-- The characters of a string up to its end, and at most `n`. -/
def chars : (n : Nat) → Bytes → List UInt8
  | 0, _ => []
  | n + 1, p => if p 0 = 0 then [] else p 0 :: chars n fun index => p (index + 1)

theorem strncmp_eq_zero_iff (p q : Bytes) (n : Nat) :
    strncmp p q n = 0 ↔ chars n p = chars n q := by
  induction n generalizing p q with
  | zero => simp [strncmp, chars]
  | succ n ih =>
    rw [strncmp, chars, chars]
    by_cases same : p 0 = q 0
    · rw [same]
      by_cases isEnd : q 0 = 0
      · simp [isEnd]
      · simp [isEnd, ih]
    · have differs : (p 0).toNat ≠ (q 0).toNat :=
        fun equal => same (UInt8.toNat_inj.1 equal)
      rw [if_neg fun both => same both.2]
      refine iff_of_false (by omega) ?_
      split
      next isEnd =>
        rw [if_neg fun alsoEnd => same (isEnd.trans alsoEnd.symm)]
        nofun
      next =>
        split
        next => nofun
        next => simp [same]

theorem chars_congr {n : Nat} {p q : Bytes}
    (same : ∀ index < n, (∀ j < index, p j ≠ 0) → q index = p index) :
    chars n q = chars n p := by
  induction n generalizing p q with
  | zero => rfl
  | succ n ih =>
    rw [chars, chars, same 0 (by omega) (fun _ below => absurd below (by omega))]
    split
    next => rfl
    next notEnd =>
      congr 1
      apply ih
      intro index inside nonzero
      apply same (index + 1) (by omega)
      intro j below
      cases j with
      | zero => exact notEnd
      | succ j => exact nonzero j (by omega)

theorem chars_strncpy (n : Nat) (p : Bytes) : chars n (strncpy p) = chars n p := by
  apply chars_congr
  intro index _ nonzero
  rw [strncpy, if_pos (by simpa using nonzero)]

theorem chars_cString (n : Nat) {name : List UInt8} (isString : 0 ∉ name) :
    chars n (cString name) = name.take n := by
  induction n generalizing name with
  | zero => rfl
  | succ n ih =>
    cases name with
    | nil => rfl
    | cons first rest =>
      rw [List.mem_cons, not_or] at isString
      rw [chars, if_neg fun isEnd => isString.1 isEnd.symm, List.take_succ_cons, ← ih isString.2]
      rfl

def putBytes (block : Block) (start m : Nat) (src : Bytes) : Block :=
  fun index =>
    if start ≤ index.val ∧ index.val < start + m then src (index.val - start)
    else block index

theorem byte_putBytes (block : Block) (start m : Nat) (src : Bytes)
    {index : Nat} (inside : index < 512) :
    (putBytes block start m src).byte index =
      if start ≤ index ∧ index < start + m then (src (index - start)).toNat
      else block.byte index := by
  unfold ByteBlock.byte putBytes
  rw [dif_pos inside, dif_pos inside]
  split
  · rfl
  · rfl

def blockBytes (block : Block) (start : Nat) : Bytes :=
  fun index => UInt8.ofNat (block.byte (start + index))

def direntInum (de : Bytes) : Nat :=
  (de 0).toNat + 256 * (de 1).toNat

def direntName (de : Bytes) : Bytes :=
  fun index => de (index + 2)

def mkDirent (inum : Nat) (name : Bytes) : Bytes :=
  fun index =>
    if index = 0 then UInt8.ofNat inum
    else if index = 1 then UInt8.ofNat (inum / 256)
    else strncpy name (index - 2)

def namecmp (s t : Bytes) : Int :=
  strncmp s t DIRSIZ

end FileSystem

end Xv6Kthreads
