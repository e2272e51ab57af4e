import Mathlib.Data.List.FinRange
import Xv6Kthreads.FsFormat
import Xv6Kthreads.KernelState
import Xv6Kthreads.Pipe
import Xv6Kthreads.Sections

/-!
# Blocks, inodes and the inode cache

This file embeds `fs.c` up to `writei`.  The state holds the contents of the
blocks and inodes as the buffer cache and the log show them, the inode cache,
the table of open files and the current directory of each process.  Sections
under `icache.lock`, and the code between them that runs with an inode locked,
are functions on this state; they can panic, and `ilock` can find that it has to
wait.
-/

namespace Xv6Kthreads

namespace FileSystem

open Sections Function Act

def NINODE : Nat := 50

def NFILE : Nat := 100

theorem nfile_pos : 0 < NFILE := by decide

def NOFILE : Nat := 16

abbrev Entry := Fin NINODE

abbrev FileId := Fin NFILE

abbrev Fd := Fin NOFILE

/-- The largest number of bytes that `filewrite` writes in a transaction. -/
def maxChunk : Nat :=
  (BufferCache.logSize - 1 - 1 - 2) / 2 * 512

/-- `struct inode`: `busy` and `valid` are its flags, `copy` is the copy of the
disk inode. -/
structure Inode where
  inum : Nat
  ref : Int
  busy : Bool
  valid : Bool
  copy : Dinode

inductive FdType where
  | none
  | pipe
  | inode
  deriving DecidableEq, Repr

structure File where
  type : FdType
  ref : Int
  writable : Bool
  ip : Option Entry
  off : Nat

/-- A call of `balloc`, for the statements: the block it returned, and whether
a block of the data area was free. -/
structure Allocation where
  block : Nat
  dataFree : Bool
  deriving DecidableEq, Repr

/-- The file system between two sections.  For the statements only, `holders`
counts the threads that have set `I_BUSY` on an entry and not yet cleared it, and
`locked` the locks on all entries, `logged` lists the sectors passed to
`log_write`, and `allocations` the calls of `balloc`. -/
structure Fs where
  dinode : Nat → Dinode
  block : Nat → Block
  inode : Entry → Inode
  holders : Entry → Nat
  locked : Int
  file : FileId → File
  cwd : ProcId → Option Entry
  logged : List Nat
  allocations : List Allocation

/-- The panics of `fs.c` and of `sys_unlink`, and the use of a null pointer. -/
inductive Panic where
  | ballocOutOfBlocks
  | freeingFreeBlock
  | igetNoInodes
  | ilock
  | ilockNoType
  | iunlock
  | iputBusy
  | bmapOutOfRange
  | dirlookupNotDir
  | dirlinkRead
  | dirlink
  | unlinkWritei
  | nullPointer
  deriving DecidableEq, Repr

/-- Why a section does not end: a panic, a condition that it has to wait for,
or a file, inode or pipe to which nothing refers any longer. -/
inductive Stop where
  | panic (message : Panic)
  | sleeps
  | dangling
  deriving DecidableEq, Repr

abbrev Section := Act Fs Stop

abbrev Code := Prog Fs Stop

def panic {α : Type} (message : Panic) : Section α :=
  stop (.panic message)

namespace Fs

variable (fs : Fs)

def setBlock (b : Nat) (data : Block) : Fs :=
  { fs with block := update fs.block b data }

variable (entry : Entry)

def setInode (inode : Inode) : Fs :=
  { fs with inode := update fs.inode entry inode }

def setCopy (copy : Dinode) : Fs :=
  fs.setInode entry { fs.inode entry with copy := copy }

def setBusy : Fs :=
  { fs.setInode entry { fs.inode entry with busy := true } with
    holders := update fs.holders entry (fs.holders entry + 1)
    locked := fs.locked + 1 }

def clearBusy : Fs :=
  { fs.setInode entry { fs.inode entry with busy := false } with
    holders := update fs.holders entry (fs.holders entry - 1)
    locked := fs.locked - 1 }

def setDinode (inum : Nat) (dinode : Dinode) : Fs :=
  { fs with dinode := update fs.dinode inum dinode }

def setFile (f : FileId) (file : File) : Fs :=
  { fs with file := update fs.file f file }

def logWrite (sector : Nat) : Fs :=
  { fs with logged := sector :: fs.logged }

def marked [Superblock] (b : Nat) : Bool :=
  getBit (fs.block (bblock b)) (b % BPB)

end Fs

def bread (b : Nat) : Section Block :=
  read fun fs => fs.block b

def bmodify (b : Nat) (data : Block) : Section Unit :=
  modify fun fs => (fs.setBlock b data).logWrite b

def bzero (b : Nat) : Section Unit :=
  bmodify b fun _ => 0

section Blocks

variable [sb : Superblock]

/-- The block that the loops of `balloc` find: the first one below `sb.size`
whose bit is clear. -/
def firstFree (fs : Fs) : Option Nat :=
  (List.range sb.size).find? fun b => !fs.marked b

def dataFree (fs : Fs) : Bool :=
  (List.range sb.size).any fun b => decide (InData b) && !fs.marked b

def balloc : Section Nat := do
  let free ← read firstFree
  match free with
  | none => panic .ballocOutOfBlocks
  | some b =>
    modify fun fs => { fs with
      allocations := ⟨b, dataFree fs⟩ :: fs.allocations }
    let bits ← bread (bblock b)
    bmodify (bblock b) (setBit bits (b % BPB))
    bzero b
    pure b

def bfree (b : Nat) : Section Unit := do
  let bits ← bread (bblock b)
  if getBit bits (b % BPB) then
    bmodify (bblock b) (clearBit bits (b % BPB))
  else
    panic .freeingFreeBlock

variable (ip : Entry)

def iupdate : Section Unit :=
  modify fun fs =>
    (fs.setDinode (fs.inode ip).inum (fs.inode ip).copy).logWrite (iblock (fs.inode ip).inum)

def setAddr (index : Fin 13) (b : Nat) : Section Unit :=
  modify fun fs => fs.setCopy ip ((fs.inode ip).copy.setAddr index b)

/-- An address in the copy of an inode, allocating the block if there is
none. -/
def bmapAddr (index : Fin 13) : Section Nat := do
  let addr ← read fun fs => (fs.inode ip).copy.addrs index
  if addr = 0 then do
    let b ← balloc
    setAddr ip index b
    pure b
  else
    pure addr

def bmap (bn : Nat) : Section Nat :=
  if direct : bn < 12 then
    bmapAddr ip ⟨bn, lt_addrs direct⟩
  else if bn - 12 < NINDIRECT then do
    let indirect ← bmapAddr ip (.last 12)
    let a ← bread indirect
    let addr := a.word (bn - 12)
    if addr = 0 then do
      let b ← balloc
      bmodify indirect (a.setWord (bn - 12) b)
      pure b
    else
      pure addr
  else
    panic .bmapOutOfRange

def itruncDirect (index : Fin 13) : Section Unit := do
  let addr ← read fun fs => (fs.inode ip).copy.addrs index
  if addr = 0 then
    pure ()
  else do
    bfree addr
    setAddr ip index 0

def itruncEntry (a : Block) (j : Nat) : Section Unit :=
  if a.word j = 0 then pure () else bfree (a.word j)

def itrunc : Section Unit := do
  forEach ((List.finRange 12).map Fin.castSucc) (itruncDirect ip)
  let indirect ← read fun fs => (fs.inode ip).copy.addrs (.last 12)
  if indirect = 0 then
    pure ()
  else do
    let a ← bread indirect
    forEach (List.range NINDIRECT) (itruncEntry a)
    bfree indirect
    setAddr ip (.last 12) 0
  modify fun fs => fs.setCopy ip { (fs.inode ip).copy with size := 0 }
  iupdate ip

/-- The bytes of the current block that one iteration of `readi` or `writei`
transfers. -/
def transferred (off left : Nat) : Nat :=
  min left (BSIZE - off % BSIZE)

/-- The loop of `readi`: `left` bytes from `off` on.  Every iteration transfers
at least one byte, so that `fuel = left` suffices. -/
def readiLoop (ip : Entry) : (fuel : Nat) → (off left : Nat) → Section Bytes
  | 0, _, _ => pure fun _ => 0
  | fuel + 1, off, left =>
    if left = 0 then
      pure fun _ => 0
    else do
      let b ← bmap ip (off / BSIZE)
      let data ← bread b
      let m := transferred off left
      let following ← readiLoop ip fuel (off + m) (left - m)
      pure fun index =>
        if index < m then blockBytes data (off % BSIZE) index
        else following (index - m)

/-- `readi` on an inode that is not a device: the result and the bytes. -/
def readi (off n : Nat) : Section (Int × Bytes) := do
  let size ← read fun fs => (fs.inode ip).copy.size
  match readCount size off n with
  | none => pure (-1, fun _ => 0)
  | some n => do
    let data ← readiLoop ip n off n
    pure (n, data)

/-- The loop of `writei`: `left` bytes of `src` at `off`. -/
def writeiLoop (ip : Entry) : (fuel : Nat) → (src : Bytes) → (off left : Nat) → Section Unit
  | 0, _, _, _ => pure ()
  | fuel + 1, src, off, left =>
    if left = 0 then
      pure ()
    else do
      let b ← bmap ip (off / BSIZE)
      let data ← bread b
      let m := transferred off left
      bmodify b (putBytes data (off % BSIZE) m src)
      writeiLoop ip fuel (fun index => src (index + m)) (off + m) (left - m)

def writei (src : Bytes) (off n : Nat) : Section Int := do
  let size ← read fun fs => (fs.inode ip).copy.size
  if off > size ∨ (off + n) % 2 ^ 32 < off then
    pure (-1)
  else if off + n > MAXFILE * BSIZE then
    pure (-1)
  else do
    writeiLoop ip n src off n
    if n > 0 ∧ off + n > size then do
      modify fun fs => fs.setCopy ip
        { (fs.inode ip).copy with size := off + n }
      iupdate ip
    else
      pure ()
    pure n

end Blocks

def cached (fs : Fs) (inum : Nat) : Option Entry :=
  (List.finRange NINODE).find? fun entry =>
    decide (0 < (fs.inode entry).ref) && decide ((fs.inode entry).inum = inum)

def emptyEntry (fs : Fs) : Option Entry :=
  (List.finRange NINODE).find? fun entry =>
    decide ((fs.inode entry).ref = 0)

/-- `iget`.  There is one device, so the device number is left out. -/
def iget (inum : Nat) : Section Entry := do
  let found ← read fun fs => cached fs inum
  match found with
  | some ip =>
    modify fun fs => fs.setInode ip
      { fs.inode ip with ref := (fs.inode ip).ref + 1 }
    pure ip
  | none => do
    let empty ← read emptyEntry
    match empty with
    | none => panic .igetNoInodes
    | some ip =>
      modify fun fs => fs.setInode ip
        { fs.inode ip with
          inum := inum
          ref := 1
          busy := false
          valid := false }
      pure ip

variable (ip : Entry)

def idup : Section Unit :=
  modify fun fs => fs.setInode ip
    { fs.inode ip with ref := (fs.inode ip).ref + 1 }

def ilockAcquire : Section Unit := do
  let inode ← read fun fs => fs.inode ip
  if inode.ref < 1 then
    panic .ilock
  else if inode.busy then
    stop .sleeps
  else
    modify fun fs => fs.setBusy ip

/-- The rest of `ilock`: read the inode from the disk if necessary. -/
def ilockLoad : Section Unit := do
  let inode ← read fun fs => fs.inode ip
  if inode.valid then
    pure ()
  else do
    modify fun fs => fs.setInode ip
      { fs.inode ip with
        copy := fs.dinode (fs.inode ip).inum
        valid := true }
    let type ← read fun fs => (fs.inode ip).copy.type
    if type = .free then panic .ilockNoType else pure ()

def ilock : Code Unit := do
  Prog.atomic (ilockAcquire ip)
  Prog.atomic (ilockLoad ip)

def iunlock : Section Unit := do
  let inode ← read fun fs => fs.inode ip
  if inode.busy = false ∨ inode.ref < 1 then
    panic .iunlock
  else
    modify fun fs => fs.clearBusy ip

/-- The first section of `iput`: drop the reference, or lock the inode in order
to free it. -/
def iputStart : Section Bool := do
  let inode ← read fun fs => fs.inode ip
  if inode.ref = 1 ∧ inode.valid ∧ inode.copy.nlink = 0 then
    if inode.busy then
      panic .iputBusy
    else do
      modify fun fs => fs.setBusy ip
      pure true
  else do
    modify fun fs => fs.setInode ip
      { fs.inode ip with ref := (fs.inode ip).ref - 1 }
    pure false

def iputFree [Superblock] (ip : Entry) : Section Unit := do
  itrunc ip
  modify fun fs => fs.setCopy ip
    { (fs.inode ip).copy with type := .free }
  iupdate ip

/-- The last section of `iput` after it has freed the inode. -/
def iputEnd : Section Unit :=
  modify fun fs => (fs.clearBusy ip).setInode ip
    { fs.inode ip with
      busy := false
      valid := false
      ref := (fs.inode ip).ref - 1 }

def iput [Superblock] (ip : Entry) : Code Unit := do
  let frees ← Prog.atomic (iputStart ip)
  if frees then do
    Prog.atomic (iputFree ip)
    Prog.atomic (iputEnd ip)
  else
    pure ()

def iunlockput [Superblock] (ip : Entry) : Code Unit := do
  Prog.atomic (iunlock ip)
  iput ip

end FileSystem

end Xv6Kthreads
