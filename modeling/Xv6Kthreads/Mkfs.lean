import Xv6Kthreads.FsPaths

/-!
# The program that makes the disk

`mkfs.c`: it writes the image of an empty disk and appends the files that it is
given one after the other, keeping the next free block and the next free inode
in counters.  The image is a file of the host; reading a sector behind its end
fails.  What the host returns for an input file is part of the input: whether
the file can be opened, and the chunks that its reads return.
-/

namespace Xv6Kthreads

namespace Mkfs

open Sections FileSystem Act

def nlog : Nat := 30

def nblocks : Nat := 995 - nlog

def ninodes : Nat := 200

def size : Nat := 1024

def bitblocks : Nat := size / (512 * 8) + 1

def reserved : Nat := ninodes / IPB + 3 + bitblocks

def typeDir : Nat := 1

def typeFile : Nat := 2

@[ext]
structure DiskInode where
  type : Nat
  major : Nat
  minor : Nat
  nlink : Nat
  size : Nat
  addrs : Fin 13 → Nat

namespace DiskInode

/-- An inode of the given type with one link, as `ialloc` makes it. -/
def fresh (type : Nat) : DiskInode where
  type := type % 65536
  major := 0
  minor := 0
  nlink := 1
  size := 0
  addrs := fun _ => 0

def setAddr (din : DiskInode) (index : Fin 13) (b : Nat) : DiskInode :=
  { din with addrs := Function.update din.addrs index b }

def setSize (din : DiskInode) (size : Nat) : DiskInode :=
  { din with size := size }

def words (din : DiskInode) : Nat → Nat
  | 0 => din.type + 65536 * din.major
  | 1 => din.minor + 65536 * din.nlink
  | 2 => din.size
  | index + 3 => if inside : index < 13 then din.addrs ⟨index, inside⟩ else 0

end DiskInode

def getInode (buf : Block) (slot : Nat) : DiskInode where
  type := buf.word (16 * slot) % 65536
  major := buf.word (16 * slot) / 65536
  minor := buf.word (16 * slot + 1) % 65536
  nlink := buf.word (16 * slot + 1) / 65536
  size := buf.word (16 * slot + 2)
  addrs := fun index => buf.word (16 * slot + (index.val + 3))

def putInode (buf : Block) (slot : Nat) (din : DiskInode) : Block :=
  buf.putWords (16 * slot) 16 din.words

/-- The image and the counters of `mkfs`.  For the statements only, `blocks` and
`inodes` list the numbers that have been taken from the counters. -/
structure Image where
  sector : Nat → Block
  sectors : Nat
  freeblock : Nat
  usedblocks : Nat
  freeinode : Nat
  blocks : List Nat
  inodes : List Nat

/-- The image after it has been opened with `O_TRUNC`. -/
def Image.truncated : Image where
  sector := fun _ _ => 0
  sectors := 0
  freeblock := reserved
  usedblocks := reserved
  freeinode := 1
  blocks := []
  inodes := []

def Image.write (image : Image) (sec : Nat) (buf : Block) : Image :=
  { image with
    sector := Function.update image.sector sec buf
    sectors := max image.sectors (sec + 1) }

def Image.takeBlock (image : Image) : Image :=
  { image with
    freeblock := (image.freeblock + 1) % 2 ^ 32
    usedblocks := (image.usedblocks + 1) % 2 ^ 32
    blocks := image.freeblock :: image.blocks }

def Image.takeInode (image : Image) : Image :=
  { image with
    freeinode := (image.freeinode + 1) % 2 ^ 32
    inodes := image.freeinode :: image.inodes }

/-- How `mkfs` ends early: with status 1, or in a failed assertion. -/
inductive Exit where
  | failure
  | assertion
  deriving DecidableEq, Repr

abbrev Action := Act Image Exit

def assert (condition : Bool) : Action Unit :=
  if condition then pure () else stop .assertion

def wsect (sec : Nat) (buf : Block) : Action Unit :=
  modify fun image => image.write sec buf

def rsect (sec : Nat) : Action Block := do
  let sectors ← read Image.sectors
  if sec < sectors then
    read fun image => image.sector sec
  else
    stop .failure

variable (inum : Nat)

def i2b : Nat :=
  inum / IPB + 2

def winode (ip : DiskInode) : Action Unit := do
  let buf ← rsect (i2b inum)
  wsect (i2b inum) (putInode buf (inum % IPB) ip)

def rinode : Action DiskInode := do
  let buf ← rsect (i2b inum)
  pure (getInode buf (inum % IPB))

def ialloc (type : Nat) : Action Nat := do
  let inum ← read Image.freeinode
  modify Image.takeInode
  winode inum (DiskInode.fresh type)
  pure inum

def bitmap (used : Nat) : Block :=
  (List.range used).foldl setBit fun _ => 0

def asInt (value : Nat) : Int :=
  if value < 2 ^ 31 then value else value - 2 ^ 32

def balloc (used : Int) : Action Unit := do
  assert (decide (used < 512 * 8))
  wsect (ninodes / IPB + 3) (bitmap used.toNat)

def newBlock : Action Nat := do
  let b ← read Image.freeblock
  modify Image.takeBlock
  pure b

def fillAddr (din : DiskInode) (index : Fin 13) : Action DiskInode :=
  if din.addrs index = 0 then do
    let b ← newBlock
    pure (din.setAddr index b)
  else
    pure din

/-- The part of the loop of `iappend` that finds the sector `x` of block `fbn`
of the file: it is returned with the inode. -/
def blockFor (din : DiskInode) (fbn : Nat) : Action (Nat × DiskInode) :=
  if direct : fbn < 12 then do
    let din ← fillAddr din ⟨fbn, lt_addrs direct⟩
    pure (din.addrs ⟨fbn, lt_addrs direct⟩, din)
  else do
    let din ← fillAddr din (.last 12)
    let indirect ← rsect (din.addrs (.last 12))
    if indirect.word (fbn - NDIRECT) = 0 then do
      let b ← newBlock
      wsect (din.addrs (.last 12)) (indirect.setWord (fbn - NDIRECT) b)
      pure (b, din)
    else
      pure (indirect.word (fbn - NDIRECT), din)

/-- The loop of `iappend`: the inode and the offset at its end.  Every iteration
appends at least one byte, so that `fuel = p.length` suffices. -/
def iappendLoop : (fuel : Nat) → DiskInode → (off : Nat) → (p : List UInt8) →
      Action (DiskInode × Nat)
  | 0, din, off, _ => pure (din, off)
  | fuel + 1, din, off, p =>
    if p.isEmpty then
      pure (din, off)
    else do
      let fbn := off / 512
      assert (decide (fbn < MAXFILE))
      let (x, din) ← blockFor din fbn
      let n1 := min p.length ((fbn + 1) * 512 - off)
      let buf ← rsect x
      wsect x (putBytes buf (off - fbn * 512) n1 (cString p))
      iappendLoop fuel din (off + n1) (p.drop n1)

def iappend (p : List UInt8) : Action Unit := do
  let din ← rinode inum
  let (din, off) ← iappendLoop p.length din din.size p
  winode inum (din.setSize off)

/-- What one `read` into the buffer returns. -/
abbrev Chunk := { bytes : List UInt8 // 0 < bytes.length ∧ bytes.length ≤ 512 }

/-- An input file: the argument, a string without a NUL, and what the reads
return if the file can be opened. -/
structure HostFile where
  name : List UInt8
  reads : Option (List Chunk)
  isString : 0 ∉ name

def skipUnderscore : List UInt8 → List UInt8
  | [] => []
  | first :: rest => if first = 95 then rest else first :: rest

def dirent (name : List UInt8) : List UInt8 :=
  (List.range direntSize).map (mkDirent inum (cString name))

/-- The body of the loop of `main` over the input files. -/
def addFile (rootino : Nat) (file : HostFile) : Action Unit := do
  assert (decide (slash ∉ file.name))
  match file.reads with
  | none => stop .failure
  | some chunks => do
    let inum ← ialloc typeFile
    iappend rootino (dirent inum (skipUnderscore file.name))
    forEach chunks fun chunk => iappend inum chunk.val

def superblockSector : Block :=
  ByteBlock.putWords (fun _ => 0) 0 4 fun index =>
    [size, nblocks, ninodes, nlog].getD index 0

def makeRoot : Action Nat := do
  let usedblocks ← read Image.usedblocks
  assert (decide (nblocks + usedblocks + nlog = size))
  forEach (List.range (nblocks + usedblocks + nlog)) fun i =>
    wsect i fun _ => 0
  wsect 1 superblockSector
  let rootino ← ialloc typeDir
  assert (decide (rootino = ROOTINO))
  iappend rootino (dirent rootino [dot])
  iappend rootino (dirent rootino [dot, dot])
  pure rootino

/-- The part of `main` that rounds the size of the root directory up. -/
def fixRoot (rootino : Nat) : Action Unit := do
  let din ← rinode rootino
  let off := din.size
  winode rootino (din.setSize ((off / BSIZE + 1) * BSIZE % 2 ^ 32))

def main (files : List HostFile) : Action Unit := do
  let rootino ← makeRoot
  forEach files (addFile rootino)
  fixRoot rootino
  let usedblocks ← read Image.usedblocks
  balloc (asInt usedblocks)

end Mkfs

end Xv6Kthreads
