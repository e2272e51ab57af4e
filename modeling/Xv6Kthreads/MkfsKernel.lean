import Xv6Kthreads.FsTransfer
import Xv6Kthreads.MkfsMain

/-!
# The kernel reads the image

What the kernel finds on an image that `mkfs` has made: the superblock, the
entries of the root directory, the bytes of the files, and blocks for everything
below the size of an inode, with one exception.  The size of the root directory
is rounded up by a whole block when its entries fill their last block.
-/

namespace Xv6Kthreads

namespace Mkfs

open Sections FileSystem Option List

/-! ### The image as the kernel sees it -/

def shortValue (value : Nat) : Int :=
  if value < 32768 then value else value - 65536

/-- The type of an inode; these four numbers are the only ones ever stored. -/
def inodeTypeOf : Nat → InodeType
  | 1 => .dir
  | 2 => .file
  | 3 => .dev
  | _ => .free

def DiskInode.kernel (din : DiskInode) : Dinode where
  type := inodeTypeOf din.type
  major := shortValue din.major
  minor := shortValue din.minor
  nlink := shortValue din.nlink
  size := din.size
  addrs := din.addrs

@[reducible]
def readsb (block : Block) : Superblock where
  size := block.word 0
  nblocks := block.word 1
  ninodes := block.word 2
  nlog := block.word 3
  size_lt := block.word_lt 0

structure Shows (fs : Fs) (sector : Nat → Block) : Prop where
  block : fs.block = sector
  dinode : ∀ inum < ninodes, fs.dinode inum = (inodeAt sector inum).kernel

/-- The cache entry holds the inode with the given number. -/
def Loads (fs : Fs) (entry : Entry) (inum : Nat) : Prop :=
  (fs.inode entry).copy = fs.dinode inum

variable {image : Image} {records : Nat → Record} {inum : Nat}
variable {files : List HostFile}

/-! ### Blocks and bytes -/

section Records

variable {inode : Dinode} (laid : Laid image records)
  (addrs : inode.addrs = (records inum).dinode.addrs)

include laid addrs

theorem Laid.pointer_eq {bn : Nat} (inside : bn < (records inum).blocks.length) :
    ∃ place, leaf bn = some place ∧ inode.pointer image.sector place =
      (records inum).blocks.getD bn 0 := by
  have stored := laid.stored inum
  by_cases direct : bn < 12
  · refine ⟨_, leaf_direct direct, ?_⟩
    change inode.addrs ⟨bn, _⟩ = _
    rw [addrs, addrs_direct direct]
  · have length := stored.length
    refine ⟨_, leaf_indirect direct (by omega), ?_⟩
    have some : (records inum).indirect ≠ 0 := by
      intro none
      have short := stored.direct none
      omega
    have table : inode.addrs (.last 12) = (records inum).indirect := by
      rw [addrs, addrs_indirect]
    have index : 12 + (bn - 12) = bn := by omega
    simp only [Dinode.pointer, table]
    rw [if_neg some, stored.table some _ (by omega), index]

theorem Laid.has {bn : Nat} (inside : bn < (records inum).blocks.length) :
    inode.Has image.sector bn := by
  obtain ⟨place, isLeaf, value⟩ := laid.pointer_eq addrs inside
  have bounds := laid.getD_bounds inum inside
  exact ⟨place, isLeaf, by omega⟩

theorem Laid.byteAt_eq {off : Nat} (inside : off / 512 < (records inum).blocks.length) :
    inode.byteAt image.sector off = (records inum).bytes.getD off 0 := by
  obtain ⟨place, isLeaf, value⟩ := laid.pointer_eq addrs inside
  have whole : 512 * (off / 512) + off % 512 = off := Nat.div_add_mod off 512
  have data := (laid.stored inum).data (off / 512) inside (off % 512) (Nat.mod_lt _ (by decide))
  have bounds := laid.getD_bounds inum inside
  unfold Dinode.byteAt Dinode.dataAt blockBytes
  rw [isLeaf]
  dsimp only
  rw [value, if_neg (by omega), Nat.add_zero, data, whole, UInt8.ofNat_toNat]

end Records

section

variable {fs : Fs} (made : Made image records files) (seen : Shows fs image.sector)
variable (isInode : inum < ninodes)

include made seen isInode

theorem Made.dinode_eq (differs : inum ≠ ROOTINO) :
    fs.dinode inum = (records inum).dinode.kernel := by
  have many : ninodes = 200 := rfl
  rw [seen.dinode inum isInode, made.onDisk inum (by omega) differs]

theorem Made.readi_eq [sb : Superblock] {ip : Entry} (differs : inum ≠ ROOTINO)
    (loads : Loads fs ip inum) {off n : Nat}
    (inside : off ≤ (records inum).bytes.length) (small : off + n < 2 ^ 32) :
    ∃ data, readi ip off n fs =
        .done (((min n ((records inum).bytes.length - off) : Nat) : Int), data) fs ∧
      ∀ index < min n ((records inum).bytes.length - off),
        data index = (records inum).bytes.getD (off + index) 0 := by
  have blocks := (made.tight inum).blocks
  have copy := made.dinode_eq seen isInode differs
  unfold Loads at loads
  rw [copy] at loads
  have addrs : (fs.inode ip).copy.addrs = (records inum).dinode.addrs := by
    rw [loads]
    rfl
  have size : (fs.inode ip).copy.size = (records inum).bytes.length := by
    rw [loads]
    rfl
  obtain ⟨data, result, agrees⟩ := @FileSystem.readi_eq sb fs ip off n
    (by omega) small fun bn _ below => by
      rw [seen.block]
      exact made.laid.has addrs (by omega)
  rw [size] at result agrees
  refine ⟨data, result, fun index within => ?_⟩
  rw [agrees index within, seen.block]
  exact made.laid.byteAt_eq addrs (by omega)

/-! ### No holes -/

/-- The size of the root directory is covered by its blocks unless its entries
fill their last block. -/
theorem Made.noHoles (partly : (files.length + 2) % 32 ≠ 0) :
    (fs.dinode inum).NoHoles fs.block := by
  have blocks := (made.tight inum).blocks
  rw [seen.block]
  intro bn below
  rcases eq_or_ne inum ROOTINO with rfl | isRoot
  · rw [seen.dinode _ isInode, made.rootInode] at below ⊢
    have covered : bn * 512 < (16 * (files.length + 2) / 512 + 1) * 512 := below
    rw [made.rootBytes, length_rootBytes] at blocks
    exact made.laid.has rfl (by omega)
  · rw [made.dinode_eq seen isInode isRoot] at below ⊢
    have covered : bn * 512 < (records inum).bytes.length := below
    exact made.laid.has rfl (by omega)

end

/-- The root directory has no block behind its entries. -/
theorem Made.root_addrs {fs : Fs} (made : Made image records files)
    (seen : Shows fs image.sector) {bn : Nat} (direct : bn < 12)
    (behind : 16 * (files.length + 2) ≤ bn * 512) :
    (fs.dinode ROOTINO).addrs ⟨bn, lt_addrs direct⟩ = 0 := by
  have blocks := (made.tight ROOTINO).blocks
  rw [made.rootBytes, length_rootBytes] at blocks
  rw [seen.dinode ROOTINO (by decide), made.rootInode]
  change (records ROOTINO).dinode.addrs ⟨bn, _⟩ = 0
  rw [addrs_direct direct, getD_eq_default _ _ (by omega)]

/-- If the entries fill whole blocks, the root directory has a hole at its end. -/
theorem Made.not_noHoles {fs : Fs} (made : Made image records files)
    (seen : Shows fs image.sector) (few : files.length + 2 ≤ ninodes)
    (whole : (files.length + 2) % 32 = 0) : ¬ (fs.dinode ROOTINO).NoHoles fs.block := by
  have many : ninodes = 200 := rfl
  have size : (fs.dinode ROOTINO).size = (16 * (files.length + 2) / 512 + 1) * 512 := by
    rw [seen.dinode ROOTINO (by decide), made.rootInode]
    rfl
  have direct : (files.length + 2) / 32 < 12 := by omega
  intro noHoles
  obtain ⟨place, isLeaf, nonzero⟩ := noHoles ((files.length + 2) / 32) (by omega)
  rw [leaf_direct direct, some.injEq] at isLeaf
  subst isLeaf
  exact nonzero (made.root_addrs seen direct (by omega))

def kernelState (sector : Nat → Block) : Fs where
  dinode := fun inum => (inodeAt sector inum).kernel
  block := sector
  inode := fun entry =>
    { inum := entry.val
      ref := 1
      busy := true
      valid := true
      copy := (inodeAt sector entry.val).kernel }
  holders := fun _ => 1
  locked := 50
  file := fun _ => ⟨.none, 0, false, none, 0⟩
  cwd := fun _ => none
  logged := []
  allocations := []

theorem shows_kernelState (sector : Nat → Block) : Shows (kernelState sector) sector :=
  ⟨rfl, fun _ _ => rfl⟩

/-- If the files fit, no inode of the image has a hole, and the kernel reads all
of them without a change, if and only if the entries of the root directory do not
fill whole blocks. -/
theorem no_holes_iff {final : Image} (few : files.length + 2 ≤ ninodes)
    (room : total files ≤ nblocks) (exits : main files Image.truncated = .done () final) :
    (∀ fs inum, Shows fs final.sector → inum < ninodes →
      (fs.dinode inum).NoHoles fs.block ∧ ∀ ip, Loads fs ip inum → ∀ off n, ∃ result,
        @readi (readsb (fs.block 1)) ip off n fs = .done result fs) ↔
    (files.length + 2) % 32 ≠ 0 := by
  obtain ⟨records, made⟩ := made_of_exits few room exits
  constructor
  · intro all whole
    have seen := shows_kernelState final.sector
    exact made.not_noHoles seen few whole (all _ ROOTINO seen (by decide)).1
  · intro partly fs inum seen isInode
    have noHoles := made.noHoles seen isInode partly
    refine ⟨noHoles, fun ip loads off n => ?_⟩
    rw [← loads] at noHoles
    exact @readi_unchanged (readsb (fs.block 1)) fs ip noHoles off n

theorem no_holes_twoFiles : ∃ final, main (replicate 2 (zerosFile 13)) Image.truncated =
        .done () final ∧
      ((kernelState final.sector).dinode ROOTINO).NoHoles (kernelState final.sector).block := by
  have needs : total (replicate 2 (zerosFile 13)) = 29 := by
    rw [total_replicate]
    decide
  obtain ⟨final, _, exits, _⟩ := @replicate_ends 2 13 (by decide)
    (by omega) (by decide)
  have all := (no_holes_iff (by decide) (by rw [needs]; decide) exits).mpr (by decide)
  exact ⟨final, exits, (all _ ROOTINO (shows_kernelState final.sector) (by decide)).1⟩

/-- The kernel reads the superblock that `mkfs` has written. -/
theorem Laid.readsb_eq (laid : Laid image records) : (readsb (image.sector 1)).size = size ∧
      (readsb (image.sector 1)).nblocks = nblocks ∧
      (readsb (image.sector 1)).ninodes = ninodes ∧
      (readsb (image.sector 1)).nlog = nlog := by
  have word : ∀ k < 4, (image.sector 1).word (0 + k) = [size, nblocks, ninodes, nlog].getD k 0 := by
    intro k inside
    rw [laid.superblock]
    apply ByteBlock.word_putWords_inside _ inside (by omega)
    have small : ∀ k < 4, [size, nblocks, ninodes, nlog].getD k 0 <
        4294967296 := by decide
    exact small k inside
  exact ⟨word 0 (by omega), word 1 (by omega), word 2 (by omega), word 3 (by omega)⟩

theorem Made.marked_eq (made : Made image records files) {fs : Fs}
    (seen : Shows fs image.sector) {b : Nat} (inside : b < 4096) :
    @Fs.marked fs (readsb (image.sector 1)) b = decide (b < image.freeblock) := by
  obtain ⟨_, _, inodes, _⟩ := made.laid.readsb_eq
  have bitmap : @bblock (readsb (image.sector 1)) b = 28 := by
    have quotient : b / 4096 = 0 := by omega
    unfold bblock BPB
    rw [inodes, quotient]
    decide
  unfold Fs.marked BPB
  rw [bitmap, seen.block, made.bits, Nat.mod_eq_of_lt inside]

/-- The entries of the root directory fill one block when there are thirty
files, and its size is rounded up to two blocks. -/
theorem root_has_hole : ∃ final, main (replicate 30 (zerosFile 0)) Image.truncated =
        .done () final ∧
      ∀ fs dp, Shows fs final.sector → Loads fs dp ROOTINO →
        ¬ (fs.dinode ROOTINO).NoHoles fs.block ∧
          ∃ result after, @readi (readsb (fs.block 1)) dp 512 16 fs =
            .done result after ∧ after.logged ≠ fs.logged := by
  have needs : total (replicate 30 (zerosFile 0)) = 1 := by
    decide
  obtain ⟨final, records, exits, made⟩ := @replicate_ends 30 0 (by decide)
    (by omega) (by decide)
  refine ⟨final, exits, fun fs dp seen loads => ?_⟩
  have root := seen.dinode ROOTINO (by decide)
  rw [made.rootInode, length_replicate] at root
  have size : (fs.dinode ROOTINO).size = 1024 := by
    rw [root]
    rfl
  have hole := made.root_addrs seen (show 1 < 12 by decide) (by decide)
  have freeblock := made.freeblock
  rw [← loads] at size hole
  constructor
  · exact made.not_noHoles seen (by decide) (by decide)
  · obtain ⟨sbSize, _⟩ := made.laid.readsb_eq
    rw [seen.block]
    have free : ∃ b, @firstFree (readsb (final.sector 1)) fs = some b := by
      apply isSome_iff_exists.1
      unfold firstFree
      rw [find?_isSome, sbSize]
      refine ⟨30, mem_range.2 (by decide), ?_⟩
      rw [made.marked_eq seen (by decide), freeblock, needs]
      decide
    obtain ⟨b, isFree⟩ := free
    obtain ⟨result, after, reads, logged⟩ :=
      @readi_hole (readsb (final.sector 1)) fs dp size hole b isFree
    refine ⟨result, after, reads, ?_⟩
    intro same
    have lengths := congrArg length (logged.symm.trans same)
    simp only [length_cons] at lengths
    omega

/-! ### Names -/

variable {name : List UInt8}

theorem strncpy_cString (isString : 0 ∉ name) (index : Nat) :
    strncpy (cString name) index = cString name index := by
  unfold strncpy
  split
  · rfl
  next someNul =>
    by_cases inside : index < name.length
    · apply absurd _ someNul
      rw [List.all_eq_true]
      intro earlier isEarlier
      rw [mem_range] at isEarlier
      apply decide_eq_true
      unfold cString
      rw [getD_eq_getElem _ _ (by omega)]
      intro isNul
      exact isString (isNul ▸ getElem_mem _)
    · unfold cString
      rw [getD_eq_default _ _ (by omega)]

def HostFile.key (file : HostFile) : List UInt8 :=
  (skipUnderscore file.name).take DIRSIZ

theorem HostFile.key_string (file : HostFile) : 0 ∉ skipUnderscore file.name := by
  have isString := file.isString
  unfold skipUnderscore
  split
  · exact not_mem_nil
  next first rest name =>
    rw [name] at isString
    split
    · exact fun isMem => isString (mem_cons_of_mem _ isMem)
    · exact isString

/-! ### The entries of the root directory -/

def entryAt (files : List HostFile) : Nat → Option (Nat × List UInt8)
  | 0 => some (ROOTINO, [dot])
  | 1 => some (ROOTINO, [dot, dot])
  | k + 2 => files[k]?.map fun file => (k + 2, skipUnderscore file.name)

theorem getD_dirent {index : Nat} (inside : index < 16) :
    (dirent inum name).getD index 0 = mkDirent inum (cString name) index := by
  unfold dirent direntSize
  rw [getD_eq_getElem, getElem_map, getElem_range]
  exact inside

theorem getD_fileEntries {k index : Nat} {file : HostFile}
    (isFile : files[k]? = some file) (inside : index < 16) :
    (fileEntries inum files).getD (16 * k + index) 0 =
      mkDirent (inum + k) (cString (skipUnderscore file.name)) index := by
  induction files generalizing inum k with
  | nil => exact absurd isFile (by simp)
  | cons first rest ih =>
    rw [fileEntries]
    cases k with
    | zero =>
      rw [getElem?_cons_zero, some.injEq] at isFile
      rw [getD_append _ _ _ _ (by rw [length_dirent]; omega), isFile,
        Nat.mul_zero, Nat.zero_add, Nat.add_zero]
      exact getD_dirent inside
    | succ k =>
      have shift : 16 * (k + 1) + index - 16 = 16 * k + index := by omega
      rw [getD_append_right _ _ _ _ (by rw [length_dirent]; omega),
        length_dirent, shift, ih isFile]
      congr 1
      omega

theorem getD_rootBytes {k index : Nat}
    (isEntry : entryAt files k = some (inum, name)) (inside : index < 16) :
    (rootBytes files).getD (16 * k + index) 0 = mkDirent inum (cString name) index := by
  unfold rootBytes
  match k with
  | 0 =>
    cases isEntry
    rw [getD_append _ _ _ _ (by rw [length_dirent]; omega), Nat.mul_zero, Nat.zero_add]
    exact getD_dirent inside
  | 1 =>
    cases isEntry
    have shift : 16 * 1 + index - 16 = index := by omega
    rw [getD_append_right _ _ _ _ (by rw [length_dirent]; omega), length_dirent, shift,
      getD_append _ _ _ _ (by rw [length_dirent]; exact inside)]
    exact getD_dirent inside
  | k + 2 =>
    obtain ⟨file, isFile, same⟩ := map_eq_some_iff.1 isEntry
    obtain ⟨rfl, rfl⟩ := same
    have shift : 16 * (k + 2) + index - 16 - 16 = 16 * k + index := by omega
    rw [getD_append_right _ _ _ _ (by rw [length_dirent]; omega), length_dirent,
      getD_append_right _ _ _ _ (by rw [length_dirent]; omega),
      length_dirent, shift, getD_fileEntries isFile inside, Nat.add_comm 2]

theorem entryAt_bounds {k : Nat} (isEntry : entryAt files k = some (inum, name)) :
    k < files.length + 2 ∧ 0 < inum ∧ inum < files.length + 2 ∧ 0 ∉ name := by
  match k with
  | 0 =>
    cases isEntry
    exact ⟨by omega, by decide, by unfold ROOTINO; omega, by decide⟩
  | 1 =>
    cases isEntry
    exact ⟨by omega, by decide, by unfold ROOTINO; omega, by decide⟩
  | k + 2 =>
    obtain ⟨file, isFile, same⟩ := map_eq_some_iff.1 isEntry
    obtain ⟨rfl, rfl⟩ := same
    have inside := (List.getElem?_eq_some_iff.1 isFile).1
    exact ⟨by omega, by omega, by omega, file.key_string⟩

section Lookup

variable (made : Made image records files) [sb : Superblock] {fs : Fs}
  {dp : Entry} (seen : Shows fs image.sector) (loads : Loads fs dp ROOTINO)
  (few : files.length + 2 ≤ ninodes)

include made seen loads few

theorem Made.readDirent_eq {k : Nat} {name : List UInt8}
    (isEntry : entryAt files k = some (inum, name)) (message : Panic) :
    ∃ de, readDirent dp (16 * k) message fs = .done de fs ∧ direntInum de = inum ∧
      ∀ index < 14, direntName de index = cString name index := by
  obtain ⟨isBelow, _, small, isString⟩ := entryAt_bounds isEntry
  have many : ninodes = 200 := rfl
  have blocks := (made.tight ROOTINO).blocks
  rw [made.rootBytes, length_rootBytes] at blocks
  have root := seen.dinode ROOTINO (by decide)
  rw [made.rootInode] at root
  unfold Loads at loads
  rw [root] at loads
  have addrs : (fs.inode dp).copy.addrs = (records ROOTINO).dinode.addrs := by
    rw [loads]
    rfl
  have size : (fs.inode dp).copy.size = (16 * (files.length + 2) / 512 + 1) * 512 := by
    rw [loads]
    rfl
  obtain ⟨data, result, agrees⟩ := @FileSystem.readi_eq sb fs dp (16 * k) 16
    (by omega) (by omega) fun bn _ below => by
      rw [seen.block]
      exact made.laid.has addrs (by omega)
  have count : min 16 ((fs.inode dp).copy.size - 16 * k) = 16 := by omega
  rw [count] at result agrees
  have bytes : ∀ index < 16, data index = mkDirent inum (cString name) index := by
    intro index inside
    rw [agrees index inside, seen.block, made.laid.byteAt_eq addrs (by omega), made.rootBytes]
    exact getD_rootBytes isEntry inside
  refine ⟨data, ?_, ?_, ?_⟩
  · apply Act.eq_done
    unfold readDirent direntSize
    rw [Act.wp_bind, Act.wp_iff_of_done result]
    exact ⟨rfl, rfl⟩
  · unfold direntInum
    rw [bytes 0 (by omega), bytes 1 (by omega)]
    change (UInt8.ofNat inum).toNat + 256 * (UInt8.ofNat (inum / 256)).toNat = _
    rw [UInt8.toNat_ofNat', UInt8.toNat_ofNat']
    omega
  · intro index inside
    unfold direntName
    rw [bytes (index + 2) (by omega)]
    exact strncpy_cString isString index

/-- The loop of `dirlookup` skips the entries with other names. -/
theorem Made.dirlookupLoop_eq {name key : List UInt8} {target count k : Nat}
    (isTarget : entryAt files target = some (inum, name))
    (isKey : 0 ∉ key) (same : key.take 14 = name.take 14)
    (others : ∀ j < target, ∀ number other,
      entryAt files j = some (number, other) → key.take 14 ≠ other.take 14)
    (notPast : k ≤ target) (enough : target < k + count) :
    dirlookupLoop dp key count (16 * k) fs = .done (some (inum, 16 * target)) fs := by
  have targetBounds := entryAt_bounds isTarget
  have size : 16 * (files.length + 2) ≤ (fs.inode dp).copy.size := by
    rw [loads, seen.dinode ROOTINO (by decide), made.rootInode]
    exact (by omega : 16 * (files.length + 2) ≤ (16 * (files.length + 2) / 512 + 1) * 512)
  induction count generalizing k with
  | zero => omega
  | succ count ih =>
    have current : ∃ number other, entryAt files k = some (number, other) := by
      match k with
      | 0 => exact ⟨_, _, rfl⟩
      | 1 => exact ⟨_, _, rfl⟩
      | k + 2 =>
        have inside : k < files.length := by omega
        refine ⟨k + 2, skipUnderscore files[k].name, ?_⟩
        rw [entryAt, getElem?_eq_getElem inside]
        rfl
    obtain ⟨number, other, isEntry⟩ := current
    obtain ⟨_, positive, _, isString⟩ := entryAt_bounds isEntry
    obtain ⟨de, reads, number', names⟩ := made.readDirent_eq seen loads few isEntry .dirlinkRead
    have compare : namecmp (cString key) (direntName de) = 0 ↔ key.take 14 = other.take 14 := by
      rw [namecmp, DIRSIZ, strncmp_eq_zero_iff, chars_congr fun index inside _ =>
        names index inside, chars_cString _ isKey, chars_cString _ isString]
    apply Act.eq_done
    rw [dirlookupLoop, Act.wp_bind, Act.wp_read, if_pos (by omega),
      Act.wp_bind, Act.wp_iff_of_done reads, number']
    rcases eq_or_ne k target with rfl | isHere
    · rw [isTarget, some.injEq, Prod.mk.injEq] at isEntry
      obtain ⟨rfl, rfl⟩ := isEntry
      rw [if_pos ⟨by omega, compare.2 same⟩, Act.wp_pure]
      exact ⟨rfl, rfl⟩
    · have differs := others k (by omega) number other isEntry
      rw [if_neg (fun both => differs (compare.1 both.2))]
      have next : 16 * k + direntSize = 16 * (k + 1) := by
        unfold direntSize
        omega
      rw [next, Act.wp_iff_of_done (ih (by omega) (by omega))]
      exact ⟨rfl, rfl⟩

end Lookup

/-! ### Agreement -/

structure Fits (files : List HostFile) : Prop where
  nonempty : ∀ file ∈ files, file.key ≠ []
  distinct : (files.map HostFile.key).Nodup
  noDots : ∀ file ∈ files, file.key ≠ [dot] ∧ file.key ≠ [dot, dot]
  short : ∀ file ∈ files, file.bytes.length ≤ MAXFILE * BSIZE
  few : files.length + 2 ≤ ninodes
  room : total files ≤ nblocks

theorem Fits.others (fits : Fits files) {k : Nat} {file : HostFile}
    (isFile : files[k]? = some file) {j number : Nat} {other : List UInt8}
    (isBefore : j < k + 2) (isEntry : entryAt files j = some (number, other)) :
    file.key.take 14 ≠ other.take 14 := by
  have isMem := mem_of_getElem? isFile
  have cut : file.key.take 14 = file.key := by
    unfold HostFile.key DIRSIZ
    rw [take_take]
    rfl
  rw [cut]
  match j with
  | 0 =>
    obtain ⟨_, rfl⟩ := isEntry
    exact (fits.noDots file isMem).1
  | 1 =>
    obtain ⟨_, rfl⟩ := isEntry
    exact (fits.noDots file isMem).2
  | j + 2 =>
    obtain ⟨earlier, isEarlier, same⟩ := map_eq_some_iff.1 isEntry
    obtain ⟨_, rfl⟩ := same
    change file.key ≠ earlier.key
    intro sameKey
    have inside := (List.getElem?_eq_some_iff.1 isFile).1
    have equal : (files.map HostFile.key)[j]? = (files.map HostFile.key)[k]? := by
      rw [getElem?_map, getElem?_map, isEarlier, isFile, map_some, map_some, sameKey]
    have position := (getElem?_inj (by rw [length_map]; omega) fits.distinct).1 equal
    omega

/-- On the image that `mkfs` makes from files that fit, `dirlookup` finds every
file and `readi` returns its bytes. -/
theorem mkfs_kernel_agree (fits : Fits files) :
    ((∀ file ∈ files, slash ∉ file.name ∧ file.reads ≠ none) →
      ∃ final, main files Image.truncated = .done () final) ∧
    ∀ final, main files Image.truncated = .done () final →
      ∀ k file, files[k]? = some file → ∀ fs, Shows fs final.sector → (∀ dp, Loads fs dp ROOTINO →
          @dirlookupScan (readsb (fs.block 1)) dp file.key fs =
            .done (some (k + 2, 16 * (k + 2))) fs) ∧
        ∀ ip, Loads fs ip (k + 2) → ∀ off n, off ≤ file.bytes.length → off + n < 2 ^ 32 → ∃ data,
            @readi (readsb (fs.block 1)) ip off n fs =
              .done (((min n (file.bytes.length - off) : Nat) : Int), data) fs ∧
            ∀ index < min n (file.bytes.length - off),
              data index = file.bytes.getD (off + index) 0 := by
  have manyInodes : ninodes = 200 := rfl
  have manyBlocks : nblocks = 965 := rfl
  have few := fits.few
  have room := fits.room
  constructor
  · intro usable
    obtain ⟨final, _, exits, _⟩ := main_ends (by omega) (by omega)
      fun file isFile => ⟨.inr (usable file isFile).1,
        .inr (usable file isFile).2, .inr (fits.short file isFile)⟩
    exact ⟨final, exits⟩
  intro final exits k file isFile fs seen
  obtain ⟨records, made⟩ := made_of_exits few room exits
  have inside := (List.getElem?_eq_some_iff.1 isFile).1
  have isOne : ROOTINO = 1 := rfl
  constructor
  · intro dp loads
    have isEntry : entryAt files (k + 2) = some (k + 2, skipUnderscore file.name) := by
      rw [entryAt, isFile]
      rfl
    have cut : file.key.take 14 = (skipUnderscore file.name).take 14 := by
      unfold HostFile.key DIRSIZ
      rw [List.take_take]
      rfl
    have root := loads
    unfold Loads at root
    rw [seen.dinode ROOTINO (by decide), made.rootInode] at root
    have size : (fs.inode dp).copy.size = (16 * (files.length + 2) / 512 + 1) * 512 := by
      rw [root]
      rfl
    have isDirectory : (fs.inode dp).copy.type = .dir := by
      rw [root]
      change inodeTypeOf (records ROOTINO).type = .dir
      rw [made.rootType]
      rfl
    have found := @Made.dirlookupLoop_eq final records _ files made
      (readsb (fs.block 1)) fs dp seen loads few _ file.key (k + 2)
      ((fs.inode dp).copy.size / direntSize + 1) 0 isEntry
      (fun isMem => file.key_string (List.mem_of_mem_take isMem)) cut
      (fun j isBefore number other isOther =>
        fits.others isFile isBefore isOther) (Nat.zero_le _)
      (by rw [size]; unfold direntSize; omega)
    apply Act.eq_done
    unfold dirlookupScan
    rw [Act.wp_bind, Act.wp_read, if_pos isDirectory]
    exact (Act.wp_iff_of_done found).2 ⟨rfl, rfl⟩
  · intro ip loads off n within small
    have bytes := made.fileBytes k file isFile
    rw [← bytes] at within ⊢
    exact @Made.readi_eq final records (k + 2) files fs made seen (by omega)
      (readsb (fs.block 1)) ip (by omega) loads off n within small

def letterFile : HostFile where
  name := [95, 97]
  reads := some [⟨[1, 2, 3], by decide⟩]
  isString := by decide

theorem mkfs_kernel_agree_twoFiles : ∃ final, main [letterFile, zerosFile 13] Image.truncated =
        .done () final ∧
      @dirlookupScan (readsb (final.sector 1)) ⟨1, by decide⟩ [97] (kernelState final.sector) =
        .done (some (2, 32)) (kernelState final.sector) ∧
      ∃ data, @readi (readsb (final.sector 1)) ⟨2, by decide⟩ 1 5 (kernelState final.sector) =
        .done (2, data) (kernelState final.sector) ∧ data 0 = 2 := by
  have lengths : letterFile.bytes.length = 3 := rfl
  have needs : total [letterFile, zerosFile 13] = 16 := by
    unfold total
    simp only [map_cons, map_nil, sum_cons, sum_nil, length_zerosFile, lengths]
    decide
  have first : letterFile.key = [97] := rfl
  have second : (zerosFile 13).key = [122] := rfl
  have fits : Fits [letterFile, zerosFile 13] := by
    refine ⟨?_, ?_, ?_, ?_, by simp; decide, by rw [needs]; decide⟩
    · simp [first, second]
    · simp [first, second]
    · simp [first, second, dot]
    · simp [lengths, length_zerosFile, MAXFILE, BSIZE, NDIRECT, NINDIRECT]
  obtain ⟨ends, agree⟩ := mkfs_kernel_agree fits
  obtain ⟨final, exits⟩ := ends (by
    intro file isFile
    simp only [mem_cons, not_mem_nil, or_false] at isFile
    rcases isFile with rfl | rfl
    · exact ⟨by decide, some_ne_none _⟩
    · have noSlash : slash ∉ [122] := by decide
      exact ⟨noSlash, some_ne_none _⟩)
  obtain ⟨found, reads⟩ := agree final exits 0 letterFile rfl
    (kernelState final.sector) (shows_kernelState final.sector)
  obtain ⟨data, result, bytes⟩ := reads ⟨2, by decide⟩ rfl 1 5 (by decide)
    (by decide)
  exact ⟨final, exits, found ⟨1, by decide⟩ rfl, data, result,
    bytes 0 (by decide)⟩

end Mkfs

end Xv6Kthreads
