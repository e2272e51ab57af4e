import Xv6Kthreads.MkfsAppend

/-!
# The image that is made

The main program of `mkfs` keeps a record of every file that it has appended.
If the files fit on the disk the program ends, and the image holds the root
directory with one entry for each file and the bytes of each file.
-/

namespace Xv6Kthreads

namespace Mkfs

open Sections FileSystem Function Act List

variable {image next : Image} {records : Nat → Record} {inum : Nat}
variable {allowed : Exit → Prop}

theorem write_sector (sec : Nat) (buf : Block) :
    (image.write sec buf).sector = update image.sector sec buf :=
  rfl

/-! ### The empty disk -/

theorem zeroSectors (count first : Nat) (image : Image) (isZero : ∀ b, image.sector b = fun _ => 0)
    (sectors : image.sectors = first) :
    forEach (range' first count) (fun i => wsect i fun _ => 0) image =
      .done () { image with sectors := first + count } := by
  induction count generalizing first image with
  | zero =>
    subst sectors
    rfl
  | succ count ih =>
    have written : image.write first (fun _ => 0) =
        { image with sectors := first + 1 } := by
      unfold Image.write
      rw [← isZero first, update_eq_self, sectors, Nat.max_eq_right (Nat.le_succ first)]
    have unfolded : forEach (range' first (count + 1))
        (fun i => wsect i fun _ => 0) image = forEach (range' (first + 1) count)
            (fun i => wsect i fun _ => 0) (image.write first fun _ => 0) := rfl
    have total : first + 1 + count = first + (count + 1) := by omega
    have rest := ih (first + 1) { image with sectors := first + 1 } isZero rfl
    rw [total] at rest
    rw [unfolded, written]
    exact rest

/-- The image after the sectors and the superblock have been written. -/
def Image.blank : Image :=
  { Image.truncated with sectors := 1024 }.write 1 superblockSector

theorem blank_sector : Image.blank.sector = update (fun _ _ => 0) 1 superblockSector :=
  rfl

theorem getInode_zero (slot : Nat) : getInode (fun _ => 0) slot = (Record.empty 0).dinode := by
  unfold getInode
  simp only [ByteBlock.word_zero]
  unfold Record.dinode Record.empty
  congr 1
  funext index
  split <;> rfl

theorem rest_blank : Rest Image.blank fun _ => Record.empty 0 where
  laid :=
    { sectors := rfl
      used := rfl
      start := by decide
      bound := by decide
      superblock := by
        rw [blank_sector, update_self]
      stored := fun _ => Stored.empty 0
      range := fun _ b isUsed => absurd isUsed not_mem_nil
      disjoint := fun _ _ _ b isUsed => absurd isUsed not_mem_nil
      zero := by
        intro b isFree _
        have isBehind : 29 ≤ b := isFree
        rw [blank_sector, update_of_ne (by omega)]
      taken := by
        intro b
        change b ∈ [] ↔ 29 ≤ b ∧ b < 29
        simp only [not_mem_nil, false_iff]
        omega }
  onDisk inum small := by
    have bounds := i2b_bounds small
    unfold inodeAt
    exact getInode_zero _
  tight _ := tight_empty 0
  typed _ := (by decide : 0 < 65536)
  first := by decide
  unused _ _ := rfl
  inodes inum := by
    change inum ∈ [] ↔ 1 ≤ inum ∧ inum < 1
    simp only [not_mem_nil, false_iff]
    omega

/-! ### What has been written -/

def HostFile.bytes (file : HostFile) : List UInt8 :=
  ((file.reads.getD []).map Subtype.val).flatten

/-- The entries of the files in the root directory, the first of which has the
given number. -/
def fileEntries : (inum : Nat) → List HostFile → List UInt8
  | _, [] => []
  | inum, file :: rest => dirent inum (skipUnderscore file.name) ++ fileEntries (inum + 1) rest

variable (files : List HostFile)

def rootBytes : List UInt8 :=
  dirent ROOTINO [dot] ++ (dirent ROOTINO [dot, dot] ++ fileEntries 2 files)

/-- The number of blocks that the root directory and the files use. -/
def total : Nat :=
  cost (16 * (files.length + 2)) + (files.map fun file => cost file.bytes.length).sum

theorem length_dirent (inum : Nat) (name : List UInt8) : (dirent inum name).length = 16 := by
  unfold dirent direntSize
  rw [length_map, length_range]

theorem fileEntries_append (inum : Nat) (files : List HostFile) (file : HostFile) :
    fileEntries inum (files ++ [file]) = fileEntries inum files ++
      dirent (inum + files.length) (skipUnderscore file.name) := by
  induction files generalizing inum with
  | nil => exact append_nil _
  | cons first rest ih =>
    rw [cons_append, fileEntries, fileEntries, ih, append_assoc,
      length_cons, Nat.add_assoc, Nat.add_comm 1]

theorem length_fileEntries (inum : Nat) (files : List HostFile) :
    (fileEntries inum files).length = 16 * files.length := by
  induction files generalizing inum with
  | nil => rfl
  | cons first rest ih =>
    rw [fileEntries, length_append, ih, length_dirent, length_cons]
    omega

theorem rootBytes_append (file : HostFile) : rootBytes (files ++ [file]) = rootBytes files ++
      dirent (files.length + 2) (skipUnderscore file.name) := by
  unfold rootBytes
  rw [fileEntries_append, Nat.add_comm 2]
  simp only [append_assoc]

theorem length_rootBytes : (rootBytes files).length = 16 * (files.length + 2) := by
  unfold rootBytes
  rw [length_append, length_append, length_dirent, length_dirent, length_fileEntries]
  omega

theorem total_append (file : HostFile) : total (files ++ [file]) + cost (16 * (files.length + 2)) =
      total files + cost (16 * (files.length + 3)) + cost file.bytes.length := by
  unfold total
  simp only [map_append, map_cons, map_nil, sum_append,
    sum_cons, sum_nil, length_append, length_cons,
    length_nil, Nat.zero_add, Nat.add_assoc, Nat.reduceAdd]
  omega

theorem total_le_append (files rest : List HostFile) : total files ≤ total (files ++ rest) := by
  unfold total
  rw [map_append, sum_append, length_append]
  have root := cost_mono (by omega :
    16 * (files.length + 2) ≤ 16 * (files.length + rest.length + 2))
  omega

/-- The image holds the root directory and the files that have been
appended. -/
structure Contains (image : Image) (records : Nat → Record) (files : List HostFile) : Prop where
  rest : Rest image records
  freeinode : image.freeinode = files.length + 2
  freeblock : image.freeblock = 29 + total files
  rootType : (records ROOTINO).type = typeDir
  rootBytes : (records ROOTINO).bytes = rootBytes files
  fileType : ∀ k, k < files.length → (records (k + 2)).type = typeFile
  fileBytes : ∀ k file, files[k]? = some file → (records (k + 2)).bytes = file.bytes

/-! ### The main program -/

theorem wp_chunks {chunks : List Chunk} {post : Unit → Image → Prop}
    (rest : Rest image records) (small : inum < 208)
    (allocated : inum < image.freeinode)
    (short : allowed .assertion ∨ (records inum).bytes.length +
      (chunks.map Subtype.val).flatten.length ≤ 140 * 512)
    (room : image.freeblock + cost ((records inum).bytes.length +
      (chunks.map Subtype.val).flatten.length) ≤ 1024 + cost (records inum).bytes.length)
    (holds : ∀ next after, Rest next (update records inum after) →
      after.type = (records inum).type →
      after.bytes = (records inum).bytes ++ (chunks.map Subtype.val).flatten →
      next.freeinode = image.freeinode →
      next.freeblock + cost (records inum).bytes.length =
        image.freeblock + cost ((records inum).bytes.length +
          (chunks.map Subtype.val).flatten.length) →
      post () next) :
    (forEach chunks fun chunk => iappend inum chunk.val).wp image allowed
      post := by
  induction chunks generalizing image records with
  | nil =>
    refine holds image (records inum) ?_ rfl (append_nil _).symm rfl rfl
    rw [update_eq_self]
    exact rest
  | cons first others ih =>
    rw [map_cons, flatten_cons, length_append] at short room
    generalize isLength : (others.map Subtype.val).flatten.length = length at short room
    have less : cost ((records inum).bytes.length + first.val.length) ≤
        cost ((records inum).bytes.length + (first.val.length + length)) := cost_mono (by omega)
    rw [forEach, wp_bind]
    apply wp_iappend rest small allocated (short.imp_right (by omega)) (by omega)
    intro middle record middleRest type bytes freeinode freeblock
    have isRecord : update records inum record inum = record := update_self ..
    have recordLength : record.bytes.length = (records inum).bytes.length + first.val.length := by
      rw [bytes, length_append]
    have continued := @ih middle (update records inum record) middleRest
    rw [isRecord, isLength, recordLength] at continued
    apply continued (by omega) (short.imp_right (by omega))
    · rw [Nat.add_assoc]
      omega
    intro next after nextRest nextType nextBytes nextInode nextBlock
    rw [update_idem] at nextRest
    refine holds next after nextRest (nextType.trans type) ?_ (nextInode.trans freeinode) ?_
    · rw [nextBytes, bytes, map_cons, flatten_cons, append_assoc]
    · rw [map_cons, flatten_cons, length_append, isLength]
      rw [Nat.add_assoc] at nextBlock
      omega

variable {files : List HostFile}

theorem wp_addFile {file : HostFile} {post : Unit → Image → Prop}
    (contains : Contains image records files) (few : files.length + 2 < 208)
    (room : 29 + total (files ++ [file]) ≤ 1024) (named : allowed .assertion ∨ slash ∉ file.name)
    (opens : allowed .failure ∨ file.reads ≠ none)
    (short : allowed .assertion ∨ file.bytes.length ≤ 140 * 512)
    (holds : ∀ next after, Contains next after (files ++ [file]) → post () next) :
    (addFile ROOTINO file).wp image allowed post := by
  have account := total_append files file
  have freeblock := contains.freeblock
  have freeinode := contains.freeinode
  have isOne : ROOTINO = 1 := rfl
  have costZero : cost 0 = 0 := by decide
  unfold addFile
  rw [wp_bind]
  apply wp_assert
  case fails =>
    intro hasSlash
    exact named.resolve_right fun hasNone =>
      of_decide_eq_false hasSlash hasNone
  intro _
  cases reads : file.reads with
  | none => exact opens.resolve_right fun some => some reads
  | some chunks =>
    have bytes : file.bytes = (chunks.map Subtype.val).flatten := by
      unfold HostFile.bytes
      rw [reads]
      rfl
    rw [wp_bind]
    apply wp_ialloc contains.rest (by omega) (by decide) (by decide)
    intro second secondRest secondInode secondBlock
    rw [freeinode] at secondRest ⊢
    generalize isRecords : update records (files.length + 2)
      (Record.empty typeFile) = created at secondRest
    have root : created ROOTINO = records ROOTINO := by
      rw [← isRecords, update_of_ne (by omega)]
    have rootLength : (created ROOTINO).bytes.length = 16 * (files.length + 2) := by
      rw [root, contains.rootBytes, length_rootBytes]
    have entry : 16 * (files.length + 2) + 16 = 16 * (files.length + 3) := by omega
    rw [wp_bind]
    apply wp_iappend secondRest (by decide) (by omega)
    · rw [length_dirent]
      exact .inr (by omega)
    · rw [length_dirent, rootLength, entry]
      omega
    intro third record thirdRest rootType rootBytes thirdInode thirdBlock
    rw [length_dirent, rootLength, entry] at thirdBlock
    generalize isLinked : update created ROOTINO record = linked at thirdRest
    have isFile : linked (files.length + 2) = Record.empty typeFile := by
      rw [← isLinked, update_of_ne (by omega), ← isRecords, update_self]
    have noBytes : (linked (files.length + 2)).bytes = [] := by
      rw [isFile]
      rfl
    apply wp_chunks thirdRest (by omega) (by omega)
    · rw [noBytes, ← bytes]
      exact short.imp_right (by simp)
    · rw [noBytes, ← bytes, length_nil, Nat.zero_add, costZero]
      omega
    intro next after nextRest type nextBytes nextInode nextBlock
    rw [noBytes, nil_append, ← bytes] at nextBytes
    rw [noBytes, length_nil, Nat.zero_add, ← bytes, costZero] at nextBlock
    have isRoot : update linked (files.length + 2) after ROOTINO =
        record := by
      rw [update_of_ne (by omega), ← isLinked, update_self]
    have isOld : ∀ k < files.length, update linked (files.length + 2) after (k + 2) =
          records (k + 2) := by
      intro k inside
      rw [update_of_ne (by omega), ← isLinked, update_of_ne (by omega), ← isRecords,
        update_of_ne (by omega)]
    refine holds next _ ⟨nextRest, ?_, ?_, ?_, ?_, ?_, ?_⟩
    · rw [length_append, length_singleton]
      omega
    · omega
    · rw [isRoot, rootType, root, contains.rootType]
    · rw [isRoot, rootBytes, root, contains.rootBytes, rootBytes_append]
    · intro k inside
      rw [length_append, length_singleton] at inside
      by_cases isLast : k = files.length
      · rw [isLast, update_self, type, isFile]
        rfl
      · rw [isOld k (by omega)]
        exact contains.fileType k (by omega)
    · intro k other isOther
      by_cases isLast : k = files.length
      · rw [isLast, getElem?_concat_length, Option.some.injEq] at isOther
        rw [isLast, update_self, nextBytes, isOther]
      · have inside : k < files.length := by
          have within := (List.getElem?_eq_some_iff.1 isOther).1
          rw [length_append, length_singleton] at within
          omega
        rw [getElem?_append_left inside] at isOther
        rw [isOld k inside]
        exact contains.fileBytes k other isOther

theorem wp_makeRoot {post : Nat → Image → Prop}
    (holds : ∀ next records, Contains next records [] → post ROOTINO next) :
    makeRoot.wp Image.truncated allowed post := by
  have zeroed : forEach (range (nblocks + Image.truncated.usedblocks + nlog))
      (fun i => wsect i fun _ => 0) Image.truncated =
        .done () { Image.truncated with sectors := 1024 } := by
    have count : nblocks + Image.truncated.usedblocks + nlog = 1024 := by
      decide
    rw [count, range_eq_range']
    exact zeroSectors 1024 0 Image.truncated (fun _ => rfl) rfl
  have costZero : cost 0 = 0 := by decide
  have costOne : cost 16 = 1 := by decide
  have costTwo : cost (16 + 16) = 1 := by decide
  unfold makeRoot
  rw [wp_bind, wp_read, wp_bind]
  rw [wp_assert_true (by decide)]
  rw [wp_bind]
  rw [wp_iff_of_done zeroed, wp_bind]
  unfold wsect
  rw [wp_modify]
  change wp _ Image.blank _ _
  rw [wp_bind]
  apply wp_ialloc rest_blank (by decide) (by decide) (by decide)
  intro first firstRest firstInode firstBlock
  change Rest first (update _ ROOTINO _) at firstRest
  have isOne : ROOTINO = 1 := rfl
  have isRoot : update (fun _ => Record.empty 0) ROOTINO
      (Record.empty typeDir) ROOTINO = Record.empty typeDir :=
    update_self ..
  have blankInode : Image.blank.freeinode = 1 := rfl
  have blankBlock : Image.blank.freeblock = 29 := by decide
  rw [wp_bind]
  rw [wp_assert_true (by decide)]
  rw [wp_bind]
  change (iappend ROOTINO _).wp _ _ _
  apply wp_iappend firstRest (by decide) (by omega)
  · exact .inr (by decide)
  · change _ + cost 16 ≤ 1024 + cost 0
    omega
  intro second record secondRest type bytes secondInode secondBlock
  change second.freeblock + cost 0 = first.freeblock + cost 16 at secondBlock
  rw [update_idem] at secondRest
  have isRecord : update (fun _ => Record.empty 0) ROOTINO
      record ROOTINO = record := update_self ..
  have length : record.bytes.length = 16 := by
    rw [bytes]
    exact length_dirent ..
  rw [wp_bind]
  change (iappend ROOTINO _).wp _ _ _
  apply wp_iappend secondRest (by decide) (by omega)
  · rw [isRecord, length, length_dirent]
    exact .inr (by decide)
  · rw [isRecord, length, length_dirent]
    omega
  intro third last thirdRest thirdType thirdBytes thirdInode thirdBlock
  rw [isRecord] at thirdType thirdBytes thirdBlock
  rw [length, length_dirent] at thirdBlock
  rw [update_idem] at thirdRest
  have isLast : update (fun _ => Record.empty 0) ROOTINO
      last ROOTINO = last := update_self ..
  refine holds third _ ⟨thirdRest, ?_, ?_, ?_, ?_, ?_, ?_⟩
  · rw [length_nil]
    omega
  · have empty : total [] = 1 := by decide
    omega
  · rw [isLast, thirdType, type]
    rfl
  · rw [isLast, thirdBytes, bytes]
    exact (append_nil _).symm
  · intro k inside
    exact absurd inside (Nat.not_lt_zero k)
  · intro k file isFile
    exact absurd isFile (by simp)

/-- The program does not end early because of the file, or that is
allowed. -/
structure Acceptable (allowed : Exit → Prop) (file : HostFile) : Prop where
  named : allowed .assertion ∨ slash ∉ file.name
  opens : allowed .failure ∨ file.reads ≠ none
  short : allowed .assertion ∨ file.bytes.length ≤ 140 * 512

theorem wp_addFiles {appended : List HostFile} {post : Unit → Image → Prop}
    (contains : Contains image records appended) (few : (appended ++ files).length + 2 ≤ 208)
    (room : 29 + total (appended ++ files) ≤ 1024)
    (acceptable : ∀ file ∈ files, Acceptable allowed file)
    (holds : ∀ next after, Contains next after (appended ++ files) → post () next) :
    (forEach files (addFile ROOTINO)).wp image allowed post := by
  induction files generalizing image records appended with
  | nil =>
    rw [append_nil] at holds
    exact holds image records contains
  | cons file rest ih =>
    have split : appended ++ file :: rest = (appended ++ [file]) ++ rest := append_cons ..
    rw [split] at few room holds
    have smaller := total_le_append (appended ++ [file]) rest
    have isFile := acceptable file mem_cons_self
    rw [forEach, wp_bind]
    apply wp_addFile contains _ (by omega) isFile.named isFile.opens isFile.short
    · intro next after nextContains
      exact ih nextContains few room (fun other isOther => acceptable other
          (mem_cons_of_mem _ isOther)) holds
    · simp only [length_append, length_singleton] at few
      omega

/-! ### The bitmap -/

theorem getBit_zero (b : Nat) : getBit (fun _ => 0) b = false := by
  unfold getBit ByteBlock.byte
  split
  · exact Nat.zero_testBit _
  · exact Nat.zero_testBit _

theorem getBit_bitmap {used : Nat} (small : used ≤ 4096) (b : Nat) :
    getBit (bitmap used) b = decide (b < used) := by
  unfold bitmap
  induction used with
  | zero => exact getBit_zero b
  | succ used ih =>
    rw [range_succ, foldl_append, foldl_cons, foldl_nil,
      getBit_setBit (by omega), ih (by omega), ← Bool.decide_or]
    exact decide_eq_decide.2 (by omega)

structure Made (image : Image) (records : Nat → Record) (files : List HostFile) : Prop where
  laid : Laid image records
  tight : ∀ inum, (records inum).Tight
  unused : ∀ inum, image.freeinode ≤ inum → records inum = Record.empty 0
  inodes : ∀ inum, inum ∈ image.inodes ↔ 1 ≤ inum ∧ inum < image.freeinode
  freeinode : image.freeinode = files.length + 2
  freeblock : image.freeblock = 29 + total files
  rootInode : inodeAt image.sector ROOTINO = (records ROOTINO).dinode.setSize
      ((16 * (files.length + 2) / 512 + 1) * 512)
  onDisk : ∀ inum < 208, inum ≠ ROOTINO → inodeAt image.sector inum = (records inum).dinode
  rootType : (records ROOTINO).type = typeDir
  rootBytes : (records ROOTINO).bytes = rootBytes files
  fileType : ∀ k, k < files.length → (records (k + 2)).type = typeFile
  fileBytes : ∀ k file, files[k]? = some file → (records (k + 2)).bytes = file.bytes
  bits : ∀ b, getBit (image.sector 28) b = decide (b < image.freeblock)

theorem wp_fixRoot {post : Unit → Image → Prop}
    (contains : Contains image records files) (few : files.length + 2 ≤ 208)
    (holds : post () (image.writeInode ROOTINO ((records ROOTINO).dinode.setSize
        ((16 * (files.length + 2) / 512 + 1) * 512)))) :
    (fixRoot ROOTINO).wp image allowed post := by
  have rest := contains.rest
  unfold fixRoot
  rw [wp_bind]
  apply wp_rinode rest.laid (by decide)
  rw [rest.onDisk ROOTINO (by decide)]
  have size : (records ROOTINO).dinode.size = 16 * (files.length + 2) := by
    change (records ROOTINO).bytes.length = _
    rw [contains.rootBytes, length_rootBytes]
  rw [size]
  apply wp_winode rest.laid (by decide)
  have small : (16 * (files.length + 2) / BSIZE + 1) * BSIZE % 2 ^ 32 =
      (16 * (files.length + 2) / 512 + 1) * 512 := by
    unfold BSIZE
    omega
  rw [small]
  exact holds

theorem wp_balloc {post : Unit → Image → Prop} (laid : Laid image records)
    (holds : post () (image.write 28 (bitmap image.freeblock))) :
    (balloc (asInt image.usedblocks)).wp image allowed post := by
  have bound := laid.bound
  have value : asInt image.usedblocks = image.freeblock := by
    unfold asInt
    rw [laid.used, if_pos (by omega)]
  have sector : ninodes / IPB + 3 = 28 := by decide
  unfold balloc
  rw [value, wp_bind, sector, Int.toNat_natCast]
  rw [wp_assert_true (decide_eq_true (by omega))]
  unfold wsect
  exact holds

theorem wp_main {start : Image} {post : Unit → Image → Prop} (isStart : start = Image.truncated)
    (few : files.length + 2 ≤ 208) (room : 29 + total files ≤ 1024)
    (acceptable : ∀ file ∈ files, Acceptable allowed file)
    (holds : ∀ final records, Made final records files → post () final) :
    (main files).wp start allowed post := by
  subst isStart
  unfold main
  rw [wp_bind]
  -- The name of the program keeps it from being evaluated.
  have makesRoot := @wp_makeRoot allowed
  generalize makeRoot = program at makesRoot ⊢
  apply makesRoot
  intro start records contains
  rw [wp_bind]
  refine wp_addFiles contains few room acceptable ?_
  intro image records contains
  have rest := contains.rest
  rw [wp_bind]
  apply wp_fixRoot contains few
  have laid := rest.laid.writeInode (by decide : ROOTINO < 208) ((records ROOTINO).dinode.setSize
      ((16 * (files.length + 2) / 512 + 1) * 512))
  rw [wp_bind, wp_read]
  apply wp_balloc laid
  have small := rest.laid.dinode_small ROOTINO (rest.tight _) (rest.typed _)
  have fixedSmall : ((records ROOTINO).dinode.setSize
      ((16 * (files.length + 2) / 512 + 1) * 512)).Small :=
    { small with size := (by omega :
        (16 * (files.length + 2) / 512 + 1) * 512 < 4294967296) }
  have frame : ∀ (middle : Image) buf, ∀ inum < 208, inodeAt (middle.write 28 buf).sector inum =
        inodeAt middle.sector inum := by
    intro middle buf inum isInode
    have bounds := i2b_bounds isInode
    unfold inodeAt
    rw [write_sector, update_of_ne (by omega)]
  have bound := laid.bound
  refine holds _ records { contains with
    laid := laid.writeLow (by omega) (by omega) _
    tight := rest.tight
    unused := rest.unused
    inodes := rest.inodes
    rootInode := ?_
    onDisk := ?_
    bits := ?_ }
  · exact inodeAt_writeInode_same fixedSmall
  · intro inum isInode differs
    rw [frame _ _ _ isInode, inodeAt_writeInode_of_ne differs]
    exact rest.onDisk inum isInode
  · intro b
    exact getBit_bitmap (by omega) b

theorem main_ends (few : files.length + 2 ≤ 208) (room : 29 + total files ≤ 1024)
    (acceptable : ∀ file ∈ files, Acceptable (fun _ => False) file) :
    ∃ final records, main files Image.truncated = .done () final ∧
      Made final records files := by
  generalize isStart : Image.truncated = start
  have ends := @wp_main (fun _ => False) files start
    (fun _ final => ∃ records, Made final records files) isStart.symm few room
    acceptable fun final records made => ⟨records, made⟩
  obtain ⟨_, final, result, records, made⟩ := exists_done ends
  exact ⟨final, records, result, made⟩

theorem made_of_exits {final : Image} (few : files.length + 2 ≤ ninodes)
    (room : total files ≤ nblocks) (exits : main files Image.truncated = .done () final) :
    ∃ records, Made final records files := by
  have manyInodes : ninodes = 200 := rfl
  have manyBlocks : nblocks = 965 := rfl
  generalize isStart : Image.truncated = start at exits
  have ends := @wp_main (fun _ => True) files start
    (fun _ final => ∃ records, Made final records files) isStart.symm
    (by omega) (by omega)
    (fun _ _ => ⟨.inl trivial, .inl trivial, .inl trivial⟩)
    fun final records made => ⟨records, made⟩
  exact wp_of_done ends exits

/-! ### The limits of the layout -/

/-- A block in the log or behind it, or an inode behind the table, has been
assigned. -/
def Overrun (image : Image) : Prop :=
  (∃ b ∈ image.blocks, size - nlog ≤ b) ∨ ∃ inum ∈ image.inodes, ninodes ≤ inum

theorem not_overrun_iff : ¬ Overrun image ↔
    (∀ b ∈ image.blocks, b < size - nlog) ∧ ∀ inum ∈ image.inodes, inum < ninodes := by
  simp only [Overrun, not_or, not_exists, not_and, Nat.not_le]

/-- No number that has been taken from a counter is given back. -/
def Grows {α : Type} (act : Action α) : Prop :=
  ∀ image value next, act image = .done value next →
    image.blocks ⊆ next.blocks ∧ image.inodes ⊆ next.inodes

section Grows

variable {α β : Type} {act : Action α} {value : α} {next : Image}

theorem Grows.overrun (grows : Grows act) (result : act image = .done value next)
    (inside : ¬ Overrun next) : ¬ Overrun image := by
  obtain ⟨blocks, inodes⟩ := grows image value next result
  rw [not_overrun_iff] at inside ⊢
  exact ⟨fun b isTaken => inside.1 b (blocks isTaken),
    fun inum isTaken => inside.2 inum (inodes isTaken)⟩

theorem grows_pure (value : α) : Grows (pure value) := by
  intro image _ next result
  cases result
  exact ⟨Subset.refl _, Subset.refl _⟩

theorem grows_read (view : Image → α) : Grows (read view) := by
  intro image _ next result
  cases result
  exact ⟨Subset.refl _, Subset.refl _⟩

theorem grows_stop (reason : Exit) : Grows (stop reason : Action α) := by
  intro image _ next result
  cases result

theorem grows_modify {change : Image → Image} (keeps : ∀ image,
    image.blocks ⊆ (change image).blocks ∧ image.inodes ⊆ (change image).inodes) :
    Grows (modify change) := by
  intro image _ next result
  cases result
  exact keeps image

theorem Grows.bind {following : α → Action β} (first : Grows act)
    (second : ∀ value, Grows (following value)) : Grows (act >>= following) := by
  intro image value last result
  obtain ⟨between, middle, isMiddle, isLast⟩ := bind_eq_done_iff.mp result
  obtain ⟨blocks, inodes⟩ := first image between middle isMiddle
  obtain ⟨more, moreInodes⟩ := second between middle value last isLast
  exact ⟨List.Subset.trans blocks more, List.Subset.trans inodes moreInodes⟩

theorem grows_forEach {body : α → Action Unit} (each : ∀ value, Grows (body value))
    (list : List α) : Grows (forEach list body) := by
  induction list with
  | nil => exact grows_pure ()
  | cons first rest ih => exact (each first).bind fun _ => ih

theorem grows_assert (condition : Bool) : Grows (assert condition) := by
  unfold assert
  split
  · exact grows_pure ()
  · exact grows_stop .assertion

theorem grows_rsect (sec : Nat) : Grows (rsect sec) := by
  refine (grows_read Image.sectors).bind fun sectors => ?_
  split
  · exact grows_read _
  · exact grows_stop .failure

theorem grows_wsect (sec : Nat) (buf : Block) : Grows (wsect sec buf) :=
  grows_modify fun _ => ⟨Subset.refl _, Subset.refl _⟩

theorem grows_winode (inum : Nat) (din : DiskInode) : Grows (winode inum din) :=
  (grows_rsect _).bind fun _ => grows_wsect _ _

theorem grows_rinode (inum : Nat) : Grows (rinode inum) :=
  (grows_rsect _).bind fun _ => grows_pure _

theorem grows_ialloc (type : Nat) : Grows (ialloc type) := by
  have taken : Grows (modify Image.takeInode) :=
    grows_modify fun _ => ⟨Subset.refl _, subset_cons_self _ _⟩
  refine (grows_read Image.freeinode).bind fun inum => taken.bind fun _ => ?_
  exact (grows_winode inum _).bind fun _ => grows_pure inum

theorem grows_newBlock : Grows newBlock := by
  have taken : Grows (modify Image.takeBlock) :=
    grows_modify fun _ => ⟨subset_cons_self _ _, Subset.refl _⟩
  exact (grows_read Image.freeblock).bind fun b => taken.bind fun _ => grows_pure b

theorem grows_fillAddr (din : DiskInode) (index : Fin 13) : Grows (fillAddr din index) := by
  unfold fillAddr
  split
  · exact grows_newBlock.bind fun _ => grows_pure _
  · exact grows_pure din

theorem grows_blockFor (din : DiskInode) (fbn : Nat) : Grows (blockFor din fbn) := by
  unfold blockFor
  split
  · exact (grows_fillAddr din _).bind fun _ => grows_pure _
  · refine (grows_fillAddr din (.last 12)).bind fun din => (grows_rsect _).bind fun indirect => ?_
    split
    · exact grows_newBlock.bind fun _ => (grows_wsect _ _).bind fun _ => grows_pure _
    · exact grows_pure _

theorem grows_iappendLoop (fuel : Nat) (din : DiskInode) (off : Nat) (p : List UInt8) :
    Grows (iappendLoop fuel din off p) := by
  induction fuel generalizing din off p with
  | zero => exact grows_pure _
  | succ fuel ih =>
    rw [iappendLoop]
    split
    · exact grows_pure _
    · refine (grows_assert _).bind fun _ => (grows_blockFor din _).bind fun found => ?_
      exact (grows_rsect _).bind fun _ => (grows_wsect _ _).bind fun _ => ih _ _ _

theorem grows_iappend (inum : Nat) (p : List UInt8) : Grows (iappend inum p) :=
  (grows_rinode inum).bind fun _ => (grows_iappendLoop _ _ _ _).bind fun _ => grows_winode _ _

theorem grows_addFile (file : HostFile) : Grows (addFile ROOTINO file) := by
  refine (grows_assert _).bind fun _ => ?_
  split
  · exact grows_stop .failure
  · refine (grows_ialloc typeFile).bind fun inum => (grows_iappend _ _).bind fun _ => ?_
    exact grows_forEach (fun chunk : Chunk => grows_iappend inum chunk.val) _

end Grows

theorem cost_add (length : Nat) {more : Nat} (few : more ≤ 512) :
    cost (length + more) ≤ cost length + 2 := by
  unfold cost need
  split <;> split <;> omega

/-- What has been written without an overrun fits. -/
theorem Contains.fits (contains : Contains image records files) (inside : ¬ Overrun image) :
    files.length + 2 ≤ ninodes ∧ total files ≤ nblocks := by
  have manyInodes : ninodes = 200 := rfl
  have manyBlocks : nblocks = 965 := rfl
  have logged : size - nlog = 994 := by decide
  rw [not_overrun_iff] at inside
  have inodes := mt (contains.rest.inodes 200).mpr fun isTaken =>
    absurd (inside.2 200 isTaken) (by decide)
  have blocks := mt (contains.rest.laid.taken 994).mpr fun isTaken =>
    absurd (inside.1 994 isTaken) (by decide)
  rw [contains.freeinode] at inodes
  rw [contains.freeblock] at blocks
  omega

/-- The last chunk of a file is appended to what the others have left. -/
theorem addFile_cut {file : HostFile} {chunks : List Chunk} {last : Chunk} {next : Image}
    (reads : file.reads = some (chunks ++ [last]))
    (result : addFile ROOTINO file image = .done () next) :
    ∃ middle inum, addFile ROOTINO { file with reads := some chunks } image = .done () middle ∧
      iappend inum last.val middle = .done () next := by
  unfold addFile at result ⊢
  rw [reads] at result
  obtain ⟨_, checked, isChecked, result⟩ := bind_eq_done_iff.mp result
  obtain ⟨inum, made, isMade, result⟩ := bind_eq_done_iff.mp result
  obtain ⟨_, linked, isLinked, result⟩ := bind_eq_done_iff.mp result
  obtain ⟨middle, isMiddle, isNext⟩ := forEach_concat result
  refine ⟨middle, inum, ?_, isNext⟩
  refine bind_eq_done_iff.mpr ⟨_, checked, isChecked, ?_⟩
  exact bind_eq_done_iff.mpr ⟨inum, made, isMade, bind_eq_done_iff.mpr ⟨_, linked, isLinked,
    isMiddle⟩⟩

theorem Contains.append_of_room {file : HostFile} {next : Image}
    (contains : Contains image records files) (inside : ¬ Overrun image)
    (room : 29 + total (files ++ [file]) ≤ 1024)
    (result : addFile ROOTINO file image = .done () next) :
    ∃ after, Contains next after (files ++ [file]) := by
  have manyInodes : ninodes = 200 := rfl
  have fits := contains.fits inside
  have spec : (addFile ROOTINO file).wp image (fun _ => True) fun _ next =>
      ∃ after, Contains next after (files ++ [file]) :=
    wp_addFile contains (by omega) room (.inl trivial) (.inl trivial) (.inl trivial)
      fun next after contained => ⟨after, contained⟩
  exact wp_of_done spec result

/-- A file that is appended without an overrun fits: each of its chunks takes at
most two blocks, and there are more behind the log. -/
theorem Contains.append {file : HostFile} {next : Image}
    (contains : Contains image records files)
    (result : addFile ROOTINO file image = .done () next) (inside : ¬ Overrun next) :
    ∃ after, Contains next after (files ++ [file]) := by
  have manyBlocks : nblocks = 965 := rfl
  have start := (grows_addFile file).overrun result inside
  have fits := contains.fits start
  have root := cost_add (16 * (files.length + 2)) (show 16 ≤ 512 by decide)
  have empty : ∀ other : HostFile, other.bytes = [] → 29 + total (files ++ [other]) ≤ 1024 := by
    intro other none
    have account := total_append files other
    have costZero : cost 0 = 0 := by decide
    rw [none, List.length_nil, costZero] at account
    have entry : 16 * (files.length + 2) + 16 = 16 * (files.length + 3) := by omega
    rw [entry] at root
    omega
  cases reads : file.reads with
  | none =>
    exact contains.append_of_room start (empty file (by rw [HostFile.bytes, reads]; rfl)) result
  | some chunks =>
    induction chunks using List.reverseRecOn generalizing file next with
    | nil =>
      exact contains.append_of_room start (empty file (by rw [HostFile.bytes, reads]; rfl)) result
    | append_singleton chunks last ih =>
      obtain ⟨middle, inum, isMiddle, appended⟩ := addFile_cut reads result
      have notYet := (grows_iappend inum last.val).overrun appended inside
      obtain ⟨after, contained⟩ := ih isMiddle notYet rfl
      have before := (contained.fits notYet).2
      have account := total_append files file
      have accountBefore := total_append files { file with reads := some chunks }
      have bytes : file.bytes =
          HostFile.bytes { file with reads := some chunks } ++ last.val := by
        simp [HostFile.bytes, reads]
      have more := cost_add (HostFile.bytes { file with reads := some chunks }).length
        last.property.2
      rw [bytes, length_append] at account
      exact contains.append_of_room start (by omega) result

theorem Contains.append_all {appended : List HostFile} {next : Image}
    (contains : Contains image records appended)
    (result : forEach files (addFile ROOTINO) image = .done () next) (inside : ¬ Overrun next) :
    ∃ after, Contains next after (appended ++ files) := by
  induction files generalizing image records appended with
  | nil =>
    cases result
    exact ⟨records, by rwa [append_nil]⟩
  | cons file rest ih =>
    obtain ⟨_, middle, isMiddle, result⟩ := bind_eq_done_iff.mp result
    have notYet := (grows_forEach grows_addFile rest).overrun result inside
    obtain ⟨after, contained⟩ := contains.append isMiddle notYet
    rw [append_cons]
    exact ih contained result

theorem fits_of_exits {final : Image} (exits : main files Image.truncated = .done () final)
    (inside : ¬ Overrun final) : files.length + 2 ≤ ninodes ∧ total files ≤ nblocks := by
  unfold main at exits
  have makesRoot := @wp_makeRoot fun _ => True
  generalize makeRoot = program at makesRoot exits
  have spec : program.wp Image.truncated (fun _ => True) fun rootino start =>
      rootino = ROOTINO ∧ ∃ records, Contains start records [] :=
    makesRoot fun start records contains => ⟨rfl, records, contains⟩
  obtain ⟨rootino, start, isStart, exits⟩ := bind_eq_done_iff.mp exits
  obtain ⟨rfl, records, contains⟩ := wp_of_done spec isStart
  obtain ⟨_, filled, isFilled, exits⟩ := bind_eq_done_iff.mp exits
  have fixes : Grows (fixRoot ROOTINO) := (grows_rinode _).bind fun _ => grows_winode _ _
  have marks : Grows (do balloc (asInt (← read Image.usedblocks))) :=
    (grows_read _).bind fun _ => (grows_assert _).bind fun _ => grows_wsect _ _
  have notYet := (fixes.bind fun _ => marks).overrun exits inside
  obtain ⟨after, contained⟩ := contains.append_all isFilled notYet
  exact contained.fits notYet

/-- Every block that `mkfs` assigns lies before the log, every inode number is
below `ninodes` and the bitmap is exact, if and only if the files fit. -/
theorem layout_respected_iff {files : List HostFile} {final : Image}
    (exits : main files Image.truncated = .done () final) :
    ((∀ b ∈ final.blocks, b < size - nlog) ∧ (∀ inum ∈ final.inodes, inum < ninodes) ∧
      ∀ b < BPB, getBit (final.sector (ninodes / IPB + 3)) b = true ↔ b < final.freeblock) ↔
    files.length + 2 ≤ ninodes ∧ total files ≤ nblocks := by
  constructor
  · rintro ⟨blocks, inodes, -⟩
    exact fits_of_exits exits (not_overrun_iff.mpr ⟨blocks, inodes⟩)
  rintro ⟨few, room⟩
  have manyBlocks : nblocks = 965 := rfl
  have logged : size - nlog = 994 := by decide
  have sector : ninodes / IPB + 3 = 28 := by decide
  obtain ⟨records, made⟩ := made_of_exits few room exits
  have freeblock := made.freeblock
  have freeinode := made.freeinode
  refine ⟨?_, ?_, ?_⟩
  · intro b assigned
    have bounds := (made.laid.taken b).1 assigned
    omega
  · intro inum assigned
    have bounds := (made.inodes inum).1 assigned
    omega
  · intro b _
    rw [sector, made.bits]
    exact decide_eq_true_iff

def zerosChunk : Chunk where
  val := replicate 512 0
  property := by
    rw [length_replicate]
    decide

def zerosFile (count : Nat) : HostFile where
  name := [122]
  reads := some (replicate count zerosChunk)
  isString := by decide

theorem length_zerosFile (count : Nat) : (zerosFile count).bytes.length = 512 * count := by
  have chunk : zerosChunk.val.length = 512 := length_replicate
  unfold zerosFile HostFile.bytes
  rw [Option.getD_some, map_replicate, length_flatten,
    map_replicate, sum_replicate_nat, chunk, Nat.mul_comm]

theorem total_replicate (many count : Nat) : total (replicate many (zerosFile count)) =
      cost (16 * (many + 2)) + many * cost (512 * count) := by
  unfold total
  rw [length_replicate, map_replicate, sum_replicate_nat, length_zerosFile]

theorem replicate_ends {many count : Nat} (few : many + 2 ≤ 208)
    (room : 29 + total (replicate many (zerosFile count)) ≤ 1024) (short : count ≤ 140) :
    ∃ final records, main (replicate many (zerosFile count)) Image.truncated = .done () final ∧
      Made final records (replicate many (zerosFile count)) := by
  refine main_ends (by rw [length_replicate]; exact few) room ?_
  intro file isFile
  rw [eq_of_mem_replicate isFile]
  have noSlash : slash ∉ [122] := by decide
  refine ⟨.inr noSlash, .inr ?_, .inr ?_⟩
  · exact Option.some_ne_none _
  · rw [length_zerosFile]
    omega

theorem layout_respected_twoFiles : ∃ final, main (replicate 2 (zerosFile 13)) Image.truncated =
        .done () final ∧
      (∀ b ∈ final.blocks, b < size - nlog) ∧
      (∀ inum ∈ final.inodes, inum < ninodes) ∧
      ∀ b < BPB, getBit (final.sector (ninodes / IPB + 3)) b = true ↔ b < final.freeblock := by
  have needs : total (replicate 2 (zerosFile 13)) = 29 := by
    rw [total_replicate]
    decide
  obtain ⟨final, _, exits, _⟩ := @replicate_ends 2 13 (by decide)
    (by omega) (by decide)
  refine ⟨final, exits, (layout_respected_iff exits).mpr ⟨by decide, ?_⟩⟩
  rw [needs]
  decide

/-- With 199 files an inode number, and with twelve files of eighty blocks a
block is out of range; `mkfs` ends with status 0. -/
theorem layout_overrun : (∃ final, main (replicate 199 (zerosFile 0)) Image.truncated =
        .done () final ∧ ∃ inum ∈ final.inodes, ninodes ≤ inum) ∧
      ∃ final, main (replicate 12 (zerosFile 80)) Image.truncated =
        .done () final ∧ ∃ b ∈ final.blocks, size - nlog ≤ b := by
  have manyNeed : total (replicate 199 (zerosFile 0)) = 7 := by
    rw [total_replicate]
    decide
  have largeNeed : total (replicate 12 (zerosFile 80)) = 973 := by
    rw [total_replicate]
    decide
  obtain ⟨many, _, manyExits, manyMade⟩ := @replicate_ends 199 0 (by decide)
    (by omega) (by decide)
  obtain ⟨large, _, largeExits, largeMade⟩ := @replicate_ends 12 80
    (by decide) (by omega) (by decide)
  have freeinode := manyMade.freeinode
  rw [length_replicate] at freeinode
  have freeblock := largeMade.freeblock
  refine ⟨⟨many, manyExits, 200, (manyMade.inodes 200).2 (by omega), ?_⟩,
    large, largeExits, 1001, (largeMade.laid.taken 1001).2 (by omega), ?_⟩
  · decide
  · decide

end Mkfs

end Xv6Kthreads
