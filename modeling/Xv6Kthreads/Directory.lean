import Xv6Kthreads.FsPaths
import Xv6Kthreads.SharedWrites
import Xv6Kthreads.SlotMap

/-!
# Directories as finite maps

The entries of a directory are the slots of a finite map from names, cut to
`DIRSIZ` characters, to inode numbers.  `dirlookup` looks a name up, `dirlink`
fills an empty entry or appends one, and `sys_unlink` clears an entry.  The
directory may have holes, which the first read fills with a block of zeros.
-/

namespace Xv6Kthreads

namespace FileSystem

open Sections SlotMap Function Act SharedWrites

/-- A field of the copy of a locked inode is changed and written back. -/
def updateInode (ip : Entry) (change : Dinode → Dinode) : Section Unit := do
  modify fun fs => fs.setCopy ip (change (fs.inode ip).copy)
  iupdate ip

/-- What `sys_unlink` does to the directory when it has found the entry. -/
def unlinkClear [sb : Superblock] (dp ip : Entry) (off : Nat) : Section Unit := do
  let written ← writei dp (fun _ => 0) off direntSize
  if written = direntSize then do
    let type ← read fun fs => (fs.inode ip).copy.type
    if type = .dir then
      updateInode dp fun inode => { inode with nlink := inode.nlink - 1 }
    else
      pure ()
  else
    panic .unlinkWritei

def decodeDirent (de : Bytes) : Option (List UInt8 × Nat) :=
  if direntInum de = 0 then none
  else some (chars DIRSIZ (direntName de), direntInum de)

theorem decodeDirent_congr {de other : Bytes} (same : ∀ index < 16, de index = other index) :
    decodeDirent de = decodeDirent other := by
  have number : direntInum de = direntInum other := by
    unfold direntInum
    rw [same 0 (by omega), same 1 (by omega)]
  have name : chars DIRSIZ (direntName de) = chars DIRSIZ (direntName other) :=
    chars_congr fun index inside _ => same (index + 2) (by unfold DIRSIZ at inside; omega)
  rw [decodeDirent, decodeDirent, number, name]

def nameKey (name : Path) : List UInt8 :=
  chars DIRSIZ (cString name)

theorem decodeDirent_mkDirent {inum : Nat} (positive : 0 < inum)
    (short : inum < 65536) (name : Path) :
    decodeDirent (mkDirent inum (cString name)) = some (nameKey name, inum) := by
  have number : direntInum (mkDirent inum (cString name)) = inum := by
    simp only [direntInum, mkDirent, if_pos, if_neg Nat.one_ne_zero, UInt8.toNat_ofNat']
    omega
  have key : direntName (mkDirent inum (cString name)) = strncpy (cString name) := rfl
  rw [decodeDirent, number, if_neg (by omega), key, chars_strncpy]
  rfl

theorem decodeDirent_eq_some_iff {de : Bytes} {name : Path} {inum : Nat} :
    decodeDirent de = some (nameKey name, inum) ↔
      (direntInum de ≠ 0 ∧ namecmp (cString name) (direntName de) = 0) ∧ direntInum de = inum := by
  rw [namecmp, strncmp_eq_zero_iff, decodeDirent]
  by_cases isEmpty : direntInum de = 0
  · simp [isEmpty]
  · simp [isEmpty, nameKey, eq_comm]

def Fs.table (fs : Fs) (dp : Entry) : Table (List UInt8) Nat where
  slots k := decodeDirent fun index =>
    (fs.inode dp).copy.byteAt fs.block (16 * k + index)
  count := (fs.inode dp).copy.size / direntSize

section View

variable [sb : Superblock] {others : Nat → Dinode} {fs middle after : Fs}
  {dp ip : Entry} {inum k : Nat} {places : Finset Place} {allowed : Stop → Prop} {name : Path}

structure Directory (others : Nat → Dinode) (fs : Fs) (dp : Entry) : Prop where
  type : (fs.inode dp).copy.type = .dir
  whole : (fs.inode dp).copy.size % 16 = 0
  small : (fs.inode dp).copy.size ≤ MAXFILE * BSIZE
  used : 0 < (fs.inode dp).ref
  owned : (fs.volume others dp).Owned

omit sb in
theorem table_congr (size : (after.inode dp).copy.size = (fs.inode dp).copy.size)
    (bytes : ∀ off, (after.inode dp).copy.byteAt after.block off =
      (fs.inode dp).copy.byteAt fs.block off) :
    after.table dp = fs.table dp := by
  unfold Fs.table
  simp only [size, bytes]

theorem Filled.table (filled : Filled others dp places fs after) :
    after.table dp = fs.table dp := by
  refine table_congr (by rw [filled.copy]) fun off => ?_
  have bytes := filled.byteAt (fs.inode dp).inum off
  rwa [fs.volume_own, ← filled.changes.inum, after.volume_own] at bytes

theorem Filled.directory (filled : Filled others dp places fs after)
    (directory : Directory others fs dp) : Directory others after dp := by
  refine ⟨?_, ?_, ?_, ?_, filled.owned⟩
  · rw [filled.copy, directory.type]
  · rw [filled.copy, directory.whole]
  · rw [filled.copy]
    exact directory.small
  · rw [filled.changes.own]
    exact directory.used

structure SameDirectory (dp : Entry) (fs after : Fs) : Prop where
  block : after.block = fs.block
  copy : (after.inode dp).copy = (fs.inode dp).copy
  inum : (after.inode dp).inum = (fs.inode dp).inum
  used : 0 < (after.inode dp).ref

omit sb in
theorem SameDirectory.table (same : SameDirectory dp fs after) : after.table dp = fs.table dp := by
  unfold Fs.table
  rw [same.block, same.copy]

theorem SameDirectory.directory (same : SameDirectory dp fs after)
    (directory : Directory others fs dp) : Directory others after dp := by
  obtain ⟨block, copy, inum, used⟩ := same
  refine ⟨by rw [copy, directory.type], by rw [copy, directory.whole], ?_, used, ?_⟩
  · rw [copy]
    exact directory.small
  · have owned := directory.owned
    unfold Fs.volume at owned ⊢
    rwa [block, copy, inum]

/-! ### Reading entries -/

section Reading

variable (directory : Directory others fs dp)
  (full : ¬ fs.Room others dp places → allowed (.panic .ballocOutOfBlocks))
  (needs : needed 0 (fs.inode dp).copy.size ⊆ places)

include directory full needs

theorem wp_readDirent {message : Panic} {post : Bytes → Fs → Prop}
    (inside : k < (fs.table dp).count)
    (holds : ∀ de after, Filled others dp places fs after →
      decodeDirent de = (fs.table dp).slots k → post de after) :
    (readDirent dp (16 * k) message).wp fs allowed post := by
  have below : 16 * k + 16 ≤ (fs.inode dp).copy.size := by
    have isCount : k < (fs.inode dp).copy.size / 16 := inside
    omega
  have limit : (fs.inode dp).copy.size ≤ 71680 := directory.small
  have whole : transferred (16 * k) 16 = 16 := by
    unfold transferred BSIZE
    omega
  have loop : readiLoop dp direntSize (16 * k) direntSize = readiLoop dp (15 + 1) (16 * k) 16 := rfl
  have count : readCount (fs.inode dp).copy.size (16 * k) direntSize = some direntSize := by
    rw [readCount_eq (by omega) (by unfold direntSize; omega),
      Nat.min_eq_left (by unfold direntSize; omega)]
  unfold readDirent readi
  rw [wp_bind, wp_bind, wp_read, count]
  dsimp only
  rw [wp_bind, loop, readiLoop, if_neg (by decide), wp_bind]
  have inRange : 16 * k / BSIZE < MAXFILE := by
    change 16 * k / 512 < 140
    omega
  have isNeeded : path (16 * k / BSIZE) ⊆ places :=
    (path_subset_needed inRange (by unfold BSIZE; omega) (by unfold BSIZE; omega)).trans needs
  refine wp_bmap directory.owned full inRange isNeeded ?_
  intro after place filled isLeaf nonzero
  rw [whole]
  refine holds _ after filled ?_
  rw [← filled.table]
  refine decodeDirent_congr fun index small => ?_
  have position : (16 * k + index) % 512 = 16 * k % 512 + index := by omega
  have sameBlock : (16 * k + index) / 512 = 16 * k / BSIZE := by
    unfold BSIZE
    omega
  unfold Dinode.byteAt Dinode.dataAt blockBytes
  dsimp only
  rw [if_pos small, sameBlock, isLeaf, position]
  dsimp only
  rw [if_neg nonzero]
  rfl

omit full needs in
theorem offset_lt_iff : 16 * k < (fs.inode dp).copy.size ↔ k < (fs.table dp).count := by
  have whole := directory.whole
  change _ ↔ k < (fs.inode dp).copy.size / 16
  omega

/-- The loop of `dirlookup` finds an entry with the name if there is one. -/
theorem wp_dirlookupLoop {count : Nat} {post : Option (Nat × Nat) → Fs → Prop}
    (enough : (fs.table dp).count < k + count)
    (absent : ∀ after, Filled others dp places fs after →
      (∀ j, k ≤ j → j < (fs.table dp).count → ∀ inum,
        (fs.table dp).slots j ≠ some (nameKey name, inum)) → post none after)
    (found : ∀ after j inum, Filled others dp places fs after → j < (fs.table dp).count →
      (fs.table dp).slots j = some (nameKey name, inum) → post (some (inum, 16 * j)) after) :
    (dirlookupLoop dp name count (16 * k)).wp fs allowed post := by
  induction count generalizing fs k with
  | zero => exact absent fs (Filled.refl directory.owned) (by omega)
  | succ count ih =>
    have bound := offset_lt_iff (k := k) directory
    rw [dirlookupLoop, wp_bind, wp_read]
    by_cases inside : k < (fs.table dp).count
    · rw [if_pos (bound.mpr inside), wp_bind]
      refine wp_readDirent directory full needs inside ?_
      intro de middle filled isEntry
      by_cases isMatch : direntInum de ≠ 0 ∧ namecmp (cString name) (direntName de) = 0
      · rw [if_pos isMatch]
        exact found middle k _ filled inside
          (isEntry.symm.trans (decodeDirent_eq_some_iff.mpr ⟨isMatch, rfl⟩))
      · rw [if_neg isMatch]
        have same := filled.table
        refine ih (k := k + 1) (filled.directory directory)
          (fun noRoom => full (noRoom ∘ filled.room)) (by rw [filled.copy]; exact needs)
          (by rw [same]; omega) ?_ ?_
        · intro after more none'
          rw [same] at none'
          refine absent after (filled.trans more) fun j above below inum isHere => ?_
          by_cases isFirst : j = k
          · rw [isFirst, ← isEntry] at isHere
            exact isMatch (decodeDirent_eq_some_iff.mp isHere).1
          · exact none' j (by omega) below inum isHere
        · intro after j inum more below isHere
          rw [same] at below isHere
          exact found after j inum (filled.trans more) below isHere
    · rw [if_neg (inside ∘ bound.mp)]
      exact absent fs (Filled.refl directory.owned) (by omega)

/-- The second loop of `dirlink` finds the first empty entry, or the end. -/
theorem wp_emptyDirent {count : Nat} {post : Nat → Fs → Prop}
    (enough : (fs.table dp).count < k + count) (start : k ≤ (fs.table dp).count)
    (holds : ∀ after j, Filled others dp places fs after → k ≤ j → j ≤ (fs.table dp).count →
      (∀ i, k ≤ i → i < j → (fs.table dp).slots i ≠ none) →
      (j < (fs.table dp).count → (fs.table dp).slots j = none) → post (16 * j) after) :
    (emptyDirent dp count (16 * k)).wp fs allowed post := by
  induction count generalizing fs k with
  | zero => omega
  | succ count ih =>
    have bound := offset_lt_iff (k := k) directory
    rw [emptyDirent, wp_bind, wp_read]
    by_cases inside : k < (fs.table dp).count
    · rw [if_pos (bound.mpr inside), wp_bind]
      refine wp_readDirent directory full needs inside ?_
      intro de middle filled isEntry
      by_cases isEmpty : direntInum de = 0
      · rw [if_pos isEmpty]
        refine holds middle k filled (Nat.le_refl k) start (by omega) fun _ => ?_
        rw [← isEntry, decodeDirent, if_pos isEmpty]
      · rw [if_neg isEmpty]
        have same := filled.table
        refine ih (k := k + 1) (filled.directory directory)
          (fun noRoom => full (noRoom ∘ filled.room)) (by rw [filled.copy]; exact needs)
          (by rw [same]; omega) (by rw [same]; omega) ?_
        intro after j more above most inUse atEnd
        rw [same] at most inUse atEnd
        refine holds after j (filled.trans more) (by omega) most (fun i first last => ?_) atEnd
        by_cases isFirst : i = k
        · rw [isFirst, ← isEntry, decodeDirent, if_neg isEmpty]
          nofun
        · exact inUse i (by omega) last
    · rw [if_neg (inside ∘ bound.mp)]
      exact holds fs k (Filled.refl directory.owned) (Nat.le_refl k) start (by omega) (by omega)

end Reading

/-! ### The inode cache -/

/-- What `iget` does: one more reference to an inode in the cache, or a new
entry. -/
inductive Gets (inum : Nat) (ip : Entry) (fs : Fs) : Fs → Prop where
  | known (used : 0 < (fs.inode ip).ref) (isInum : (fs.inode ip).inum = inum) :
      Gets inum ip fs (fs.setInode ip { fs.inode ip with ref := (fs.inode ip).ref + 1 })
  | fresh (empty : (fs.inode ip).ref = 0) : Gets inum ip fs (fs.setInode ip
        { fs.inode ip with inum := inum, ref := 1, busy := false, valid := false })

omit sb in
theorem wp_iget {post : Entry → Fs → Prop}
    (full : emptyEntry fs = none → allowed (.panic .igetNoInodes))
    (holds : ∀ ip after, Gets inum ip fs after → post ip after) :
    (iget inum).wp fs allowed post := by
  unfold iget
  rw [wp_bind, wp_read]
  cases isCached : cached fs inum with
  | some ip =>
    have here := List.find?_some isCached
    rw [Bool.and_eq_true, decide_eq_true_eq, decide_eq_true_eq] at here
    exact holds ip _ (.known here.1 here.2)
  | none =>
    rw [wp_bind, wp_read]
    cases isEmpty : emptyEntry fs with
    | none => exact full isEmpty
    | some ip => exact holds ip _ (.fresh (by simpa using List.find?_some isEmpty))

structure Idle (fs after : Fs) : Prop where
  rest : after = { fs with inode := after.inode }
  ref : ∀ entry, (after.inode entry).ref = (fs.inode entry).ref
  inode : ∀ entry, 0 < (fs.inode entry).ref → after.inode entry = fs.inode entry

/-- A reference that `iget` has just given is put back without freeing the
inode. -/
theorem Gets.wp_iput {post : Unit → Fs → Prop} (gets : Gets inum ip fs after)
    (holds : ∀ final, Idle fs final → post () final) :
    (iput ip).wp after allowed post := by
  have inode : ∀ (inode : Inode), (fs.setInode ip inode).inode ip = inode := fun _ => update_self ..
  have twice : ∀ first second : Inode, (fs.setInode ip first).setInode ip second =
      fs.setInode ip second := by
    intro first second
    simp only [Fs.setInode, update_idem]
  unfold iput iputStart
  rw [Prog.wp_bind, Prog.wp_atomic, wp_bind, wp_read]
  cases gets with
  | known used isInum =>
    rw [inode, if_neg (by dsimp only; omega), wp_bind, wp_modify, twice, inode]
    have back : fs.setInode ip { fs.inode ip with
        ref := (fs.inode ip).ref + 1 - 1 } = fs := by
      rw [Int.add_sub_cancel]
      simp only [Fs.setInode, update_eq_self]
    refine holds _ ?_
    rw [back]
    exact ⟨rfl, fun _ => rfl, fun _ _ => rfl⟩
  | fresh empty =>
    rw [inode, if_neg (by simp), wp_bind, wp_modify, twice, inode]
    refine holds _ ⟨rfl, fun entry => ?_, fun entry used => ?_⟩
    · by_cases same : entry = ip
      · rw [same, inode, empty]
        rfl
      · exact congrArg Inode.ref (update_of_ne same _ _)
    · have differs : entry ≠ ip := by
        rintro rfl
        omega
      exact update_of_ne differs _ _

omit sb in
theorem Idle.same (idle : Idle fs after) (used : 0 < (fs.inode dp).ref) :
    SameDirectory dp fs after := by
  have inode := idle.inode dp used
  refine ⟨by rw [idle.rest], by rw [inode], by rw [inode], ?_⟩
  rwa [inode]

omit sb in
theorem Gets.same (gets : Gets inum ip fs after) (used : 0 < (fs.inode dp).ref) :
    SameDirectory dp fs after := by
  have block : after.block = fs.block := by
    cases gets <;> rfl
  rcases eq_or_ne dp ip with rfl | isSame
  · cases gets with
    | known =>
      refine ⟨rfl, ?_, ?_, ?_⟩
      all_goals simp [Fs.setInode]
      omega
    | fresh empty => omega
  · have inode : after.inode dp = fs.inode dp := by
      cases gets <;> exact update_of_ne isSame _ _
    refine ⟨block, by rw [inode], by rw [inode], ?_⟩
    rwa [inode]

/-! ### The operations -/

theorem Filled.emptyEntry_eq (filled : Filled others dp places fs after) :
    emptyEntry after = emptyEntry fs := by
  unfold emptyEntry
  congr 1
  funext entry
  by_cases same : entry = dp
  · rw [same, filled.changes.own]
  · rw [filled.changes.others entry same]

section Writing

variable {src : Bytes} (wrote : Wrote others dp places src (16 * k) direntSize fs after)
  (isDirectory : Directory others fs dp)

include wrote

theorem Wrote.puts (most : k ≤ (fs.table dp).count) :
    Table.Puts k (decodeDirent src) (fs.table dp) (after.table dp) := by
  have sixteen : direntSize = 16 := rfl
  refine ⟨decodeDirent_congr fun index small => ?_, fun i differs =>
    decodeDirent_congr fun index small => ?_, ?_, most⟩
  · rw [wrote.bytes, if_pos (by omega), Nat.add_sub_cancel_left]
  · rw [wrote.bytes, if_neg (by omega)]
  · change _ / 16 = max (_ / 16) (k + 1)
    rw [wrote.size]
    omega

include isDirectory

theorem Wrote.directory (inside : 16 * k + direntSize ≤ MAXFILE * BSIZE) :
    Directory others after dp := by
  have sixteen : direntSize = 16 := rfl
  have whole := isDirectory.whole
  refine ⟨by rw [wrote.type, isDirectory.type], ?_, ?_, ?_, wrote.owned⟩
  · rw [wrote.size]
    omega
  · rw [wrote.size]
    exact Nat.max_le.mpr ⟨isDirectory.small, inside⟩
  · rw [wrote.changes.own]
    exact isDirectory.used

end Writing

theorem Directory.updated (directory : Directory others fs dp) (copy : Dinode)
    (type : copy.type = .dir) (size : copy.size = (fs.inode dp).copy.size)
    (addrs : copy.addrs = (fs.inode dp).copy.addrs) :
    Directory others (fs.updated dp copy) dp ∧ (fs.updated dp copy).table dp = fs.table dp := by
  have inode := fs.updated_inode dp copy
  have own := (fs.updated dp copy).volume_own others dp
  rw [inode] at own
  refine ⟨⟨?_, ?_, ?_, ?_, fs.owned_updated others dp addrs directory.owned⟩,
    table_congr (by rw [inode, size]) fun off => ?_⟩
  · rw [inode, type]
  · rw [inode, size, directory.whole]
  · rw [inode, size]
    exact directory.small
  · rw [inode]
    exact directory.used
  · have bytes := fs.byteAt_updated others dp addrs (fs.inode dp).inum off
    rwa [own, fs.volume_own, ← congrArg Inode.copy inode] at bytes

structure Linked (others : Nat → Dinode) (dp : Entry) (name : Path)
    (inum k : Nat) (fs after : Fs) : Prop where
  directory : Directory others after dp
  puts : Table.Puts k (some (nameKey name, inum)) (fs.table dp) (after.table dp)
  inUse : ∀ i < k, (fs.table dp).slots i ≠ none
  empty : k < (fs.table dp).count → (fs.table dp).slots k = none

/-- The directory has its maximum size and no empty entry. -/
def Crowded (dp : Entry) (fs : Fs) : Prop :=
  (fs.inode dp).copy.size = MAXFILE * BSIZE ∧
    ∀ i < (fs.table dp).count, (fs.table dp).slots i ≠ none

section Operations

variable (directory : Directory others fs dp)
  (full : ¬ fs.Room others dp places → allowed (.panic .ballocOutOfBlocks))

include directory full

theorem wp_dirlookup {post : Option (Entry × Nat) → Fs → Prop}
    (needs : needed 0 (fs.inode dp).copy.size ⊆ places)
    (noInodes : emptyEntry fs = none → allowed (.panic .igetNoInodes))
    (absent : ∀ after, Filled others dp places fs after →
      (fs.table dp).lookup (nameKey name) = none → post none after)
    (found : ∀ middle after ip j inum, Filled others dp places fs middle → j < (fs.table dp).count →
      (fs.table dp).slots j = some (nameKey name, inum) →
      Gets inum ip middle after → post (some (ip, 16 * j)) after) :
    (dirlookup dp name).wp fs allowed post := by
  unfold dirlookup dirlookupScan
  rw [Prog.wp_bind, Prog.wp_atomic, wp_bind, wp_read, if_pos directory.type]
  refine wp_dirlookupLoop (k := 0) directory full needs ?_ ?_ ?_
  · rw [Nat.zero_add]
    exact Nat.lt_succ_self _
  · intro after filled noEntry
    exact absent after filled (Table.lookup_eq_none_iff.mpr fun j below =>
      noEntry j (Nat.zero_le j) below)
  · intro middle j inum filled below isEntry
    rw [Prog.wp_bind, Prog.wp_atomic]
    refine wp_iget (fun isFull => noInodes (filled.emptyEntry_eq ▸ isFull)) ?_
    intro ip after gets
    exact found middle after ip j inum filled below isEntry gets

theorem wp_dirlinkWrite {post : Unit → Fs → Prop}
    (needs : needed 0 ((fs.inode dp).copy.size + direntSize) ⊆ places)
    (crowded : Crowded dp fs → allowed (.panic .dirlink))
    (positive : 0 < inum) (short : inum < 65536)
    (holds : ∀ after j, Linked others dp name inum j fs after → post () after) :
    (dirlinkWrite dp name inum).wp fs allowed post := by
  have sixteen : direntSize = 16 := rfl
  have limit : MAXFILE * BSIZE = 71680 := rfl
  have small := directory.small
  have count : (fs.table dp).count = (fs.inode dp).copy.size / 16 := rfl
  unfold dirlinkWrite
  rw [wp_bind, wp_read, wp_bind]
  refine wp_emptyDirent (k := 0) directory full
    ((needed_subset (Nat.le_refl 0) (by omega)).trans needs)
    (by rw [Nat.zero_add]; exact Nat.lt_succ_self _) (Nat.zero_le _) ?_
  intro middle j filled _ most inUse atEnd
  have size : (middle.inode dp).copy.size = (fs.inode dp).copy.size := by
    rw [filled.copy]
  rw [wp_bind]
  by_cases fits : 16 * j + direntSize ≤ MAXFILE * BSIZE
  · refine wp_writei filled.owned (fun noRoom => full (noRoom ∘ filled.room)) (by omega) fits
      ((needed_subset (Nat.zero_le _) (by omega)).trans needs) ?_
    intro after wrote
    have isDirectory := filled.directory directory
    have puts := wrote.puts (by rw [filled.table]; exact most)
    rw [filled.table, decodeDirent_mkDirent positive short] at puts
    exact holds after j ⟨wrote.directory isDirectory fits, puts,
      fun i below => inUse i (Nat.zero_le i) below, atEnd⟩
  · unfold writei
    rw [wp_bind, wp_read, if_neg (by omega), if_pos (by omega), wp_pure,
      if_neg (by decide)]
    exact crowded ⟨by omega, fun i below => inUse i (Nat.zero_le i) (by omega)⟩

/-- `dirlink` fails if the name is in the directory, and else adds it. -/
theorem wp_dirlink {post : Int → Fs → Prop}
    (needs : needed 0 ((fs.inode dp).copy.size + direntSize) ⊆ places)
    (noInodes : emptyEntry fs = none → allowed (.panic .igetNoInodes))
    (crowded : Crowded dp fs → allowed (.panic .dirlink))
    (positive : 0 < inum) (short : inum < 65536)
    (isThere : ∀ after, Directory others after dp → after.table dp = fs.table dp →
      (fs.table dp).lookup (nameKey name) ≠ none → post (-1) after)
    (added : ∀ after j, (fs.table dp).lookup (nameKey name) = none →
      Linked others dp name inum j fs after → post 0 after) :
    (dirlink dp name inum).wp fs allowed post := by
  unfold dirlink
  rw [Prog.wp_bind]
  refine wp_dirlookup directory full
    ((needed_subset (Nat.le_refl 0) (by omega)).trans needs) noInodes ?_ ?_
  · intro middle filled isAbsent
    rw [Prog.wp_bind, Prog.wp_atomic]
    refine wp_dirlinkWrite (filled.directory directory)
      (fun noRoom => full (noRoom ∘ filled.room)) (by rw [filled.copy]; exact needs) ?_
      positive short ?_
    · rw [Crowded, filled.table, filled.copy]
      exact crowded
    · intro after j linked
      obtain ⟨isDirectory, puts, inUse, empty⟩ := linked
      rw [filled.table] at puts inUse empty
      exact added after j isAbsent ⟨isDirectory, puts, inUse, empty⟩
  · intro middle after ip j found filled inside isEntry gets
    rw [Prog.wp_bind]
    refine gets.wp_iput ?_
    intro final idle
    have isDirectory := filled.directory directory
    have same := idle.same isDirectory.used
    exact isThere final (same.directory isDirectory) (same.table.trans filled.table)
      fun isNone => Table.lookup_eq_none_iff.mp isNone j inside found isEntry

theorem wp_unlinkClear {post : Unit → Fs → Prop}
    (needs : needed 0 (fs.inode dp).copy.size ⊆ places) (inside : k < (fs.table dp).count)
    (holds : ∀ after, Directory others after dp →
      Table.Puts k none (fs.table dp) (after.table dp) → post () after) :
    (unlinkClear dp ip (16 * k)).wp fs allowed post := by
  have below := (offset_lt_iff directory).mpr inside
  have limit : (fs.inode dp).copy.size ≤ 71680 := directory.small
  have fits : 16 * k + direntSize ≤ MAXFILE * BSIZE := by
    change 16 * k + 16 ≤ 71680
    omega
  unfold unlinkClear
  rw [wp_bind]
  have whole : 16 * k + direntSize ≤ 0 + (fs.inode dp).copy.size := by
    have isWhole := directory.whole
    change 16 * k + 16 ≤ _
    omega
  refine wp_writei directory.owned full (Nat.le_of_lt below) fits
    ((needed_subset (Nat.zero_le _) whole).trans needs) ?_
  intro middle wrote
  have isDirectory := wrote.directory directory fits
  have puts := wrote.puts (Nat.le_of_lt inside)
  rw [if_pos rfl, wp_bind, wp_read]
  split
  · unfold updateInode
    rw [wp_bind, wp_modify, wp_iupdate_setCopy]
    obtain ⟨stays, same⟩ := isDirectory.updated { (middle.inode dp).copy with
      nlink := (middle.inode dp).copy.nlink - 1 } isDirectory.type rfl rfl
    exact holds _ stays (same ▸ puts)
  · exact holds middle isDirectory puts

end Operations

/-! ### Runs -/

omit sb in
theorem Fs.room_iff (fs : Fs) (others other : Nat → Dinode) (ip : Entry) [Superblock] :
    fs.Room others ip places ↔ fs.Room other ip places := by
  unfold Fs.Room Volume.Room Volume.missing
  simp only [fs.pointer_volume]
  rfl

/-- The free blocks do not suffice for the missing ones among the first `size`
bytes of the directory, or the inode cache is full. -/
def Exhausted (dp : Entry) (fs : Fs) (size : Nat) (stop : Stop) : Prop :=
  stop = .panic .ballocOutOfBlocks ∧ ¬ fs.Room fs.dinode dp (needed 0 size) ∨
    stop = .panic .igetNoInodes ∧ emptyEntry fs = none

theorem exhausted_of_room {size : Nat} (noRoom : ¬ fs.Room others dp (needed 0 size)) :
    Exhausted dp fs size (.panic .ballocOutOfBlocks) :=
  .inl ⟨rfl, noRoom ∘ (fs.room_iff ..).mp⟩

/-- A directory in which no two entries have the same name. -/
def IsMap (fs : Fs) (dp : Entry) : Prop :=
  (∃ others, Directory others fs dp) ∧ (fs.table dp).Distinct

/-- What can happen while the inode of a directory is in use: `dirlink`,
`sys_unlink` clears an entry, or something else. -/
inductive DirLabel where
  | link (name : Path) (inum : Nat)
  | clear (ip : Entry) (off : Nat)
  | others (after : Fs)

def finalState {α : Type} : Outcome Fs Stop α → Option Fs
  | .done _ after => some after
  | .stopped _ => none

def dirStep (dp : Entry) (fs : Fs) : DirLabel → Option Fs
  | .link name inum => finalState ((dirlink dp name inum).run fs)
  | .clear ip off => finalState (unlinkClear dp ip off fs)
  | .others after => some after

/-- Entries can store the inode numbers, and only entries in use are cleared. -/
def Admissible (dp : Entry) (fs : Fs) : DirLabel → Prop
  | .link _ inum => 0 < inum ∧ inum < 65536
  | .clear _ off => ∃ k < (fs.table dp).count, off = 16 * k ∧ (fs.table dp).slots k ≠ none
  | .others after => (∃ others, Directory others after dp) ∧ after.table dp = fs.table dp

omit sb in
theorem of_finalState {α : Type} {act : Section α} {post : Fs → Prop}
    (holds : act.wp fs allowed fun _ => post) (result : finalState (act fs) = some after) :
    post after := by
  cases isDone : act fs with
  | done value final =>
    rw [isDone] at result
    cases result
    exact wp_of_done holds isDone
  | stopped =>
    rw [isDone] at result
    cases result

theorem IsMap.step (isMap : IsMap fs dp) {label : DirLabel}
    (admissible : Admissible dp fs label) (stepTo : dirStep dp fs label = some after) :
    IsMap after dp := by
  obtain ⟨⟨others, directory⟩, distinct⟩ := isMap
  cases label with
  | link name inum =>
    have result : (dirlink dp name inum).wp fs (fun _ => True)
        fun _ => (IsMap · dp) := by
      refine wp_dirlink directory (fun _ => trivial) (Finset.subset_univ _) (fun _ => trivial)
        (fun _ => trivial) admissible.1 admissible.2 ?_ ?_
      · intro after isDirectory same _
        exact ⟨⟨others, isDirectory⟩, by rwa [same]⟩
      · intro after j absent linked
        exact ⟨⟨others, linked.directory⟩, (linked.puts.insert linked.empty distinct absent).1⟩
    exact of_finalState result stepTo
  | clear ip off =>
    obtain ⟨k, inside, rfl, inUse⟩ := admissible
    obtain ⟨entry, isEntry⟩ := Option.ne_none_iff_exists'.mp inUse
    have result : (unlinkClear dp ip (16 * k)).wp fs (fun _ => True)
        fun _ => (IsMap · dp) :=
      wp_unlinkClear directory (fun _ => trivial) (Finset.subset_univ _) inside
        fun after isDirectory puts =>
          ⟨⟨others, isDirectory⟩, (puts.erase inside isEntry distinct).1⟩
    exact of_finalState result stepTo
  | others =>
    cases stepTo
    exact ⟨admissible.1, by rwa [admissible.2]⟩

def Returns (table : Table (List UInt8) Nat) (key : List UInt8) (after : Fs) :
    Option (Entry × Nat) → Prop
  | none => table.lookup key = none
  | some (ip, off) => table.lookup key = some (after.inode ip).inum ∧
      ∃ k < table.count, off = 16 * k ∧ table.slots k = some (key, (after.inode ip).inum)

/-- A directory is a finite map from names cut to `DIRSIZ` characters, with
`dirlookup`, `dirlink` and the clearing of an entry as its operations. -/
theorem directory_is_finite_map {start : Fs} (isMap : IsMap start dp)
    (run : LabelledRun.GuardedReaches (dirStep dp) (Admissible dp) start fs) :
    (fs.table dp).Distinct ∧ ∀ a : Path, 0 ∉ a →
      ((dirlookup dp a).wp fs (Exhausted dp fs (fs.inode dp).copy.size) fun found after =>
        after.table dp = fs.table dp ∧ Returns (fs.table dp) (a.take DIRSIZ) after found) ∧
      (∀ i, 0 < i → i < 65536 → (fs.inode dp).copy.size < MAXFILE * BSIZE →
        (dirlink dp a i).wp fs (Exhausted dp fs ((fs.inode dp).copy.size + direntSize))
          fun result after =>
          if (fs.table dp).lookup (a.take DIRSIZ) = none then
            result = 0 ∧ (after.table dp).lookup (a.take DIRSIZ) = some i ∧
            (∀ other, other ≠ a.take DIRSIZ →
              (after.table dp).lookup other = (fs.table dp).lookup other) ∧
            (∀ k < (fs.table dp).count, (fs.table dp).slots k ≠ none →
              (after.table dp).slots k = (fs.table dp).slots k) ∧
            ((∃ k < (fs.table dp).count, (fs.table dp).slots k = none) →
              (after.table dp).count = (fs.table dp).count)
          else result = -1 ∧ after.table dp = fs.table dp) ∧
      ∀ k < (fs.table dp).count, ∀ i, (fs.table dp).slots k = some (a.take DIRSIZ, i) → ∀ ip,
          (unlinkClear dp ip (16 * k)).wp fs (Exhausted dp fs (fs.inode dp).copy.size)
            fun _ after =>
            (after.table dp).lookup (a.take DIRSIZ) = none ∧
            ∀ other, other ≠ a.take DIRSIZ →
              (after.table dp).lookup other = (fs.table dp).lookup other := by
  obtain ⟨⟨others, directory⟩, distinct⟩ : IsMap fs dp :=
    run.invariant (IsMap · dp) isMap fun _ _ _ holds admissible stepTo =>
      holds.step admissible stepTo
  refine ⟨distinct, fun a isString => ?_⟩
  have key : nameKey a = a.take DIRSIZ := chars_cString DIRSIZ isString
  rw [← key]
  refine ⟨?_, fun i positive short small => ?_, fun k inside i isEntry ip => ?_⟩
  · refine wp_dirlookup directory exhausted_of_room (Finset.Subset.refl _)
      (fun isFull => .inr ⟨rfl, isFull⟩) ?_ ?_
    · intro after filled absent
      exact ⟨filled.table, absent⟩
    · intro middle after ip j inum filled inside isEntry gets
      have same := gets.same (filled.directory directory).used
      have isInum : (after.inode ip).inum = inum := by
        cases gets with
        | known _ isInum => simp [Fs.setInode, isInum]
        | fresh => simp [Fs.setInode]
      refine ⟨same.table.trans filled.table, ?_, j, inside, rfl, ?_⟩
      · rw [isInum]
        exact distinct.lookup_eq_some_iff.mpr ⟨j, inside, isEntry⟩
      · rw [isInum, isEntry]
  · refine wp_dirlink directory exhausted_of_room (Finset.Subset.refl _)
      (fun isFull => .inr ⟨rfl, isFull⟩) (fun crowded => absurd crowded.1 (by omega))
      positive short ?_ ?_
    · intro after isDirectory same isThere
      rw [if_neg isThere]
      exact ⟨rfl, same⟩
    · intro after j absent linked
      obtain ⟨_, puts, inUse, empty⟩ := linked
      obtain ⟨_, isNew, rest⟩ := puts.insert empty distinct absent
      rw [if_pos absent]
      refine ⟨rfl, isNew, rest, fun k inside used => puts.rest k ?_, ?_⟩
      · rintro rfl
        exact used (empty inside)
      · rintro ⟨k, inside, isFree⟩
        have notPast : ¬ k < j := fun before => inUse k before isFree
        have count := puts.count
        omega
  · exact wp_unlinkClear directory exhausted_of_room (Finset.Subset.refl _) inside
      fun after _ puts => (puts.erase inside isEntry distinct).2

end View

/-- An empty directory, whose inode is the only one in the cache. -/
def emptyDirectory : Fs :=
  { emptyFile.updated firstEntry { Dinode.zeroed with type := .dir } with
    inode := fun entry =>
      if entry = firstEntry then ⟨2, 1, false, true, { Dinode.zeroed with type := .dir }⟩
      else ⟨0, 0, false, false, Dinode.zeroed⟩ }

/-- A name of `DIRSIZ` characters. -/
def longName : Path :=
  List.replicate DIRSIZ 98

set_option synthInstance.maxSize 400 in
/-- The slot of a cleared entry is used again, and a name with more characters
than `DIRSIZ` is found under its first ones. -/
theorem directory_is_finite_map_reuse : ∃ after found final, LabelledRun.GuardedReaches
      (@dirStep smallDisk firstEntry) (@Admissible smallDisk firstEntry) emptyDirectory after ∧
    (after.table firstEntry).count = 2 ∧ (after.table firstEntry).lookup [97] = none ∧
    (after.table firstEntry).lookup [99] = some 7 ∧
    (@dirlookup smallDisk firstEntry (longName ++ [100])).run after = .done (some found) final ∧
    (final.inode found.1).inum = 6 := by
  let _ := smallDisk
  have isMap : IsMap emptyDirectory firstEntry := by
    refine ⟨⟨fun _ => Dinode.zeroed, Directory.mk rfl rfl (by decide) (by decide) ?_⟩,
      fun i j _ _ _ below => absurd below (Nat.not_lt_zero i)⟩
    exact Fs.owned_updated _ emptyFile firstEntry
      (show { Dinode.zeroed with type := InodeType.dir }.addrs = _ from rfl) shared_emptyFile.owned
  obtain ⟨first, isFirst, second, isSecond, inside, inUse, third, isThird, after, isAfter, count,
      noEntry, isNew, isLong, size, inum, room, hasInode⟩ :
      ∃ first ∈ dirStep firstEntry emptyDirectory (.link [97] 5),
      ∃ second ∈ dirStep firstEntry first (.link longName 6),
      0 < (second.table firstEntry).count ∧ (second.table firstEntry).slots 0 ≠ none ∧
      ∃ third ∈ dirStep firstEntry second (.clear firstEntry 0),
      ∃ after ∈ dirStep firstEntry third (.link [99] 7),
      (after.table firstEntry).count = 2 ∧ (after.table firstEntry).lookup [97] = none ∧
      (after.table firstEntry).lookup [99] = some 7 ∧
      (after.table firstEntry).lookup longName = some 6 ∧
      (after.inode firstEntry).copy.size = 32 ∧ (after.inode firstEntry).inum = 2 ∧
      ((after.volume after.dinode firstEntry).missing 2 (needed 0 32)).card ≤
        (after.volume after.dinode firstEntry).free.card ∧ emptyEntry after ≠ none := by
    decide +kernel
  have reaches : LabelledRun.GuardedReaches (dirStep firstEntry) (Admissible firstEntry)
      emptyDirectory after :=
    .head ⟨.link [97] 5, ⟨by decide, by decide⟩, isFirst⟩
      (.head ⟨.link longName 6, ⟨by decide, by decide⟩, isSecond⟩
        (.head ⟨.clear firstEntry 0, ⟨0, inside, rfl, inUse⟩, isThird⟩
          (.single ⟨.link [99] 7, ⟨by decide, by decide⟩, isAfter⟩)))
  have lookup := ((directory_is_finite_map isMap reaches).2 (longName ++ [100]) (by decide)).1
  have cannot : ∀ reason, ¬ Exhausted firstEntry after (after.inode firstEntry).copy.size
      reason := by
    rintro reason (⟨-, noRoom⟩ | ⟨-, isFull⟩)
    · rw [size, Fs.Room, inum] at noRoom
      exact noRoom room
    · exact hasInode isFull
  obtain ⟨value, final, isDone, -, returns⟩ := Act.exists_done_of cannot lookup
  cases value with
  | none => cases isLong.symm.trans returns
  | some found =>
    exact ⟨after, found, final, reaches, count, noEntry, isNew, isDone,
      (Option.some.inj (isLong.symm.trans returns.1)).symm⟩

end FileSystem

end Xv6Kthreads
