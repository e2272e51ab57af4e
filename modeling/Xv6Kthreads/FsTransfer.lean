import Xv6Kthreads.FsInodes

/-!
# Reading and writing an inode

On an inode that has the blocks that are read, `readi` returns their bytes and
leaves the whole state as it was.  `writei` replaces a range of bytes: every
block that it touches is allocated if it is missing, the other bytes of this and
of all other inodes stay, and the blocks still have at most one owner.
-/

namespace Xv6Kthreads

namespace FileSystem

open Sections Function Act

variable [sb : Superblock] {others : Nat → Dinode} {fs middle after : Fs}
  {ip : Entry} {places : Finset Place} {allowed : Stop → Prop}

omit sb in
theorem transferred_le (off left : Nat) : off + transferred off left ≤ (off / 512 + 1) * 512 := by
  unfold transferred BSIZE
  omega

omit sb in
theorem transferred_pos (off : Nat) {left : Nat} (more : left ≠ 0) :
    0 < transferred off left ∧ transferred off left ≤ left := by
  unfold transferred BSIZE
  omega

/-! ### Reading -/

theorem bmapAddr_eq {index : Fin 13} (nonzero : (fs.inode ip).copy.addrs index ≠ 0) :
    bmapAddr ip index fs = .done ((fs.inode ip).copy.addrs index) fs := by
  apply eq_done
  unfold bmapAddr
  rw [wp_bind, wp_read, if_neg nonzero, wp_pure]
  exact ⟨rfl, rfl⟩

theorem bmap_eq {bn : Nat} {place : Place} (isLeaf : leaf bn = some place)
    (nonzero : (fs.inode ip).copy.pointer fs.block place ≠ 0) :
    bmap ip bn fs = .done ((fs.inode ip).copy.pointer fs.block place) fs := by
  by_cases direct : bn < 12
  · rw [leaf_direct direct, Option.some.injEq] at isLeaf
    subst isLeaf
    unfold bmap
    rw [dif_pos direct]
    exact bmapAddr_eq nonzero
  · by_cases inside : bn - 12 < 128
    · rw [leaf_indirect direct inside, Option.some.injEq] at isLeaf
      subst isLeaf
      have table : (fs.inode ip).copy.addrs (.last 12) ≠ 0 := by
        intro none
        exact nonzero (if_pos none)
      have entry : (fs.inode ip).copy.pointer fs.block (.entry ⟨bn - 12, inside⟩) =
            (fs.block ((fs.inode ip).copy.addrs (.last 12))).word (bn - 12) :=
        if_neg table
      rw [entry] at nonzero ⊢
      have within : bn - 12 < NINDIRECT := inside
      have found := bmapAddr_eq table
      apply eq_done
      unfold bmap bread
      rw [dif_neg direct, if_pos within, wp_bind, wp_iff_of_done found, wp_bind, wp_read]
      rw [if_neg nonzero, wp_pure]
      exact ⟨rfl, rfl⟩
    · rw [leaf, dif_neg direct, dif_neg inside] at isLeaf
      exact absurd isLeaf (by simp)

theorem readiLoop_eq {fuel off left : Nat} (enough : left ≤ fuel)
    (has : ∀ bn, off / 512 ≤ bn → bn * 512 < off + left → (fs.inode ip).copy.Has fs.block bn) :
    ∃ data, readiLoop ip fuel off left fs = .done data fs ∧ ∀ index < left,
        data index = (fs.inode ip).copy.byteAt fs.block (off + index) := by
  induction fuel generalizing off left with
  | zero =>
    have isZero : left = 0 := by omega
    subst isZero
    exact ⟨_, rfl, fun index inside => absurd inside (Nat.not_lt_zero _)⟩
  | succ fuel ih =>
    rcases eq_or_ne left 0 with rfl | isZero
    · exact ⟨_, rfl, fun index inside => absurd inside (Nat.not_lt_zero _)⟩
    obtain ⟨positive, most⟩ := transferred_pos off isZero
    have within := transferred_le off left
    obtain ⟨place, isLeaf, nonzero⟩ := has (off / 512) (Nat.le_refl _) (by omega)
    have found := bmap_eq isLeaf nonzero
    generalize isCut : transferred off left = m at positive most within
    obtain ⟨following, rest, agrees⟩ := @ih (off + m) (left - m) (by omega)
      (fun bn above below => has bn (by omega) (by omega))
    refine ⟨fun index => if index < m then
      blockBytes (fs.block ((fs.inode ip).copy.pointer fs.block place))
        (off % 512) index else following (index - m), ?_, ?_⟩
    · apply eq_done
      rw [readiLoop, if_neg isZero, wp_bind]
      unfold bread BSIZE
      rw [wp_iff_of_done found, wp_bind, wp_read]
      rw [isCut, wp_bind, wp_iff_of_done rest, wp_pure]
      exact ⟨rfl, rfl⟩
    · intro index inside
      dsimp only
      split
      next isHere =>
        have sameBlock : (off + index) / 512 = off / 512 := by omega
        have position : (off + index) % 512 = off % 512 + index := by omega
        unfold Dinode.byteAt Dinode.dataAt blockBytes
        rw [sameBlock, isLeaf]
        dsimp only
        rw [if_neg nonzero, position, Nat.add_zero]
      next isLater =>
        rw [agrees (index - m) (by omega)]
        congr 1
        omega

/-- `readi` over blocks that exist changes nothing and returns their
bytes. -/
theorem readi_eq {off n : Nat} (inside : off ≤ (fs.inode ip).copy.size) (small : off + n < 2 ^ 32)
    (has : ∀ bn, off / 512 ≤ bn → bn * 512 < min (off + n) (fs.inode ip).copy.size →
        (fs.inode ip).copy.Has fs.block bn) :
    ∃ data, readi ip off n fs = .done (((min n ((fs.inode ip).copy.size - off) : Nat) : Int), data)
          fs ∧
      ∀ index < min n ((fs.inode ip).copy.size - off),
        data index = (fs.inode ip).copy.byteAt fs.block (off + index) := by
  obtain ⟨data, loop, agrees⟩ := readiLoop_eq (Nat.le_refl (min n ((fs.inode ip).copy.size - off)))
    (fun bn above below => has bn above (by omega))
  refine ⟨data, ?_, agrees⟩
  apply eq_done
  unfold readi
  rw [wp_bind, wp_read, readCount_eq inside small]
  dsimp only
  rw [wp_bind, wp_iff_of_done loop, wp_pure]
  exact ⟨rfl, rfl⟩

theorem readi_unchanged (noHoles : (fs.inode ip).copy.NoHoles fs.block) (off n : Nat) :
    ∃ result, readi ip off n fs = .done result fs := by
  cases isCount : readCount (fs.inode ip).copy.size off n with
  | none =>
    refine ⟨(-1, fun _ => 0), eq_done ?_⟩
    unfold readi
    rw [wp_bind, wp_read, isCount]
    exact ⟨rfl, rfl⟩
  | some count =>
    have most := readCount_le isCount
    obtain ⟨data, loop, _⟩ := @readiLoop_eq sb fs ip _ off _ (Nat.le_refl count)
      (fun bn above below => noHoles bn (by omega))
    refine ⟨(count, data), eq_done ?_⟩
    unfold readi
    rw [wp_bind, wp_read, isCount]
    dsimp only
    rw [wp_bind, wp_iff_of_done loop, wp_pure]
    exact ⟨rfl, rfl⟩

/-- In a hole `readi` allocates a block and logs it with its bitmap block. -/
theorem readi_hole (size : (fs.inode ip).copy.size = 1024) (hole : (fs.inode ip).copy.addrs 1 = 0)
    {b : Nat} (free : firstFree fs = some b) :
    ∃ result after, readi ip 512 16 fs = .done result after ∧
      after.logged = b :: bblock b :: fs.logged := by
  have second : bmap ip (512 / BSIZE) = bmapAddr ip 1 := rfl
  have sixteen : readCount 1024 512 16 = some 16 := by decide
  apply exists_done
  unfold readi
  rw [wp_bind, wp_read, size, sixteen]
  dsimp only
  rw [wp_bind, readiLoop, if_neg (by decide), wp_bind, second]
  unfold bmapAddr balloc
  rw [wp_bind, wp_read, if_pos hole, wp_bind, wp_bind, wp_read, free]
  exact rfl

/-! ### Writing -/

structure Stores (others : Nat → Dinode) (ip : Entry) (places : Finset Place) (src : Bytes)
    (off n : Nat) (fs after : Fs) : Prop where
  changes : Local ip fs after
  disk : after.dinode = fs.dinode
  copy : (after.inode ip).copy = { (fs.inode ip).copy with addrs := (after.inode ip).copy.addrs }
  owned : (after.volume others ip).Owned
  has : ∀ bn, (fs.inode ip).copy.Has fs.block bn ∨ 0 < n ∧ off / 512 ≤ bn ∧ bn * 512 < off + n →
      (after.inode ip).copy.Has after.block bn
  byteAt : ∀ j at', ((after.volume others ip).ino j).byteAt after.block at' =
    if j = (fs.inode ip).inum ∧ off ≤ at' ∧ at' < off + n then src (at' - off)
    else ((fs.volume others ip).ino j).byteAt fs.block at'
  room : fs.Room others ip places → after.Room others ip places

namespace Stores

variable {src : Bytes} {off m k : Nat}

theorem nothing (owned : (fs.volume others ip).Owned) :
    Stores others ip places src off 0 fs fs where
  changes := Local.refl fs
  disk := rfl
  copy := rfl
  owned := owned
  has bn isThere := isThere.resolve_right (by omega)
  byteAt j at' := by rw [if_neg (by omega)]
  room := id

theorem trans (first : Stores others ip places src off m fs middle)
    (second : Stores others ip places (fun index => src (index + m)) (off + m) k
      middle after) (positive : 0 < m)
    (within : off + m ≤ (off / 512 + 1) * 512) :
    Stores others ip places src off (m + k) fs after := by
  refine ⟨first.changes.trans second.changes, second.disk.trans first.disk, ?_,
    second.owned, ?_, ?_, second.room ∘ first.room⟩
  · have outer := second.copy
    rw [first.copy] at outer
    exact outer
  · rintro bn (isThere | ⟨_, start, finish⟩)
    · exact second.has bn (.inl (first.has bn (.inl isThere)))
    · by_cases isFirst : bn = off / 512
      · exact second.has bn (.inl (first.has bn (.inr (by omega))))
      · exact second.has bn (.inr (by omega))
  · intro j at'
    rw [second.byteAt, first.byteAt, first.changes.inum]
    by_cases own : j = (fs.inode ip).inum
    · by_cases later : off + m ≤ at' ∧ at' < off + m + k
      · have shift : at' - (off + m) + m = at' - off := by omega
        rw [if_pos ⟨own, later⟩, if_pos ⟨own, by omega⟩, shift]
      · rw [if_neg (fun both => later both.2)]
        by_cases earlier : off ≤ at' ∧ at' < off + m
        · rw [if_pos ⟨own, earlier⟩, if_pos ⟨own, by omega⟩]
        · rw [if_neg (fun both => earlier both.2), if_neg (fun both => by omega)]
    · rw [if_neg (fun both => own both.1), if_neg (fun both => own both.1),
        if_neg (fun both => own both.1)]

theorem piece (src : Bytes) {place : Place} (filled : Filled others ip places fs middle)
    (isLeaf : leaf (off / 512) = some place)
    (nonzero : (middle.inode ip).copy.pointer middle.block place ≠ 0)
    (within : off + m ≤ (off / 512 + 1) * 512) :
    Stores others ip places src off m fs ((middle.setBlock
      ((middle.inode ip).copy.pointer middle.block place)
      (putBytes (middle.block ((middle.inode ip).copy.pointer middle.block place))
        (off % 512) m src)).logWrite ((middle.inode ip).copy.pointer middle.block place)) := by
  have inum := filled.changes.inum
  have points := middle.pointer_volume others ip place
  rw [inum] at points
  rw [← points] at nonzero ⊢
  generalize isNext : (middle.setBlock ((middle.volume others ip).pointer (fs.inode ip).inum place)
      (putBytes (middle.block ((middle.volume others ip).pointer (fs.inode ip).inum place))
        (off % 512) m src)).logWrite
          ((middle.volume others ip).pointer (fs.inode ip).inum place) = after
  have ino : (after.volume others ip).ino = (middle.volume others ip).ino := by
    rw [← isNext]
    rfl
  have block : (after.volume others ip).block = update (middle.volume others ip).block
      ((middle.volume others ip).pointer (fs.inode ip).inum place)
      (putBytes (middle.block ((middle.volume others ip).pointer (fs.inode ip).inum place))
        (off % 512) m src) := by
    rw [← isNext]
    rfl
  have inode : after.inode = middle.inode := by
    rw [← isNext]
    rfl
  have pointers := filled.owned.pointer_data nonzero isLeaf ino block
  have bytes := filled.owned.byteAt_data nonzero isLeaf ino block
  have local' : Local ip middle after := by
    rw [← isNext]
    exact ⟨fun _ _ => rfl, rfl, fun _ _ => rfl, rfl, rfl, rfl⟩
  refine ⟨filled.changes.trans local', ?_, ?_,
    filled.owned.of_data nonzero isLeaf ino block, ?_, ?_, ?_⟩
  · rw [← isNext]
    exact filled.disk
  · rw [inode]
    exact filled.copy
  · intro bn isThere
    have kept : ∀ other, (after.inode ip).copy.pointer after.block other =
        (middle.inode ip).copy.pointer middle.block other := by
      intro other
      rw [← after.pointer_volume others, ← middle.pointer_volume others, inode, pointers]
    rcases isThere with isOld | ⟨_, start, finish⟩
    · obtain ⟨other, isOther, isFilled⟩ := filled.has bn isOld
      exact ⟨other, isOther, by rw [kept]; exact isFilled⟩
    · have same : bn = off / 512 := by omega
      refine ⟨place, same ▸ isLeaf, ?_⟩
      rw [kept, ← middle.pointer_volume others, inum]
      exact nonzero
  · intro j at'
    have old := filled.byteAt j at'
    change ((after.volume others ip).ino j).byteAt (after.volume others ip).block at' = _
    rw [bytes, ← old]
    by_cases here : j = (fs.inode ip).inum ∧ at' / 512 = off / 512
    · have small : at' % 512 < 512 := Nat.mod_lt _ (by decide)
      rw [if_pos here]
      unfold blockBytes
      rw [Nat.add_zero, byte_putBytes _ _ _ _ small]
      by_cases covered : off ≤ at' ∧ at' < off + m
      · have shift : at' % 512 - off % 512 = at' - off := by omega
        rw [if_pos (by omega), if_pos ⟨here.1, covered⟩, shift, UInt8.ofNat_toNat]
      · rw [if_neg (by omega), if_neg (fun both => covered both.2)]
        unfold Dinode.byteAt Dinode.dataAt blockBytes
        rw [here.1, here.2, isLeaf]
        change _ = UInt8.ofNat (ByteBlock.byte (if
          (middle.volume others ip).pointer (fs.inode ip).inum place = 0
          then _ else _) _)
        rw [if_neg nonzero]
        rfl
    · rw [if_neg here, if_neg (fun both => here ⟨both.1, by omega⟩)]
      rfl
  · intro room
    have roomy := filled.room room
    unfold Fs.Room at roomy ⊢
    rw [inode]
    refine roomy.congr (pointers _) ?_
    intro b inside
    unfold Volume.marked
    rw [block, update_of_ne]
    exact (filled.owned.range _ _ nonzero).bblock_ne (mapped_of_lt inside)

end Stores

variable {src : Bytes}

theorem wp_writeiLoop {fuel off left : Nat}
    {post : Unit → Fs → Prop} (owned : (fs.volume others ip).Owned)
    (full : ¬ fs.Room others ip places → allowed (.panic .ballocOutOfBlocks))
    (inside : off + left ≤ 140 * 512) (needs : needed off left ⊆ places) (enough : left ≤ fuel)
    (holds : ∀ after, Stores others ip places src off left fs after → post () after) :
    (writeiLoop ip fuel src off left).wp fs allowed post := by
  induction fuel generalizing fs off left src post with
  | zero =>
    have isZero : left = 0 := by omega
    subst isZero
    exact holds fs (Stores.nothing owned)
  | succ fuel ih =>
    rw [writeiLoop]
    rcases eq_or_ne left 0 with rfl | isZero
    · exact holds fs (Stores.nothing owned)
    obtain ⟨positive, most⟩ := transferred_pos off isZero
    have within := transferred_le off left
    generalize transferred off left = m at positive most within ⊢
    have inRange : off / BSIZE < 140 := by
      unfold BSIZE
      omega
    have first : path (off / BSIZE) ⊆ needed off left :=
      path_subset_needed inRange (by unfold BSIZE; omega) (by unfold BSIZE; omega)
    have later : needed (off + m) (left - m) ⊆ needed off left :=
      needed_subset (by omega) (by omega)
    rw [if_neg isZero, wp_bind]
    refine wp_bmap owned full inRange (first.trans needs) ?_
    intro middle place filled isLeaf nonzero
    have first := Stores.piece src filled isLeaf nonzero within
    refine ih first.owned (fun noRoom => full (noRoom ∘ first.room)) (by omega)
      (later.trans needs) (by omega) ?_
    intro after second
    have whole := first.trans second positive within
    have total : m + (left - m) = left := by omega
    rw [total] at whole
    exact holds after whole

structure Wrote (others : Nat → Dinode) (ip : Entry) (places : Finset Place) (src : Bytes)
    (off n : Nat) (fs after : Fs) : Prop where
  changes : Local ip fs after
  size : (after.inode ip).copy.size = max (fs.inode ip).copy.size (off + n)
  type : (after.inode ip).copy.type = (fs.inode ip).copy.type
  owned : (after.volume others ip).Owned
  noHoles : (fs.inode ip).copy.NoHoles fs.block → (after.inode ip).copy.NoHoles after.block
  byteAt : ∀ j at', ((after.volume others ip).ino j).byteAt after.block at' =
    if j = (fs.inode ip).inum ∧ off ≤ at' ∧ at' < off + n then src (at' - off)
    else ((fs.volume others ip).ino j).byteAt fs.block at'
  room : fs.Room others ip places → after.Room others ip places

theorem Wrote.bytes {off n : Nat} (wrote : Wrote others ip places src off n fs after) (at' : Nat) :
    (after.inode ip).copy.byteAt after.block at' =
      if off ≤ at' ∧ at' < off + n then src (at' - off)
      else (fs.inode ip).copy.byteAt fs.block at' := by
  have bytes := wrote.byteAt (fs.inode ip).inum at'
  rw [fs.volume_own, ← wrote.changes.inum, after.volume_own, wrote.changes.inum] at bytes
  simpa using bytes

theorem Stores.noHoles {off n : Nat} (stores : Stores others ip places src off n fs after)
    (start : off ≤ (fs.inode ip).copy.size) (noHoles : (fs.inode ip).copy.NoHoles fs.block)
    {bn : Nat} (below : bn * 512 < max (fs.inode ip).copy.size (off + n)) :
    (after.inode ip).copy.Has after.block bn := by
  by_cases isOld : bn * 512 < (fs.inode ip).copy.size
  · exact stores.has bn (.inl (noHoles bn isOld))
  · exact stores.has bn (.inr (by omega))

def Fs.updated (fs : Fs) (ip : Entry) (copy : Dinode) : Fs :=
  ((fs.setCopy ip copy).setDinode (fs.inode ip).inum copy).logWrite (iblock (fs.inode ip).inum)

omit sb in
theorem Fs.updated_inode (fs : Fs) (ip : Entry) (copy : Dinode) :
    (fs.updated ip copy).inode ip = { fs.inode ip with copy } :=
  update_self ..

omit sb in
theorem wp_iupdate_setCopy {copy : Dinode} {post : Unit → Fs → Prop} :
    (iupdate ip).wp (fs.setCopy ip copy) allowed post ↔ post () (fs.updated ip copy) := by
  have inode : (fs.setCopy ip copy).inode ip = { fs.inode ip with copy } := update_self ..
  rw [iupdate, wp_modify, inode]
  rfl

omit sb in
theorem Local.updated (fs : Fs) (ip : Entry) (copy : Dinode) :
    Local ip fs (fs.updated ip copy) where
  others _ differs := update_of_ne differs _ _
  own := by rw [fs.updated_inode]
  dinode _ differs := update_of_ne differs _ _
  holders := rfl
  file := rfl
  cwd := rfl

section Updated

variable (fs others ip) {copy : Dinode} (addrs : copy.addrs = (fs.inode ip).copy.addrs)

include addrs

omit sb in
theorem Fs.pointer_updated (j : Nat) (place : Place) :
    ((fs.updated ip copy).volume others ip).pointer j place =
      (fs.volume others ip).pointer j place := by
  refine @Volume.pointer_fields (fs.volume others ip)
    ((fs.updated ip copy).volume others ip) (fs.inode ip).inum copy
    (by rw [fs.volume_own, addrs]) ?_ rfl j place
  unfold Fs.volume
  rw [(Local.updated fs ip copy).inum, fs.updated_inode, update_idem]

omit sb in
theorem Fs.byteAt_updated (j off : Nat) : (((fs.updated ip copy).volume others ip).ino j).byteAt
      (fs.updated ip copy).block off = ((fs.volume others ip).ino j).byteAt fs.block off := by
  refine @Volume.byteAt_congr (fs.volume others ip) ((fs.updated ip copy).volume others ip) j ?_ off
  intro bn place _
  change (if ((fs.updated ip copy).volume others ip).pointer j place = 0 then _ else
    fs.block (((fs.updated ip copy).volume others ip).pointer j place)) = _
  rw [fs.pointer_updated others ip addrs]
  rfl

theorem Fs.owned_updated (owned : (fs.volume others ip).Owned) :
    ((fs.updated ip copy).volume others ip).Owned :=
  owned.congr (fs.pointer_updated others ip addrs) fun _ _ => rfl

end Updated

/-- The size is written back after the bytes have been stored. -/
theorem Stores.wrote_update {off n : Nat} (stores : Stores others ip places src off n fs middle)
    (start : off ≤ (fs.inode ip).copy.size) (longer : (fs.inode ip).copy.size < off + n) :
    Wrote others ip places src off n fs
      (middle.updated ip { (middle.inode ip).copy with size := off + n }) := by
  have inode := middle.updated_inode ip { (middle.inode ip).copy with size := off + n }
  have changes := Local.updated middle ip { (middle.inode ip).copy with size := off + n }
  have fields : { (middle.inode ip).copy with size := off + n }.addrs =
      (middle.inode ip).copy.addrs := rfl
  refine ⟨stores.changes.trans changes, ?_, ?_,
    middle.owned_updated others ip fields stores.owned, ?_, ?_, ?_⟩
  · rw [inode]
    exact (Nat.max_eq_right (Nat.le_of_lt longer)).symm
  · rw [inode, stores.copy]
  · intro noHoles bn below
    rw [inode] at below ⊢
    obtain ⟨place, isLeaf, nonzero⟩ := stores.noHoles start noHoles
      (Nat.lt_of_lt_of_le below (Nat.le_max_right _ _))
    refine ⟨place, isLeaf, ?_⟩
    cases place <;> exact nonzero
  · intro j at'
    rw [← stores.byteAt j at']
    exact middle.byteAt_updated others ip fields j at'
  · intro room
    have roomy := stores.room room
    unfold Fs.Room at roomy ⊢
    rw [changes.inum]
    exact roomy.congr (middle.pointer_updated others ip fields _) fun _ _ => rfl

/-- `writei` stores its bytes and lets the inode grow to their end. -/
theorem wp_writei {off n : Nat} {post : Int → Fs → Prop} (owned : (fs.volume others ip).Owned)
    (full : ¬ fs.Room others ip places → allowed (.panic .ballocOutOfBlocks))
    (start : off ≤ (fs.inode ip).copy.size) (inside : off + n ≤ MAXFILE * BSIZE)
    (needs : needed off n ⊆ places)
    (holds : ∀ after, Wrote others ip places src off n fs after → post n after) :
    (writei ip src off n).wp fs allowed post := by
  have limit : MAXFILE * BSIZE = 140 * 512 := rfl
  unfold writei
  rw [wp_bind, wp_read, if_neg (by omega), if_neg (by omega), wp_bind]
  refine wp_writeiLoop owned full (by omega) needs (Nat.le_refl n) ?_
  intro middle stores
  by_cases longer : n > 0 ∧ off + n > (fs.inode ip).copy.size
  · rw [if_pos longer, wp_bind, wp_modify, wp_bind, wp_iupdate_setCopy, wp_pure]
    exact holds _ (stores.wrote_update start longer.2)
  · rw [if_neg longer, wp_pure]
    have size : max (fs.inode ip).copy.size (off + n) = (fs.inode ip).copy.size := by omega
    refine holds middle ⟨stores.changes, ?_, ?_, stores.owned, ?_, stores.byteAt, stores.room⟩
    · rw [stores.copy, size]
    · rw [stores.copy]
    · intro noHoles bn below
      rw [stores.copy] at below
      exact stores.noHoles start noHoles (by rw [size]; exact below)

end FileSystem

end Xv6Kthreads
