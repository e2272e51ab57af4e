import Xv6Kthreads.MkfsLayout

/-!
# Appending to a file

What `iappend` and `ialloc` do to an image that is laid out as some records
say: as long as there are blocks, inodes and sectors left they succeed, append
to the bytes of one record, and keep every record tight.
-/

namespace Xv6Kthreads

namespace Mkfs

open Sections FileSystem Function Act List Record

variable {image next : Image} {records : Nat → Record} {inum : Nat}
variable {record after : Record} {allowed : Exit → Prop}

def Record.count (record : Record) : Nat :=
  record.blocks.length + if record.indirect = 0 then 0 else 1

/-- The number of blocks that a file with `count` blocks of data uses. -/
def need (count : Nat) : Nat :=
  count + if count ≤ 12 then 0 else 1

theorem need_mono {first second : Nat} (le : first ≤ second) : need first ≤ need second := by
  unfold need
  split <;> split <;> omega

theorem count_eq_need (indirect : record.indirect = 0 ↔ record.blocks.length ≤ 12) :
    record.count = need record.blocks.length := by
  unfold Record.count need
  simp only [indirect]

/-- The image and a record have changed by blocks that were added to the
record. -/
structure Grown (image next : Image) (record after : Record) : Prop where
  type : after.type = record.type
  freeinode : next.freeinode = image.freeinode
  inodes : next.inodes = image.inodes
  low : ∀ sec < 29, next.sector sec = image.sector sec
  account : next.freeblock + record.count = image.freeblock + after.count

theorem Grown.refl : Grown image image record record :=
  ⟨rfl, rfl, rfl, fun _ _ => rfl, rfl⟩

theorem Grown.trans {last : Image} {final : Record} (first : Grown image next record after)
    (second : Grown next last after final) :
    Grown image last record final := by
  refine ⟨second.type.trans first.type, second.freeinode.trans first.freeinode,
    second.inodes.trans first.inodes,
    fun sec low => (second.low sec low).trans (first.low sec low), ?_⟩
  have firstAccount := first.account
  have secondAccount := second.account
  omega

theorem wp_rsect {sec : Nat} {post : Block → Image → Prop}
    (inside : sec < image.sectors) (holds : post (image.sector sec) image) :
    (rsect sec).wp image allowed post := by
  unfold rsect
  rw [wp_bind, wp_read, if_pos inside]
  exact holds

theorem wp_newBlock {post : Nat → Image → Prop} (holds : post image.freeblock image.takeBlock) :
    newBlock.wp image allowed post :=
  holds

theorem takeBlock_freeblock (room : image.freeblock < 1024) :
    image.takeBlock.freeblock = image.freeblock + 1 := by
  unfold Image.takeBlock
  dsimp only
  omega

namespace Laid

variable (laid : Laid image records)

include laid

theorem freeblock_notMem : image.freeblock ∉ (records inum).uses := by
  intro isUsed
  have inRange := laid.range inum _ isUsed
  omega

theorem getD_bounds (inum : Nat) {k : Nat} (inside : k < (records inum).blocks.length) :
    29 ≤ (records inum).blocks.getD k 0 ∧ (records inum).blocks.getD k 0 < 1024 := by
  have inRange := laid.range inum _ (mem_uses_of_mem_blocks (getD_mem inside))
  have bound := laid.bound
  omega

theorem indirect_bounds (some : (records inum).indirect ≠ 0) :
    29 ≤ (records inum).indirect ∧ (records inum).indirect < 1024 := by
  have inRange := laid.range inum _ (indirect_mem_uses some)
  have bound := laid.bound
  omega

/-- A block is taken for a record, and sectors change only in the blocks of
the record. -/
theorem take (room : image.freeblock < 1024)
    (counters : next.freeblock = image.takeBlock.freeblock ∧
      next.usedblocks = image.takeBlock.usedblocks ∧
      next.blocks = image.takeBlock.blocks ∧ next.sectors = image.sectors)
    (frame : ∀ b, b ∉ after.uses → next.sector b = image.sector b)
    (uses : ∀ b ∈ after.uses, b ∈ (records inum).uses ∨ b = image.freeblock)
    (stored : Stored next.sector after) :
    Laid next (update records inum after) := by
  obtain ⟨freeblock, usedblocks, blocks, sectors⟩ := counters
  have taken := takeBlock_freeblock room
  refine laid.change sectors ?_ (by omega) (by omega) ?_ frame ?_ stored
  · rw [freeblock, usedblocks]
    unfold Image.takeBlock
    rw [laid.used]
  · intro b
    rw [blocks]
    unfold Image.takeBlock
    rw [mem_cons]
    constructor
    · rintro (isNew | isOld)
      · exact .inr (by omega)
      · exact .inl isOld
    · rintro (isOld | isNew)
      · exact .inr isOld
      · exact .inl (by omega)
  · intro b isUsed
    rcases uses b isUsed with isOld | isNew
    · exact .inl isOld
    · exact .inr (by omega)

end Laid

/-! ### The sector of a block of the file -/

structure Mapped (image next : Image) (records : Nat → Record)
    (inum fbn : Nat) (din found : DiskInode) (after : Record) : Prop where
  laid : Laid next (update records inum after)
  grown : Grown image next (records inum) after
  bytes : after.bytes = (records inum).bytes
  blocks : after.blocks.length = fbn + 1
  indirect : after.indirect = 0 ↔ after.blocks.length ≤ 12
  found : found = { din with addrs := after.dinode.addrs }

theorem addrs_direct {index : Nat} (direct : index < 12) :
    record.dinode.addrs ⟨index, lt_addrs direct⟩ = record.blocks.getD index 0 := by
  exact if_pos direct

theorem addrs_indirect : record.dinode.addrs (.last 12) = record.indirect := rfl

theorem addrs_setIndirect (b : Nat) : (record.setIndirect b).dinode.addrs =
      update record.dinode.addrs (.last 12) b := by
  funext index
  rcases eq_or_ne index (.last 12) with rfl | isLast
  · rfl
  · rw [update_of_ne isLast]
    have direct : index.val < 12 := Fin.val_lt_last isLast
    simp only [dinode, setIndirect, if_pos direct]

theorem addrs_addBlock_direct (direct : record.blocks.length < 12) (b : Nat) :
    (record.addBlock b).dinode.addrs = update record.dinode.addrs
        ⟨record.blocks.length, by omega⟩ b := by
  funext index
  simp only [dinode, addBlock]
  rcases eq_or_ne index ⟨record.blocks.length, by omega⟩ with rfl | isLast
  · rw [update_self, if_pos direct, getD_append_right _ _ _ _ (Nat.le_refl _), Nat.sub_self]
    rfl
  · rw [update_of_ne isLast]
    have differs : index.val ≠ record.blocks.length := fun same => isLast (Fin.ext same)
    split
    · by_cases isOld : index.val < record.blocks.length
      · rw [getD_append _ _ _ _ isOld]
      · have isBehind : (record.blocks ++ [b]).length ≤ index.val := by
          simp only [length_append, length_cons, length_nil]
          omega
        rw [getD_eq_default _ _ isBehind, getD_eq_default record.blocks _ (by omega)]
    · rfl

theorem addrs_addBlock_far (far : 12 ≤ record.blocks.length) (b : Nat) :
    (record.addBlock b).dinode.addrs = record.dinode.addrs := by
  funext index
  simp only [dinode, addBlock]
  split
  next direct => rw [getD_append _ _ _ _ (by omega)]
  next => rfl

theorem length_addBlock (b : Nat) :
    (record.addBlock b).blocks.length = record.blocks.length + 1 := by
  simp only [addBlock, length_append, length_cons, length_nil]

theorem count_addBlock (b : Nat) : (record.addBlock b).count = record.count + 1 := by
  unfold Record.count
  rw [length_addBlock]
  exact Nat.add_right_comm _ _ _

theorem getD_addBlock (b : Nat) : (record.addBlock b).blocks.getD record.blocks.length 0 = b := by
  simp only [addBlock]
  rw [getD_append_right _ _ _ _ (Nat.le_refl _), Nat.sub_self]
  rfl

variable {post : Nat × DiskInode → Image → Prop}

section BlockFor

variable {din : DiskInode} {fbn : Nat} (laid : Laid image records) (tight : (records inum).Tight)
  (addrs : din.addrs = (records inum).dinode.addrs)

include laid tight addrs

theorem Mapped.of_existing (isLast : (records inum).blocks.length = fbn + 1) :
    Mapped image image records inum fbn din din (records inum) where
  laid := by
    rw [update_eq_self]
    exact laid
  grown := Grown.refl
  bytes := rfl
  blocks := isLast
  indirect := tight.indirect
  found := by
    rw [← addrs]

theorem wp_blockFor_direct (isFbn : fbn = (records inum).bytes.length / 512) (direct : fbn < 12)
    (room : image.freeblock + need (fbn + 1) ≤ 1024 + (records inum).count)
    (holds : ∀ next found after, Mapped image next records inum fbn din found after →
        post (after.blocks.getD fbn 0, found) next) :
    (blockFor din fbn).wp image allowed post := by
  have blocks := tight.blocks
  have counted := count_eq_need tight.indirect
  have stored := laid.stored inum
  unfold blockFor fillAddr
  rw [dif_pos direct, wp_bind]
  have addr : din.addrs ⟨fbn, by omega⟩ = (records inum).blocks.getD fbn 0 := by
    rw [addrs, addrs_direct direct]
  rw [addr]
  by_cases isOld : fbn < (records inum).blocks.length
  · have bounds := laid.getD_bounds inum isOld
    rw [if_neg (by omega), wp_pure, wp_pure, addr]
    exact holds image din (records inum) (Mapped.of_existing laid tight addrs (by omega))
  · have isNext : fbn = (records inum).blocks.length := by omega
    have none : (records inum).indirect = 0 := tight.indirect.2 (by omega)
    have free : image.freeblock < 1024 := by
      rw [counted, ← isNext] at room
      unfold need at room
      rw [if_pos (by omega), if_pos (by omega)] at room
      omega
    rw [getD_eq_default _ _ (by omega), if_pos rfl, wp_bind]
    apply wp_newBlock
    have after := addrs_addBlock_direct
      (by omega : (records inum).blocks.length < 12) image.freeblock
    rw [wp_pure, wp_pure]
    have last : ((records inum).addBlock image.freeblock).blocks.getD fbn 0 =
        image.freeblock := by
      rw [isNext]
      exact getD_addBlock _
    have value : (din.setAddr ⟨fbn, by omega⟩ image.freeblock).addrs ⟨fbn, by omega⟩ =
          ((records inum).addBlock image.freeblock).blocks.getD fbn 0 :=
      (update_self ..).trans last.symm
    rw [value]
    refine holds _ _ _ ⟨?_, ⟨rfl, rfl, rfl, fun _ _ => rfl, ?_⟩, rfl, ?_, ?_, ?_⟩
    · refine laid.take free ⟨rfl, rfl, rfl, rfl⟩ (fun _ _ => rfl)
        (fun b isUsed => mem_uses_addBlock.1 isUsed) ?_
      exact stored.addDirect laid.freeblock_notMem
        (laid.zero _ (Nat.le_refl _) free) (by omega) (by omega) none
    · rw [takeBlock_freeblock free, count_addBlock]
      omega
    · rw [length_addBlock, isNext]
    · rw [length_addBlock]
      simp only [addBlock, none, true_iff]
      omega
    · rw [after]
      unfold DiskInode.setAddr
      simp only [isNext, addrs]

end BlockFor

section Indirect

variable {din : DiskInode} {fbn : Nat} (laid : Laid image records)
  (addrs : din.addrs = (records inum).dinode.addrs)

include laid addrs

theorem wp_fillAddr_indirect {post : DiskInode → Image → Prop}
    (direct : (records inum).indirect = 0 →
      (records inum).blocks.length ≤ 12 ∧ image.freeblock < 1024)
    (holds : ∀ next after, after.indirect ≠ 0 → after.blocks = (records inum).blocks →
      after.bytes = (records inum).bytes →
      Laid next (update records inum after) →
      Grown image next (records inum) after →
      post { din with addrs := after.dinode.addrs } next) :
    (fillAddr din (.last 12)).wp image allowed post := by
  have start := laid.start
  unfold fillAddr
  rw [addrs, addrs_indirect]
  by_cases none : (records inum).indirect = 0
  · obtain ⟨short, free⟩ := direct none
    rw [if_pos none, wp_bind]
    apply wp_newBlock
    have value : din.setAddr (.last 12) image.freeblock = { din with
        addrs := ((records inum).setIndirect image.freeblock).dinode.addrs } := by
      rw [addrs_setIndirect, ← addrs]
      rfl
    rw [value]
    refine holds _ _ (by omega : image.freeblock ≠ 0) rfl rfl ?_ ⟨rfl, rfl, rfl, fun _ _ => rfl, ?_⟩
    · refine laid.take free ⟨rfl, rfl, rfl, rfl⟩ (fun _ _ => rfl)
        (fun b isUsed => mem_uses_setIndirect isUsed) ?_
      exact (laid.stored inum).addIndirect laid.freeblock_notMem (by omega)
        (laid.zero _ (Nat.le_refl _) free) short none
    · rw [takeBlock_freeblock free]
      unfold Record.count Record.setIndirect
      dsimp only
      rw [if_pos none, if_neg (by omega)]
      omega
  · rw [if_neg none, wp_pure]
    have same : din = { din with addrs := (records inum).dinode.addrs } := by
      rw [← addrs]
    rw [same]
    refine holds image (records inum) none rfl rfl ?_ Grown.refl
    rw [update_eq_self]
    exact laid

theorem wp_blockFor_entry (some : (records inum).indirect ≠ 0)
    (padding : (records inum).bytes.length ≤
      512 * (records inum).blocks.length) (far : 12 ≤ fbn) (inside : fbn < 140)
    (isLast : (records inum).blocks.length = fbn + 1 ∨
      (records inum).blocks.length = fbn ∧ image.freeblock < 1024)
    (holds : ∀ next after, Laid next (update records inum after) →
      Grown image next (records inum) after →
      after.bytes = (records inum).bytes →
      after.blocks.length = fbn + 1 → after.indirect ≠ 0 →
      din.addrs = after.dinode.addrs →
      post (after.blocks.getD fbn 0, din) next) :
    (do
      let indirect ← rsect (din.addrs (.last 12))
      if indirect.word (fbn - NDIRECT) = 0 then do
        let b ← newBlock
        wsect (din.addrs (.last 12)) (indirect.setWord (fbn - NDIRECT) b)
        pure (b, din)
      else
        pure (indirect.word (fbn - NDIRECT), din) :
      Action (Nat × DiskInode)).wp image allowed post := by
  have bounds := laid.indirect_bounds some
  have stored := laid.stored inum
  have sectors := laid.sectors
  have index : 12 + (fbn - NDIRECT) = fbn := by
    unfold NDIRECT
    omega
  have entry : (image.sector (records inum).indirect).word (fbn - NDIRECT) =
      (records inum).blocks.getD fbn 0 := by
    rw [stored.table some _ (by omega), index]
  rw [wp_bind]
  have addr : din.addrs (.last 12) = (records inum).indirect := by
    rw [addrs, addrs_indirect]
  rw [addr]
  apply wp_rsect (by omega)
  rw [entry]
  rcases isLast with isOld | ⟨isNext, free⟩
  · have blockBounds := laid.getD_bounds inum (by omega : fbn < (records inum).blocks.length)
    rw [if_neg (by omega), wp_pure]
    refine holds image (records inum) ?_ Grown.refl rfl isOld some addrs
    rw [update_eq_self]
    exact laid
  · rw [getD_eq_default _ _ (by omega), if_pos rfl, wp_bind]
    apply wp_newBlock
    rw [wp_bind]
    unfold wsect
    have last : ((records inum).addBlock image.freeblock).blocks.getD fbn 0 =
        image.freeblock := by
      rw [← isNext]
      exact getD_addBlock _
    have position : fbn - NDIRECT = (records inum).blocks.length - 12 := by
      rw [isNext]
      rfl
    rw [position]
    have reached := holds (image.takeBlock.write (records inum).indirect
      ((image.sector (records inum).indirect).setWord
        ((records inum).blocks.length - 12) image.freeblock))
      ((records inum).addBlock image.freeblock)
    rw [last] at reached
    refine reached ?_ ⟨rfl, rfl, rfl, ?_, ?_⟩ rfl ?_ some ?_
    · refine laid.take free ⟨rfl, rfl, rfl, ?_⟩ ?_ (fun b isUsed => mem_uses_addBlock.1 isUsed) ?_
      · change max image.sectors _ = _
        omega
      · intro b notUsed
        apply update_of_ne
        rintro rfl
        apply notUsed
        exact mem_uses_addBlock.2 (.inl (indirect_mem_uses some))
      · exact stored.addEntry laid.freeblock_notMem (by omega)
          (laid.zero _ (Nat.le_refl _) free) padding (by omega) (by omega) some
    · intro sec low
      exact update_of_ne (by omega) _ _
    · change image.takeBlock.freeblock + _ = _
      rw [takeBlock_freeblock free, count_addBlock]
      omega
    · rw [length_addBlock, isNext]
    · rw [addrs_addBlock_far (by omega), addrs]

end Indirect

variable {din : DiskInode}

/-- The sector of block `fbn` of a file, where the file ends in this block or
right before it. -/
theorem wp_blockFor {fbn : Nat} (laid : Laid image records) (tight : (records inum).Tight)
    (addrs : din.addrs = (records inum).dinode.addrs)
    (isFbn : fbn = (records inum).bytes.length / 512) (inside : fbn < 140)
    (room : image.freeblock + need (fbn + 1) ≤ 1024 + (records inum).count)
    (holds : ∀ next found after, Mapped image next records inum fbn din found after →
        post (after.blocks.getD fbn 0, found) next) :
    (blockFor din fbn).wp image allowed post := by
  by_cases direct : fbn < 12
  · exact wp_blockFor_direct laid tight addrs isFbn direct room holds
  have blocks := tight.blocks
  have counted := count_eq_need tight.indirect
  rw [counted] at room
  unfold blockFor
  rw [dif_neg direct, wp_bind]
  apply wp_fillAddr_indirect laid addrs
  · intro none
    have short := tight.indirect.1 none
    unfold need at room
    rw [if_neg (by omega), if_pos short] at room
    exact ⟨short, by omega⟩
  intro middle record some sameBlocks sameBytes middleLaid grown
  have isRecord : update records inum record inum = record := update_self ..
  have account := grown.account
  rw [counted] at account
  have free : record.blocks.length = fbn → middle.freeblock < 1024 := by
    intro isNext
    have count : record.count = fbn + 1 := by
      unfold Record.count
      rw [if_neg some, isNext]
    rw [sameBlocks] at isNext
    unfold need at room account
    rw [if_neg (by omega)] at room
    omega
  rw [← isRecord] at some sameBlocks sameBytes free
  apply wp_blockFor_entry middleLaid (by rw [isRecord]) some
  · rw [sameBlocks, sameBytes]
    omega
  · omega
  · exact inside
  · rw [sameBlocks] at free ⊢
    by_cases isOld : (records inum).blocks.length = fbn + 1
    · exact .inl isOld
    · exact .inr ⟨by omega, free (by omega)⟩
  intro next after nextLaid nextGrown bytes length afterSome afterAddrs
  rw [isRecord] at nextGrown
  rw [update_idem] at nextLaid
  refine holds _ _ _ ⟨nextLaid, grown.trans nextGrown, ?_, length, ?_, ?_⟩
  · rw [bytes, sameBytes]
  · constructor
    · intro none
      exact absurd none afterSome
    · intro short
      omega
  · rw [← afterAddrs]

/-! ### The loop -/

variable {p : List UInt8}

theorem Laid.append (laid : Laid image records) (inum : Nat) {k : Nat}
    (isBlock : k < (records inum).blocks.length) (starts : 512 * k ≤ (records inum).bytes.length)
    (ends : (records inum).bytes.length + p.length ≤ 512 * (k + 1)) :
    Laid (image.write ((records inum).blocks.getD k 0)
        (putBytes (image.sector ((records inum).blocks.getD k 0))
          ((records inum).bytes.length - 512 * k) p.length (cString p)))
      (update records inum ((records inum).append p)) := by
  have bounds := laid.getD_bounds inum isBlock
  have sectors := laid.sectors
  refine laid.change ?_ laid.used (Nat.le_refl _) laid.bound ?_ ?_ (fun _ isUsed => .inl isUsed)
    ((laid.stored inum).append isBlock starts ends)
  · change max image.sectors _ = _
    omega
  · intro b
    constructor
    · exact .inl
    · rintro (isOld | ⟨first, second⟩)
      · exact isOld
      · exact absurd second (Nat.not_lt.2 first)
  · intro b notUsed
    apply update_of_ne
    rintro rfl
    exact notUsed (mem_uses_of_mem_blocks (getD_mem isBlock))

theorem putBytes_take (block : Block) (start m : Nat) (p : List UInt8) :
    putBytes block start m (cString p) = putBytes block start m (cString (p.take m)) := by
  funext index
  unfold putBytes
  split
  next inside =>
    unfold cString
    rw [getD_eq_getElem?_getD, getD_eq_getElem?_getD, getElem?_take_of_lt (by omega)]
  next => rfl

/-- One iteration of the loop appends the bytes up to the end of the block. -/
theorem wp_appendPiece {α : Type} {fbn cut : Nat} {post : α → Image → Prop}
    (rest : DiskInode → Action α) (laid : Laid image records) (tight : (records inum).Tight)
    (addrs : din.addrs = (records inum).dinode.addrs)
    (isFbn : fbn = (records inum).bytes.length / 512) (inside : fbn < 140)
    (room : image.freeblock + need (fbn + 1) ≤ 1024 + (records inum).count)
    (positive : 0 < cut) (cutLe : cut ≤ p.length)
    (ends : (records inum).bytes.length + cut ≤ (fbn + 1) * 512)
    (holds : ∀ next after, Laid next (update records inum after) →
      after.Tight → Grown image next (records inum) after →
      after.bytes = (records inum).bytes ++ p.take cut →
      (rest { din with addrs := after.dinode.addrs }).wp next allowed post) :
    (do
      let found ← blockFor din fbn
      let buf ← rsect found.1
      wsect found.1 (putBytes buf ((records inum).bytes.length - fbn * 512) cut (cString p))
      rest found.2 : Action α).wp image allowed post := by
  rw [wp_bind]
  apply wp_blockFor laid tight addrs isFbn inside room
  intro middle found record mapped
  have isRecord : update records inum record inum = record := update_self ..
  have takeLength : (p.take cut).length = cut := by
    rw [length_take]
    omega
  have isBlock : fbn < record.blocks.length := by
    rw [mapped.blocks]
    omega
  have bounds := mapped.laid.getD_bounds inum (k := fbn)
  rw [isRecord] at bounds
  have sectors := mapped.laid.sectors
  have appended := mapped.laid.append inum (k := fbn) (p := p.take cut)
  rw [isRecord, takeLength, mapped.bytes] at appended
  have nextLaid := appended isBlock (by omega) (by omega)
  rw [update_idem, ← putBytes_take] at nextLaid
  rw [wp_bind]
  apply wp_rsect (by omega)
  rw [wp_bind]
  unfold wsect
  rw [wp_modify, Nat.mul_comm fbn 512, mapped.found]
  refine holds _ (record.append (p.take cut)) nextLaid ⟨?_, mapped.indirect⟩ ?_ ?_
  · simp only [append, length_append, takeLength, mapped.bytes, mapped.blocks]
    omega
  · refine mapped.grown.trans ⟨rfl, rfl, rfl, ?_, rfl⟩
    intro sec low
    exact update_of_ne (by omega) _ _
  · simp only [append, mapped.bytes]

theorem iappendLoop_succ {fuel off : Nat} (more : p ≠ []) : iappendLoop (fuel + 1) din off p = (do
      assert (decide (off / 512 < MAXFILE))
      let found ← blockFor din (off / 512)
      let buf ← rsect found.1
      wsect found.1 (putBytes buf (off - off / 512 * 512)
        (min p.length ((off / 512 + 1) * 512 - off)) (cString p))
      iappendLoop fuel found.2 (off + min p.length ((off / 512 + 1) * 512 - off))
        (p.drop (min p.length ((off / 512 + 1) * 512 - off))) :
      Action (DiskInode × Nat)) := by
  have notEmpty : p.isEmpty = false := by
    cases p with
    | nil => exact absurd rfl more
    | cons _ _ => rfl
  rw [iappendLoop, notEmpty]
  rfl

variable {post : Unit → Image → Prop}

theorem wp_assert {condition : Bool} (holds : condition = true → post () image)
    (fails : condition = false → allowed .assertion) :
    (assert condition).wp image allowed post := by
  cases condition with
  | true => exact holds rfl
  | false => exact fails rfl

theorem wp_assert_true {condition : Bool} (isTrue : condition = true) :
    (assert condition).wp image allowed post ↔ post () image := by
  subst isTrue
  rfl

section

variable (laid : Laid image records) (tight : (records inum).Tight)
  (addrs : din.addrs = (records inum).dinode.addrs)
include laid tight addrs

theorem wp_iappendLoop_nil {fuel : Nat} {post : DiskInode × Nat → Image → Prop}
    (holds : ∀ next after, Laid next (update records inum after) →
      after.Tight → Grown image next (records inum) after →
      after.bytes = (records inum).bytes ++ [] →
      post ({ din with addrs := after.dinode.addrs }, (records inum).bytes.length + 0) next) :
    (iappendLoop fuel din (records inum).bytes.length []).wp image allowed
      post := by
  have same : { din with addrs := (records inum).dinode.addrs } = din := by
    rw [← addrs]
  have whole : Laid image (update records inum (records inum)) := by
    rw [update_eq_self]
    exact laid
  have reached := holds image (records inum) whole tight Grown.refl (append_nil _).symm
  rw [same] at reached
  cases fuel with
  | zero => exact reached
  | succ fuel => exact reached

theorem wp_iappendLoop {fuel : Nat} {post : DiskInode × Nat → Image → Prop}
    (enough : p.length ≤ fuel)
    (short : allowed .assertion ∨ (records inum).bytes.length + p.length ≤ 140 * 512)
    (room : image.freeblock + need (((records inum).bytes.length + p.length + 511) / 512) ≤
        1024 + (records inum).count) (holds : ∀ next after, Laid next (update records inum after) →
      after.Tight → Grown image next (records inum) after →
      after.bytes = (records inum).bytes ++ p →
      post ({ din with addrs := after.dinode.addrs },
        (records inum).bytes.length + p.length) next) :
    (iappendLoop fuel din (records inum).bytes.length p).wp image allowed
      post := by
  induction fuel generalizing image records din p with
  | zero =>
    have isNil : p = [] := eq_nil_of_length_eq_zero (by omega)
    subst isNil
    exact wp_iappendLoop_nil laid tight addrs holds
  | succ fuel ih =>
    rcases eq_or_ne p ([]) with rfl | isNil
    · exact wp_iappendLoop_nil laid tight addrs holds
    have positive : 0 < p.length := length_pos_iff.2 isNil
    rw [iappendLoop_succ isNil, wp_bind]
    generalize isFbn : (records inum).bytes.length / 512 = fbn
    generalize isCut : min p.length ((fbn + 1) * 512 - (records inum).bytes.length) = cut
    have pieceRoom : need (fbn + 1) ≤ need (((records inum).bytes.length + p.length + 511) / 512) :=
      need_mono (by omega)
    apply wp_assert
    case fails =>
      intro tooLong
      rcases short with fails | short
      · exact fails
      · apply absurd _ (of_decide_eq_false tooLong)
        exact (by omega : fbn < 140)
    intro isInside
    have inside : fbn < 140 := of_decide_eq_true isInside
    apply wp_appendPiece (fun found => iappendLoop fuel found
        ((records inum).bytes.length + cut) (p.drop cut))
      laid tight addrs isFbn.symm inside (by omega) (by omega) (by omega)
      (by omega)
    intro middle record middleLaid middleTight grown bytes
    have isRecord : update records inum record inum = record := update_self ..
    have length : record.bytes.length = (records inum).bytes.length + cut := by
      rw [bytes, length_append, length_take]
      omega
    have dropLength : (p.drop cut).length = p.length - cut := length_drop
    have account := grown.account
    have continued := @ih middle (update records inum record)
      { din with addrs := record.dinode.addrs } (p.drop cut) middleLaid
    rw [isRecord, length, dropLength] at continued
    apply continued middleTight rfl (by omega) (short.imp_right (by omega))
    · have total : (records inum).bytes.length + cut + (p.length - cut) =
          (records inum).bytes.length + p.length := by omega
      rw [total]
      omega
    intro next after nextLaid nextTight nextGrown nextBytes
    rw [update_idem] at nextLaid
    have total : (records inum).bytes.length + cut + (p.length - cut) =
        (records inum).bytes.length + p.length := by omega
    rw [total]
    refine holds next after nextLaid nextTight (grown.trans nextGrown) ?_
    rw [nextBytes, bytes, append_assoc, take_append_drop]

end

/-! ### Images between two calls -/

/-- The number of blocks that a file with `length` bytes uses. -/
def cost (length : Nat) : Nat :=
  need ((length + 511) / 512)

theorem cost_mono {first second : Nat} (le : first ≤ second) : cost first ≤ cost second :=
  need_mono (by omega)

theorem Record.Tight.count_eq (tight : record.Tight) : record.count = cost record.bytes.length := by
  rw [count_eq_need tight.indirect, tight.blocks]
  rfl

/-- Between two calls the inodes on the image are those of the records, and
the inodes behind the counter are free. -/
structure Rest (image : Image) (records : Nat → Record) : Prop where
  laid : Laid image records
  onDisk : ∀ inum < 208, inodeAt image.sector inum = (records inum).dinode
  tight : ∀ inum, (records inum).Tight
  typed : ∀ inum, (records inum).type < 65536
  first : 1 ≤ image.freeinode
  unused : ∀ inum, image.freeinode ≤ inum → records inum = empty 0
  inodes : ∀ inum, inum ∈ image.inodes ↔ 1 ≤ inum ∧ inum < image.freeinode

theorem Laid.short (laid : Laid image records) (inum : Nat) (tight : (records inum).Tight) :
    (records inum).bytes.length ≤ 140 * 512 := by
  have blocks := tight.blocks
  have length := (laid.stored inum).length
  omega

theorem Laid.dinode_small (laid : Laid image records) (inum : Nat) (tight : (records inum).Tight)
    (typed : (records inum).type < 65536) :
    (records inum).dinode.Small where
  type := typed
  major := (by decide : 0 < 65536)
  minor := (by decide : 0 < 65536)
  nlink := by
    unfold dinode
    dsimp only
    split <;> omega
  size := by
    have short := laid.short inum tight
    exact (by omega : (records inum).bytes.length < 4294967296)
  addrs index := by
    unfold dinode
    dsimp only
    split
    · by_cases inside : index.val < (records inum).blocks.length
      · have bounds := laid.getD_bounds inum inside
        omega
      · rw [getD_eq_default _ _ (by omega)]
        omega
    · by_cases none : (records inum).indirect = 0
      · omega
      · have bounds := laid.indirect_bounds none
        omega

def Image.writeInode (image : Image) (inum : Nat) (din : DiskInode) : Image :=
  image.write (i2b inum) (putInode (image.sector (i2b inum)) (inum % IPB) din)

theorem inodeAt_writeInode_same (small : din.Small) :
    inodeAt (image.writeInode inum din).sector inum = din := by
  unfold inodeAt Image.writeInode Image.write
  dsimp only
  rw [update_self]
  exact getInode_putInode_same _ small (Nat.mod_lt _ (by decide))

theorem inodeAt_writeInode_of_ne {other : Nat} (differs : other ≠ inum) (din : DiskInode) :
    inodeAt (image.writeInode inum din).sector other = inodeAt image.sector other := by
  unfold inodeAt Image.writeInode Image.write
  dsimp only
  by_cases sameBlock : i2b other = i2b inum
  · rw [sameBlock, update_self]
    apply getInode_putInode_of_ne
    unfold i2b IPB at sameBlock
    unfold IPB
    omega
  · rw [update_of_ne sameBlock]

section

variable (laid : Laid image records) (small : inum < 208)
include laid small

theorem Laid.writeInode (din : DiskInode) : Laid (image.writeInode inum din) records := by
  have bounds := i2b_bounds small
  exact laid.writeLow (by omega) (by omega) _

theorem wp_winode (holds : post () (image.writeInode inum din)) :
    (winode inum din).wp image allowed post := by
  have bounds := i2b_bounds small
  have sectors := laid.sectors
  unfold winode
  rw [wp_bind]
  exact wp_rsect (by omega) holds

theorem wp_rinode {post : DiskInode → Image → Prop} (holds : post (inodeAt image.sector inum) image)
    :
    (rinode inum).wp image allowed post := by
  have bounds := i2b_bounds small
  have sectors := laid.sectors
  unfold rinode
  rw [wp_bind]
  exact wp_rsect (by omega) holds

end

theorem wp_iappend (rest : Rest image records) (small : inum < 208)
    (allocated : inum < image.freeinode) (short : allowed .assertion ∨
      (records inum).bytes.length + p.length ≤ 140 * 512)
    (room : image.freeblock + cost ((records inum).bytes.length + p.length) ≤
      1024 + cost (records inum).bytes.length)
    (holds : ∀ next after, Rest next (update records inum after) →
      after.type = (records inum).type →
      after.bytes = (records inum).bytes ++ p →
      next.freeinode = image.freeinode →
      next.freeblock + cost (records inum).bytes.length =
        image.freeblock + cost ((records inum).bytes.length + p.length) →
      post () next) :
    (iappend inum p).wp image allowed post := by
  have counted := (rest.tight inum).count_eq
  unfold iappend
  rw [wp_bind]
  apply wp_rinode rest.laid small
  rw [rest.onDisk inum small, wp_bind]
  change (iappendLoop _ _ (records inum).bytes.length _).wp _ _ _
  apply wp_iappendLoop rest.laid (rest.tight inum) rfl (Nat.le_refl _) short
  · rw [counted]
    exact room
  intro middle after laid tight grown bytes
  have isAfter : update records inum after inum = after := update_self ..
  have length : after.bytes.length = (records inum).bytes.length + p.length := by
    rw [bytes, length_append]
  apply wp_winode laid small
  have written : DiskInode.setSize { (records inum).dinode with
      addrs := after.dinode.addrs } ((records inum).bytes.length + p.length) = after.dinode := by
    unfold DiskInode.setSize dinode
    rw [grown.type, length]
  have dinodeSmall := laid.dinode_small inum
  rw [isAfter] at dinodeSmall
  have typed := rest.typed inum
  rw [← grown.type] at typed
  rw [written]
  have account := grown.account
  rw [counted, tight.count_eq, length] at account
  refine holds _ after ⟨laid.writeInode small _, ?_, ?_, ?_, ?_, ?_, ?_⟩
    grown.type bytes grown.freeinode account
  · intro other isInode
    rcases eq_or_ne other inum with rfl | same
    · rw [isAfter]
      exact inodeAt_writeInode_same (dinodeSmall tight typed)
    · rw [update_of_ne same, inodeAt_writeInode_of_ne same, ← rest.onDisk other isInode]
      have bounds := i2b_bounds isInode
      unfold inodeAt
      rw [grown.low _ (by omega)]
  · exact (forall_update_iff records
      fun _ record => record.Tight).2 ⟨tight, fun other _ => rest.tight other⟩
  · exact (forall_update_iff records fun _ record => record.type < 65536).2
        ⟨typed, fun other _ => rest.typed other⟩
  · change 1 ≤ middle.freeinode
    rw [grown.freeinode]
    exact rest.first
  · intro other isUnused
    change middle.freeinode ≤ other at isUnused
    rw [grown.freeinode] at isUnused
    rw [update_of_ne (by omega)]
    exact rest.unused other isUnused
  · intro other
    change other ∈ middle.inodes ↔ 1 ≤ other ∧ other < middle.freeinode
    rw [grown.inodes, grown.freeinode]
    exact rest.inodes other

theorem tight_empty (type : Nat) : (empty type).Tight where
  blocks := (by decide : 0 = (0 + 511) / 512)
  indirect := iff_of_true rfl (Nat.zero_le _)

theorem dinode_empty {type : Nat} (typed : type < 65536) (used : type ≠ 0) :
    (empty type).dinode = DiskInode.fresh type := by
  unfold dinode empty DiskInode.fresh
  rw [Nat.mod_eq_of_lt typed, if_neg used]
  congr 1
  funext index
  split <;> rfl

theorem wp_ialloc {type : Nat} {post : Nat → Image → Prop}
    (rest : Rest image records) (small : image.freeinode < 208)
    (typed : type < 65536) (used : type ≠ 0)
    (holds : ∀ next, Rest next (update records image.freeinode (empty type)) →
      next.freeinode = image.freeinode + 1 →
      next.freeblock = image.freeblock → post image.freeinode next) :
    (ialloc type).wp image allowed post := by
  have laid := rest.laid
  have taken : image.takeInode.freeinode = image.freeinode + 1 := by
    unfold Image.takeInode
    dsimp only
    omega
  have isNew : update records image.freeinode (empty type)
      image.freeinode = empty type := update_self ..
  have middleLaid : Laid image.takeInode (update records image.freeinode (empty type)) := by
    refine laid.change rfl laid.used (Nat.le_refl _) laid.bound ?_
      (fun _ _ => rfl) (fun b isUsed => absurd isUsed not_mem_nil)
      (Stored.empty type)
    intro b
    constructor
    · exact .inl
    · rintro (isOld | ⟨first, second⟩)
      · exact isOld
      · exact absurd second (Nat.not_lt.2 first)
  have dinodeSmall := middleLaid.dinode_small image.freeinode
  rw [isNew] at dinodeSmall
  unfold ialloc
  rw [wp_bind, wp_read, wp_bind, wp_modify, wp_bind]
  apply wp_winode middleLaid small
  rw [wp_pure, ← dinode_empty typed used]
  refine holds _ ⟨middleLaid.writeInode small _, ?_, ?_, ?_, ?_, ?_, ?_⟩ taken rfl
  · intro other isInode
    by_cases same : other = image.freeinode
    · rw [same, isNew]
      exact inodeAt_writeInode_same (dinodeSmall (tight_empty type) typed)
    · rw [update_of_ne same, inodeAt_writeInode_of_ne same]
      exact rest.onDisk other isInode
  · exact (forall_update_iff records fun _ record => record.Tight).2
        ⟨tight_empty type, fun other _ => rest.tight other⟩
  · exact (forall_update_iff records fun _ record => record.type < 65536).2
        ⟨typed, fun other _ => rest.typed other⟩
  · exact (by omega : 1 ≤ image.takeInode.freeinode)
  · intro other isUnused
    change image.takeInode.freeinode ≤ other at isUnused
    rw [update_of_ne (by omega)]
    exact rest.unused other (by omega)
  · intro other
    change other ∈ image.freeinode :: image.inodes ↔ 1 ≤ other ∧ other < image.takeInode.freeinode
    have first := rest.first
    rw [mem_cons, rest.inodes, taken]
    omega

end Mkfs

end Xv6Kthreads
