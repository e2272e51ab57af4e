import Xv6Kthreads.SharedWrites

/-!
# Files as byte arrays

`readi` and `writei` on an inode that has all blocks below its size, with no
block shared, are those of a byte array that grows up to `MAXFILE * BSIZE`.
Offsets and counts are arbitrary 32-bit values.
-/

namespace Xv6Kthreads

namespace FileSystem

open Sections

section ByteArray

variable [sb : Superblock] {others : Nat → Dinode} {fs after : Fs} {ip : Entry}
  {places : Finset Place}

/-- Bytes `off` to `off + n` of the inode are those of `src`, the size has grown
to include them, and the other inodes contain what they did. -/
structure Replaced (others : Nat → Dinode) (ip : Entry) (src : Bytes)
    (off n : Nat) (fs after : Fs) : Prop where
  size : (after.inode ip).copy.size = max (fs.inode ip).copy.size (off + n)
  bytes : ∀ at', (after.inode ip).copy.byteAt after.block at' =
    if off ≤ at' ∧ at' < off + n then src (at' - off) else (fs.inode ip).copy.byteAt fs.block at'
  rest : ∀ inum, inum ≠ (fs.inode ip).inum → ∀ at',
    (others inum).byteAt after.block at' = (others inum).byteAt fs.block at'
  changes : Local ip fs after
  owned : (after.volume others ip).Owned
  noHoles : (after.inode ip).copy.NoHoles after.block

theorem Wrote.replaced {src : Bytes} {off n : Nat}
    (wrote : Wrote others ip places src off n fs after)
    (noHoles : (fs.inode ip).copy.NoHoles fs.block) :
    Replaced others ip src off n fs after := by
  refine ⟨wrote.size, wrote.bytes, ?_, wrote.changes, wrote.owned, wrote.noHoles noHoles⟩
  intro inum differs at'
  have bytes := wrote.byteAt inum at'
  have apart : inum ≠ (after.inode ip).inum := by
    rw [wrote.changes.inum]
    exact differs
  simpa [Fs.volume, differs, apart] using bytes

end ByteArray

end FileSystem

end Xv6Kthreads
