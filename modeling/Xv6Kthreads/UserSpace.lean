import Xv6Kthreads.FsState
import Xv6Kthreads.MemoryLayout

/-!
# User memory and system-call arguments

The helpers of `syscall.c` fetch the words that a user program has left on its
stack, and check the addresses among them against the size of the process.
Addresses and counts are 32-bit words whose sums wrap around.
-/

namespace Xv6Kthreads

open FileSystem

theorem page_le_kernbase : (0x1000 : UInt32).toNat ≤ KERNBASE := by decide

/-- What a system call sees of its process.  `allocuvm` lets no process grow up
to `KERNBASE`. -/
structure UserSpace where
  sz : UInt32
  sz_le : sz.toNat ≤ KERNBASE
  esp : UInt32
  memory : UInt32 → UInt8
  ofile : Fd → Option FileId

def signed (word : UInt32) : Int :=
  word.toBitVec.toInt

namespace UserSpace

variable (user : UserSpace) (addr : UInt32)

def load : UInt32 :=
  (user.memory addr).toUInt32 + (user.memory (addr + 1)).toUInt32 * 0x100 +
    (user.memory (addr + 2)).toUInt32 * 0x10000 + (user.memory (addr + 3)).toUInt32 * 0x1000000

def fetchint : Option UInt32 :=
  if addr ≥ user.sz ∨ addr + 4 > user.sz then
    none
  else
    some (user.load addr)

/-- The pointer is returned if a zero byte follows it within the process. -/
def fetchstr : Option UInt32 :=
  if addr ≥ user.sz then
    none
  else
    match (List.range (user.sz.toNat - addr.toNat)).find?
        fun length => user.memory (addr + UInt32.ofNat length) == 0 with
    | some _ => some addr
    | none => none

variable (n : Nat)

def argument : UInt32 :=
  user.esp + 4 + 4 * UInt32.ofNat n

def argint : Option UInt32 :=
  user.fetchint (user.argument n)

/-- The test of `argptr`: `size` is an `int` that is added to an unsigned
address. -/
def checkptr (addr size : UInt32) : Option UInt32 :=
  if addr ≥ user.sz ∨ addr + size > user.sz then
    none
  else
    some addr

def argptr (size : UInt32) : Option UInt32 := do
  let addr ← user.argint n
  user.checkptr addr size

def argstr : Option UInt32 := do
  let addr ← user.argint n
  user.fetchstr addr

/-- The test of `argfd`: the descriptor and its file. -/
def checkfd (word : UInt32) : Option (Fd × FileId) :=
  if bounded : 0 ≤ signed word ∧ (signed word).toNat < NOFILE then
    match user.ofile ⟨(signed word).toNat, bounded.2⟩ with
    | some f => some (⟨(signed word).toNat, bounded.2⟩, f)
    | none => none
  else
    none

def argfd : Option (Fd × FileId) := do
  let word ← user.argint n
  user.checkfd word

def Inside : Prop :=
  (user.argument n).toNat + 4 ≤ user.sz.toNat

instance (user : UserSpace) (n : Nat) : Decidable (user.Inside n) :=
  inferInstanceAs (Decidable (_ ≤ _))

def word : UInt32 :=
  user.load (user.argument n)

theorem sz_lt : user.sz.toNat < 2 ^ 32 - 4 :=
  Nat.lt_of_le_of_lt user.sz_le (by decide)

/-- Below the size of a process the test of `fetchint` does not wrap. -/
theorem fetchint_eq : user.fetchint addr =
      if addr.toNat + 4 ≤ user.sz.toNat then some (user.load addr) else none := by
  have small := user.sz_lt
  have four : (4 : UInt32).toNat = 4 := rfl
  rw [fetchint]
  simp only [ge_iff_le, gt_iff_lt, UInt32.le_iff_toNat_le,
    UInt32.lt_iff_toNat_lt, UInt32.toNat_add, four]
  by_cases inside : addr.toNat + 4 ≤ user.sz.toNat
  · rw [if_neg (by omega), if_pos inside]
  · rw [if_pos (by omega), if_neg inside]

theorem argint_eq : user.argint n = if user.Inside n then some (user.word n) else none :=
  user.fetchint_eq _

end UserSpace

end Xv6Kthreads
