import Mathlib.Logic.Function.Basic

/-!
# The two `memmove`s

The kernel's `memmove` copies from the end when the destination begins inside
the source; the user library's always copies from the start.  Memory is the
function of its bytes, and addresses are natural numbers, since no range wraps:
where the kernel compares `s + n` with `d`, the sum is below the end of the
destination.
-/

namespace Xv6Kthreads

namespace Memmove

open Function

/-- `while(n-- > 0) *d++ = *s++`. -/
def copyUp : (n d s : Nat) → (Nat → UInt8) → Nat → UInt8
  | 0, _, _, memory => memory
  | n + 1, d, s, memory => copyUp n (d + 1) (s + 1) (update memory d (memory s))

/-- `while(n-- > 0) *--d = *--s`. -/
def copyDown : (n d s : Nat) → (Nat → UInt8) → Nat → UInt8
  | 0, _, _, memory => memory
  | n + 1, d, s, memory => copyDown n (d - 1) (s - 1) (update memory (d - 1) (memory (s - 1)))

def kernelMemmove (dst src n : Nat) (memory : Nat → UInt8) : Nat → UInt8 :=
  if src < dst ∧ src + n > dst then copyDown n (dst + n) (src + n) memory
  else copyUp n dst src memory

/-- The count is an `int`: a negative one copies nothing. -/
def userMemmove (dst src : Nat) (n : Int) (memory : Nat → UInt8) : Nat → UInt8 :=
  copyUp n.toNat dst src memory

/-- The bytes of the source stand at the destination. -/
def moved (dst src n : Nat) (memory : Nat → UInt8) (a : Nat) : UInt8 :=
  if dst ≤ a ∧ a < dst + n then memory (src + (a - dst)) else memory a

variable {dst src n : Nat} {memory : Nat → UInt8}

theorem moved_zero : moved dst src 0 memory = memory := by
  funext a
  rw [moved, if_neg (by omega)]

/-- Copying upwards reads no byte that it has written. -/
theorem copyUp_eq (apart : dst ≤ src ∨ src + n ≤ dst) :
    copyUp n dst src memory = moved dst src n memory := by
  induction n generalizing dst src memory with
  | zero => rw [copyUp, moved_zero]
  | succ n induction =>
    rw [copyUp, induction (by omega)]
    funext a
    by_cases rest : dst + 1 ≤ a ∧ a < dst + 1 + n
    · have unwritten : src + 1 + (a - (dst + 1)) ≠ dst := by omega
      have same : src + 1 + (a - (dst + 1)) = src + (a - dst) := by omega
      rw [moved, if_pos rest, update_of_ne unwritten, same, moved, if_pos (by omega)]
    · rw [moved, if_neg rest, moved]
      by_cases first : a = dst
      · subst first
        rw [update_self, if_pos (by omega), Nat.sub_self, Nat.add_zero]
      · rw [update_of_ne first, if_neg (by omega)]

theorem copyDown_eq (up : src ≤ dst) :
    copyDown n (dst + n) (src + n) memory = moved dst src n memory := by
  induction n generalizing memory with
  | zero => rw [copyDown, moved_zero]
  | succ n induction =>
    change copyDown n (dst + n) (src + n) (update memory (dst + n) (memory (src + n))) = _
    rw [induction]
    funext a
    by_cases rest : dst ≤ a ∧ a < dst + n
    · have unwritten : src + (a - dst) ≠ dst + n := by omega
      rw [moved, if_pos rest, update_of_ne unwritten, moved, if_pos (by omega)]
    · rw [moved, if_neg rest, moved]
      by_cases last : a = dst + n
      · subst last
        rw [update_self, if_pos (by omega), Nat.add_sub_cancel_left]
      · rw [update_of_ne last, if_neg (by omega)]

theorem copyUp_add (m : Nat) :
    copyUp (m + n) dst src memory = copyUp n (dst + m) (src + m) (copyUp m dst src memory) := by
  induction m generalizing dst src memory with
  | zero => rw [Nat.zero_add, copyUp, Nat.add_zero, Nat.add_zero]
  | succ m induction =>
    rw [Nat.add_right_comm, copyUp, induction, copyUp, Nat.add_right_comm dst, Nat.add_assoc dst,
      Nat.add_right_comm src, Nat.add_assoc src]

theorem copyUp_below {a : Nat} (below : a < dst) : copyUp n dst src memory a = memory a := by
  induction n generalizing dst src memory with
  | zero => rw [copyUp]
  | succ n induction => rw [copyUp, induction (by omega), update_of_ne (by omega)]

/-- When the destination begins inside the source, the first byte of the source
has already replaced the byte that is read for this place. -/
theorem copyUp_repeats (behind : src < dst) (inside : dst < src + n) :
    copyUp n dst src memory (dst + (dst - src)) = memory src := by
  have isCount : n = (dst - src) + ((n - (dst - src) - 1) + 1) := by omega
  have isNext : src + (dst - src) = dst := by omega
  rw [isCount, copyUp_add, copyUp, copyUp_below (by omega), update_self, isNext,
    copyUp_eq (by omega), moved, if_pos (by omega), Nat.sub_self, Nat.add_zero]

/-- The kernel's function moves the bytes whatever the overlap, the user
library's exactly if the destination does not begin inside the source. -/
theorem memmove_moves_iff (dst src n : Nat) :
    (∀ memory, kernelMemmove dst src n memory = moved dst src n memory) ∧
    ((∀ memory, userMemmove dst src n memory = moved dst src n memory) ↔
      ¬ (src < dst ∧ src + n > dst)) := by
  refine ⟨fun memory => ?_, fun moves overlap => ?_, fun apart memory => ?_⟩
  · unfold kernelMemmove
    split
    next overlap => exact copyDown_eq (by omega)
    next apart => exact copyUp_eq (by omega)
  · let memory : Nat → UInt8 := fun a => if a = dst then 1 else 0
    have isNext : src + (dst + (dst - src) - dst) = dst := by omega
    have expected : moved dst src n memory (dst + (dst - src)) = 1 := by
      rw [moved, if_pos (by omega), isNext]
      exact if_pos rfl
    have repeated : copyUp n dst src memory (dst + (dst - src)) = 0 :=
      (copyUp_repeats overlap.1 overlap.2).trans (if_neg (Nat.ne_of_lt overlap.1))
    rw [← moves, userMemmove, Int.toNat_natCast, repeated] at expected
    exact absurd expected (by decide)
  · rw [userMemmove, Int.toNat_natCast, copyUp_eq (by omega)]

/-- Two bytes moved up by one: the user library repeats the first. -/
theorem userMemmove_repeats :
    userMemmove 1 0 2 Nat.toUInt8 2 = 0 ∧ kernelMemmove 1 0 2 Nat.toUInt8 2 = 1 ∧
      moved 1 0 2 Nat.toUInt8 2 = 1 := by
  decide

end Memmove

end Xv6Kthreads
