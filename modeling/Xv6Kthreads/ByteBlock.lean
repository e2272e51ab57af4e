import Mathlib.Algebra.GroupWithZero.Nat
import Mathlib.Data.Fin.Basic

/-!
# Blocks of bytes

A block is an array of bytes.  Integers of 32 bits are stored in it with their
lowest byte first.  Accesses outside the block read zero and write nothing.
-/

namespace Xv6Kthreads

/-- An array of `size` bytes. -/
abbrev ByteBlock (size : Nat) := Fin size → UInt8

namespace ByteBlock

variable {size : Nat} (block : ByteBlock size)

def byte (index : Nat) : Nat :=
  if inside : index < size then (block ⟨index, inside⟩).toNat else 0

def setByte (index value : Nat) : ByteBlock size :=
  fun other => if other.val = index then UInt8.ofNat value else block other

theorem byte_lt (index : Nat) : block.byte index < 256 := by
  unfold byte
  split
  next inside => exact (block ⟨index, inside⟩).toNat_lt
  next => omega

variable {index : Nat}

theorem byte_setByte_same (inside : index < size) (value : Nat) :
    (block.setByte index value).byte index = value % 256 := by
  simp [byte, setByte, inside]

theorem byte_setByte_of_ne {other : Nat} (otherNe : other ≠ index) (value : Nat) :
    (block.setByte index value).byte other = block.byte other := by
  simp [byte, setByte, otherNe]

/-- The integer stored at the four bytes from `4 * index`. -/
def word (index : Nat) : Nat :=
  block.byte (4 * index) + 256 * block.byte (4 * index + 1) +
    65536 * block.byte (4 * index + 2) + 16777216 * block.byte (4 * index + 3)

def setWord (index value : Nat) : ByteBlock size :=
  (((block.setByte (4 * index) value).setByte (4 * index + 1)
    (value / 256)).setByte (4 * index + 2) (value / 65536)).setByte
      (4 * index + 3) (value / 16777216)

theorem word_lt (index : Nat) : block.word index < 4294967296 := by
  have first := block.byte_lt (4 * index)
  have second := block.byte_lt (4 * index + 1)
  have third := block.byte_lt (4 * index + 2)
  have fourth := block.byte_lt (4 * index + 3)
  unfold word
  omega

theorem word_zero (index : Nat) : word (fun _ => 0 : ByteBlock size) index = 0 := by
  simp [word, byte]

theorem byte_setWord_of_outside {other : Nat}
    (outside : other < 4 * index ∨ 4 * index + 3 < other) (value : Nat) :
    (block.setWord index value).byte other = block.byte other := by
  unfold setWord
  rw [byte_setByte_of_ne _ (by omega), byte_setByte_of_ne _ (by omega),
    byte_setByte_of_ne _ (by omega), byte_setByte_of_ne _ (by omega)]

theorem word_setWord_of_ne {other : Nat} (otherNe : other ≠ index) (value : Nat) :
    (block.setWord index value).word other = block.word other := by
  unfold word
  rw [byte_setWord_of_outside _ (by omega), byte_setWord_of_outside _ (by omega),
    byte_setWord_of_outside _ (by omega),
    byte_setWord_of_outside _ (by omega)]

theorem word_setWord_same
    (inside : 4 * index + 3 < size) {value : Nat} (small : value < 4294967296) :
    (block.setWord index value).word index = value := by
  have first : (block.setWord index value).byte (4 * index) = value % 256 := by
    unfold setWord
    rw [byte_setByte_of_ne _ (by omega), byte_setByte_of_ne _ (by omega),
      byte_setByte_of_ne _ (by omega), byte_setByte_same _ (by omega)]
  have second : (block.setWord index value).byte (4 * index + 1) = value / 256 % 256 := by
    unfold setWord
    rw [byte_setByte_of_ne _ (by omega), byte_setByte_of_ne _ (by omega),
      byte_setByte_same _ (by omega)]
  have third : (block.setWord index value).byte (4 * index + 2) = value / 65536 % 256 := by
    unfold setWord
    rw [byte_setByte_of_ne _ (by omega), byte_setByte_same _ (by omega)]
  have fourth : (block.setWord index value).byte (4 * index + 3) = value / 16777216 % 256 := by
    unfold setWord
    rw [byte_setByte_same _ (by omega)]
  unfold word
  omega

def putWords (first count : Nat) (words : Nat → Nat) : ByteBlock size :=
  fun index =>
    if first ≤ index.val / 4 ∧ index.val / 4 < first + count then
      UInt8.ofNat (words (index.val / 4 - first) / 256 ^ (index.val % 4))
    else
      block index

variable (words : Nat → Nat)

theorem byte_putWords_inside {first count k : Nat}
    {part : Nat} (isPart : part < 4) (within : k < count) (inside : 4 * (first + k) + part < size) :
    (block.putWords first count words).byte (4 * (first + k) + part) =
      words k / 256 ^ part % 256 := by
  have quotient : (4 * (first + k) + part) / 4 = first + k := by omega
  have remainder : (4 * (first + k) + part) % 4 = part := by omega
  have index : first + k - first = k := by omega
  rw [byte, dif_pos inside, putWords]
  rw [quotient, remainder, if_pos (by omega), index, UInt8.toNat_ofNat']

theorem byte_putWords_outside {first count : Nat}
    (outside : index / 4 < first ∨ first + count ≤ index / 4) :
    (block.putWords first count words).byte index = block.byte index := by
  unfold byte putWords
  split
  next inside =>
    dsimp only
    rw [if_neg (by omega)]
  next => rfl

theorem word_putWords_inside {first count k : Nat} {words : Nat → Nat} (within : k < count)
    (inside : 4 * (first + k) + 3 < size) (small : words k < 4294967296) :
    (block.putWords first count words).word (first + k) = words k := by
  have stored : ∀ part < 4, (block.putWords first count words).byte
      (4 * (first + k) + part) = words k / 256 ^ part % 256 :=
    fun part isPart =>
      block.byte_putWords_inside words isPart within (by omega)
  have zeroth := stored 0 (by omega)
  rw [Nat.add_zero] at zeroth
  unfold word
  rw [zeroth, stored 1 (by omega), stored 2 (by omega), stored 3 (by omega)]
  omega

theorem word_putWords_outside {first count : Nat}
    {w : Nat} (outside : w < first ∨ first + count ≤ w) :
    (block.putWords first count words).word w = block.word w := by
  have same : ∀ part < 4, (block.putWords first count words).byte
      (4 * w + part) = block.byte (4 * w + part) := by
    intro part isPart
    apply block.byte_putWords_outside
    omega
  unfold word
  rw [same 1 (by omega), same 2 (by omega), same 3 (by omega)]
  have zeroth := same 0 (by omega)
  rw [Nat.add_zero] at zeroth
  rw [zeroth]

end ByteBlock

end Xv6Kthreads
