import Xv6Kthreads.PageTables

/-!
# `copyout` byte by byte

The loop of `copyout` copies up to the end of a page in each iteration.  It does
the same as a loop that looks up the page of every single byte, which is easier
to reason about.
-/

namespace Xv6Kthreads

namespace PageTables

open Sections Function Act List

def Memory.moved (memory : Memory) (frame first : Nat) (bytes : List UInt8) :
    Memory :=
  { memory with
    byte := update memory.byte frame fun index =>
      if first ≤ index then
        (bytes[index - first]?).getD (memory.byte frame index)
      else
        memory.byte frame index }

variable {space : Space} {pte : Pte} {va : Nat} {memory : Memory}

/-- The physical page and the offset of an address that the user can access. -/
def translate (space : Space) (va : Nat) : Option (Nat × Nat) :=
  match walkpgdir space (vpn va) with
  | some (some pte) => if pte.user then some (pte.frame, va % PGSIZE) else none
  | _ => none

/-- `uva2ka` fails where the user has no access, and its result is null for the
page that `p2v` puts at address zero. -/
def uva2ka (space : Space) (va : Nat) : Option (Nat × Nat) :=
  (translate space va).filter fun place => p2v place.1 ≠ 0

/-- The address of byte `i` of the range that starts at `va`. -/
def address (va i : Nat) : Nat :=
  (va + i) % 2 ^ 32

/-- Bytes at no translated address of the range are kept, and in a range that is
all translated the last byte stored at an address is there. -/
structure Copied (place : Nat → Option (Nat × Nat)) (va : Nat) (bytes : List UInt8)
    (before after : Nat → Nat → UInt8) : Prop where
  confined : ∀ frame index, (∀ i < bytes.length, place (address va i) ≠ some (frame, index)) →
    after frame index = before frame index
  stored : (∀ i < bytes.length, (place (address va i)).isSome) →
    ∀ i byte frame index, bytes[i]? = some byte → place (address va i) = some (frame, index) →
      (∀ j < bytes.length, i < j → place (address va j) ≠ some (frame, index)) →
        after frame index = byte

theorem address_succ (va i : Nat) : address ((va + 1) % 2 ^ 32) i = address va (i + 1) := by
  rw [address, address, Nat.mod_add_mod, Nat.add_assoc, Nat.add_comm 1]

theorem address_zero (small : va < 2 ^ 32) : address va 0 = va :=
  Nat.mod_eq_of_lt small

theorem forall_address (small : va < 2 ^ 32) (holds : Nat → Prop) (count : Nat) :
    (∀ i < count + 1, holds (address va i)) ↔
      holds va ∧ ∀ i < count, holds (address ((va + 1) % 2 ^ 32) i) := by
  simp only [Nat.forall_lt_succ_left, address_zero small, address_succ]

/-- The first byte is stored, and the others follow. -/
theorem Copied.cons {place : Nat × Nat} (small : va < 2 ^ 32)
    (translated : uva2ka space va = some place) {byte : UInt8} {bytes : List UInt8}
    {before after : Nat → Nat → UInt8}
    (copied : Copied (uva2ka space) ((va + 1) % 2 ^ 32) bytes
      (fun frame index => if (frame, index) = place then byte else before frame index) after) :
    Copied (uva2ka space) va (byte :: bytes) before after := by
  refine ⟨fun frame index outside => ?_, fun all => ?_⟩
  · obtain ⟨first, others⟩ := (forall_address small
      (fun place => uva2ka space place ≠ some (frame, index)) _).mp outside
    rw [copied.confined frame index others, if_neg]
    rintro rfl
    exact first translated
  · obtain ⟨-, others⟩ := (forall_address small (fun place => (uva2ka space place).isSome) _).mp all
    rintro (_ | i) value frame index isByte isPlace last
    · rw [address_zero small, translated] at isPlace
      cases isPlace
      rw [copied.confined]
      · simpa using isByte
      · intro i inside
        rw [address_succ]
        exact last (i + 1) (by simpa using inside) (Nat.succ_pos i)
    · refine copied.stored others i value frame index (by simpa using isByte) ?_ ?_
      · rwa [address_succ]
      · intro j inside later
        rw [address_succ]
        exact last (j + 1) (by simpa using inside) (by omega)

/-- One page table; its first page is accessible and the second one is not. -/
def onePage : Space where
  directory := 1
  table index := if index = 0 then some 2 else none
  entry page := if page = 0 then some ⟨3, true, true⟩ else none

end PageTables

end Xv6Kthreads
