import Mathlib.Data.Nat.ModEq
import Mathlib.Data.List.Basic
import Mathlib.Logic.Function.Basic

/-!
# Ring buffers with free-running counters

A ring buffer of `capacity` cells is a window of a stream: the item at position
`n` of the stream is kept in the cell `n % capacity`.  Its two counters are the
positions where the window begins and ends.  They only grow, and a machine
keeps them modulo a number that `capacity` divides.
-/

namespace Xv6Kthreads

namespace RingBuffer

variable {α : Type*} {capacity : Nat} [NeZero capacity]

def slot (capacity : Nat) [NeZero capacity] (position : Nat) : Fin capacity :=
  Fin.ofNat capacity position

/-- The cells hold `items`, the part of the stream that begins at position
`first`. -/
def Holds (cells : Fin capacity → α) (first : Nat) (items : List α) : Prop :=
  items.length ≤ capacity ∧ ∀ index item, items[index]? = some item →
      cells (slot capacity (first + index)) = item

theorem holds_nil (cells : Fin capacity → α) (first : Nat) : Holds cells first [] := by
  simp [Holds]

/-- Two positions at a distance below the capacity have different cells. -/
theorem slot_ne {first index last : Nat} (before : index < last) (near : last < capacity) :
    slot capacity (first + index) ≠ slot capacity (first + last) := by
  intro same
  have congruent : first + index ≡ first + last [MOD capacity] := congrArg Fin.val same
  have equal := Nat.ModEq.eq_of_lt_of_lt (Nat.ModEq.add_left_cancel' first congruent)
    (Nat.lt_trans before near) near
  omega

theorem Holds.push {cells : Fin capacity → α} {first : Nat} {items : List α}
    (holds : Holds cells first items) (room : items.length < capacity) (item : α) :
    Holds (Function.update cells (slot capacity (first + items.length)) item)
      first (items ++ [item]) := by
  refine ⟨by simpa [Nat.succ_le_iff] using room, ?_⟩
  intro index found isAt
  rcases Nat.lt_trichotomy index items.length with before | atEnd | after
  · rw [List.getElem?_append_left before] at isAt
    rw [Function.update_of_ne (slot_ne before room)]
    exact holds.2 index found isAt
  · subst atEnd
    simpa using isAt
  · rw [List.getElem?_eq_none (by simpa [Nat.succ_le_iff] using after)] at isAt
    cases isAt

/-- The first item is in the cell of the first position, and the window may
begin behind it. -/
theorem Holds.pop {cells : Fin capacity → α} {first : Nat} {item : α}
    {items : List α} (holds : Holds cells first (item :: items)) :
    cells (slot capacity first) = item ∧ Holds cells (first + 1) items := by
  refine ⟨holds.2 0 item rfl, ?_, ?_⟩
  · exact Nat.le_of_succ_le holds.1
  · intro index found isAt
    rw [Nat.add_assoc, Nat.add_comm 1 index]
    exact holds.2 (index + 1) found isAt

/-- The cell of a position can be computed from the wrapped counter. -/
theorem slot_mod {modulus : Nat} (divides : capacity ∣ modulus) (position : Nat) :
    slot capacity (position % modulus) = slot capacity position :=
  Fin.ext (Nat.mod_mod_of_dvd position divides)

/-- Wrapped counters tell distances below the modulus apart. -/
theorem wrapped_eq_iff {modulus first left right : Nat}
    (leftBelow : left < modulus) (rightBelow : right < modulus) :
    (first + left) % modulus = (first + right) % modulus ↔ left = right := by
  constructor
  · intro same
    exact Nat.ModEq.eq_of_lt_of_lt (Nat.ModEq.add_left_cancel' first same) leftBelow rightBelow
  · intro same
    rw [same]

end RingBuffer

end Xv6Kthreads
