import Mathlib.Data.List.Basic
import Mathlib.Logic.Function.Basic

/-!
# Lists stored at the front of a fixed array

A bounded queue is often kept in an array of nullable entries: the items
occupy the first entries in order and every later entry is null.  This file
relates such an array to the list it stores.
-/

namespace Xv6Kthreads

namespace BoundedQueue

variable {α : Type*} {capacity : Nat}

/-- The array `slots` stores exactly `items`, in order and from index zero;
every entry past them is null. -/
def Represents (slots : Fin capacity → Option α) (items : List α) : Prop :=
  items.length ≤ capacity ∧ ∀ index, slots index = items[index.val]?

theorem represents_nil : Represents (fun _ : Fin capacity => (none : Option α)) [] := by
  simp [Represents]

section

variable {slots : Fin capacity → Option α} {items : List α} (stored : Represents slots items)
include stored

theorem Represents.front_eq_none_iff (positive : 0 < capacity) :
    slots ⟨0, positive⟩ = none ↔ items = [] := by
  rw [stored.2]
  cases items <;> simp

theorem Represents.push (room : items.length < capacity) (item : α) :
    Represents (Function.update slots ⟨items.length, room⟩ (some item)) (items ++ [item]) := by
  refine ⟨by simpa [Nat.succ_le_iff] using room, ?_⟩
  intro index
  rcases eq_or_ne index ⟨items.length, room⟩ with rfl | atEnd
  · simp
  · rw [Function.update_of_ne atEnd, stored.2]
    have indexNe : index.val ≠ items.length := fun equal =>
      atEnd (Fin.ext equal)
    rcases Nat.lt_or_gt_of_ne indexNe with before | after
    · rw [List.getElem?_append_left before]
    · rw [List.getElem?_eq_none (Nat.le_of_lt after),
        List.getElem?_eq_none (by simpa [Nat.succ_le_iff] using after)]

end

end BoundedQueue

end Xv6Kthreads
