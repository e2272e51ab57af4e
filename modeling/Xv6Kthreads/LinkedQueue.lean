import Mathlib.Data.Fintype.Card
import Mathlib.Data.List.Nodup
import Mathlib.Logic.Function.Basic

/-!
# Singly linked queues

A queue is a pointer to its first node and a map that gives each node the next
one.  This file relates such a queue to the list of its nodes: taking the first
node, and appending a node by a walk to the last one.  The walk is bounded by
the number of nodes, since a longer one would go around a cycle for ever.
-/

namespace Xv6Kthreads

namespace LinkedQueue

variable {Node : Type*}

def Chain (next : Node → Option Node) : Option Node → List Node → Prop
  | head, [] => head = none
  | head, item :: items => head = some item ∧ Chain next (next item) items

/-- The last node from `node` on, if it is found in `fuel` steps. -/
def last (next : Node → Option Node) : (fuel : Nat) → Node → Option Node
  | 0, _ => none
  | fuel + 1, node =>
    match next node with
    | none => some node
    | some following => last next fuel following

variable {next : Node → Option Node} {head : Option Node}
variable {items : List Node} {node : Node}

theorem Chain.head_eq (chain : Chain next head items) : head = items.head? := by
  cases items with
  | nil => exact chain
  | cons item items => exact chain.1

theorem Chain.update [DecidableEq Node] (chain : Chain next head items)
    (outside : node ∉ items) (target : Option Node) :
    Chain (Function.update next node target) head items := by
  induction items generalizing head with
  | nil => exact chain
  | cons item items ih =>
    rw [List.mem_cons, not_or] at outside
    refine ⟨chain.1, ?_⟩
    rw [Function.update_of_ne (Ne.symm outside.1)]
    exact ih chain.2 outside.2

theorem Chain.last_eq {item : Node} (chain : Chain next (some item) (item :: items)) (fuel : Nat)
    (enough : items.length < fuel) :
    last next fuel item = some ((item :: items).getLast (by simp)) := by
  induction fuel generalizing item items with
  | zero => omega
  | succ fuel ih =>
    cases items with
    | nil =>
      have isEnd : next item = none := chain.2
      simp [last, isEnd]
    | cons following items =>
      have isNext : next item = some following := chain.2.1
      have rest : Chain next (some following) (following :: items) := ⟨rfl, chain.2.2⟩
      simp only [last, isNext]
      rw [ih rest (by simpa using enough)]
      simp

theorem Chain.append [DecidableEq Node] {item : Node} (chain : Chain next head (item :: items))
    (isEnd : next node = none) (distinct : (item :: items).Nodup) (outside : node ∉ item :: items) :
    Chain (Function.update next ((item :: items).getLast (by simp))
      (some node)) head (item :: items ++ [node]) := by
  induction items generalizing head item with
  | nil =>
    have differs : node ≠ item := by simpa using outside
    refine ⟨chain.1, ?_⟩
    rw [List.getLast_singleton, Function.update_self]
    refine ⟨rfl, ?_⟩
    rw [Function.update_of_ne differs]
    exact isEnd
  | cons following items ih =>
    rw [List.nodup_cons] at distinct
    rw [List.mem_cons, not_or] at outside
    have rest := ih chain.2 distinct.2 outside.2
    have notLast : item ≠ (following :: items).getLast (by simp) := by
      intro same
      apply distinct.1
      rw [same]
      exact List.getLast_mem _
    refine ⟨chain.1, ?_⟩
    rw [List.getLast_cons (by simp), Function.update_of_ne notLast]
    exact rest

/-- A queue without repetitions is at most as long as there are nodes. -/
theorem length_lt_of_notMem [Fintype Node] (distinct : items.Nodup) (outside : node ∉ items) :
    items.length < Fintype.card Node := by
  have whole : (node :: items).Nodup := List.nodup_cons.mpr ⟨outside, distinct⟩
  have bound := whole.length_le_card
  rw [List.length_cons] at bound
  omega

end LinkedQueue

end Xv6Kthreads
