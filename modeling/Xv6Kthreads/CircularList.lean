import Mathlib.Data.List.Basic
import Mathlib.Data.List.Nodup
import Mathlib.Logic.Function.Basic

/-!
# Circular doubly linked lists

Nodes are linked by two pointer maps.  A ring is the cycle through a head node
and the nodes of a list in order, readable in both directions.  Taking a node
out and putting it back behind the head are the usual pointer assignments,
executed one after the other; this file computes their effect on the list, and
the result of a walk that looks for a node.
-/

namespace Xv6Kthreads

open Function List

namespace CircularList

structure Links (Node : Type*) where
  next : Node → Node
  prev : Node → Node

variable {Node : Type*} {links : Links Node} {node : Node}

namespace Links

def swap (links : Links Node) : Links Node :=
  ⟨links.prev, links.next⟩

variable [DecidableEq Node]

def setNext (links : Links Node) (node target : Node) : Links Node :=
  { links with next := update links.next node target }

def setPrev (links : Links Node) (node target : Node) : Links Node :=
  { links with prev := update links.prev node target }

def link (links : Links Node) (first second : Node) : Links Node :=
  (links.setNext first second).setPrev second first

def unlink (links : Links Node) (node : Node) : Links Node :=
  let passed := links.setPrev (links.next node) (links.prev node)
  passed.setNext (passed.prev node) (passed.next node)

def pushFront (links : Links Node) (head node : Node) : Links Node :=
  let forward := links.setNext node (links.next head)
  let backward := forward.setPrev node head
  let behind := backward.setPrev (backward.next head) node
  behind.setNext head node

def moveToFront (links : Links Node) (head node : Node) : Links Node :=
  (links.unlink node).pushFront head node

/-- A node that does not follow itself is passed by one new link. -/
theorem unlink_eq_link (nextNe : links.next node ≠ node) :
    links.unlink node = links.link (links.prev node) (links.next node) := by
  simp [unlink, link, setNext, setPrev, update_of_ne nextNe.symm]

/-- A node that the head does not lead to is put behind it by two new
links. -/
theorem pushFront_eq_link {head : Node} (headNe : head ≠ node) (nextNe : links.next head ≠ node) :
    links.pushFront head node = (links.link node (links.next head)).link head node := by
  simp [pushFront, link, setNext, setPrev, update_of_ne headNe, update_comm nextNe]

end Links

/-- `second` follows `first`, and the way back is the same. -/
def Edge (links : Links Node) (first second : Node) : Prop :=
  links.next first = second ∧ links.prev second = first

/-- The pointers lead from `first` through the nodes of the list to `last`, and
back. -/
def Linked (links : Links Node) : Node → List Node → Node → Prop
  | first, [], last => Edge links first last
  | first, node :: nodes, last => Edge links first node ∧ Linked links node nodes last

variable {first : Node} {nodes : List Node} {last : Node}

section Link

variable [DecidableEq Node] {links : Links Node}

theorem edge_link (first second : Node) : Edge (links.link first second) first second :=
  ⟨update_self .., update_self ..⟩

theorem Edge.link {second source target : Node} (edge : Edge links first second)
    (sourceNe : first ≠ source) (targetNe : second ≠ target) :
    Edge (links.link source target) first second :=
  ⟨(update_of_ne sourceNe ..).trans edge.1, (update_of_ne targetNe ..).trans edge.2⟩

theorem Linked.link {source target : Node} (linked : Linked links first nodes last)
    (sourceAway : source ∉ first :: nodes) (targetAway : target ∉ nodes ++ [last]) :
    Linked (links.link source target) first nodes last := by
  induction nodes generalizing first with
  | nil =>
    apply Edge.link linked
    · exact fun equal => sourceAway (equal ▸ mem_cons_self ..)
    · exact fun equal => targetAway (equal ▸ mem_cons_self ..)
  | cons node nodes ih =>
    refine ⟨linked.1.link ?_ ?_, ih linked.2 ?_ ?_⟩
    · exact fun equal => sourceAway (equal ▸ mem_cons_self ..)
    · exact fun equal => targetAway (equal ▸ mem_cons_self ..)
    · exact fun member => sourceAway (mem_cons_of_mem _ member)
    · exact fun member => targetAway (mem_cons_of_mem _ member)

end Link

theorem linked_append {middle : Node} {front back : List Node} :
    Linked links first (front ++ middle :: back) last ↔
      Linked links first front middle ∧ Linked links middle back last := by
  induction front generalizing first with
  | nil => simp only [nil_append, Linked]
  | cons node nodes ih => simp only [cons_append, Linked, ih, and_assoc]

section

variable (linked : Linked links first nodes last)
include linked

theorem Linked.next_mem : links.next first ∈ nodes ++ [last] := by
  cases nodes with
  | nil => simp [linked.1]
  | cons node nodes => simp [linked.1.1]

theorem Linked.prev_mem : links.prev last ∈ first :: nodes := by
  induction nodes generalizing first with
  | nil => simp [linked.2]
  | cons node nodes ih => exact mem_cons_of_mem _ (ih linked.2)

theorem Linked.swap : Linked links.swap last nodes.reverse first := by
  induction nodes generalizing first with
  | nil => exact ⟨linked.2, linked.1⟩
  | cons node nodes ih =>
    rw [reverse_cons]
    exact linked_append.mpr ⟨ih linked.2, linked.1.2, linked.1.1⟩

end

/-- Linking the neighbours of a node joins the paths on its two sides. -/
theorem Linked.bypass [DecidableEq Node] {middle : Node} {front back : List Node}
    (before : Linked links first front middle) (after : Linked links middle back last)
    (distinct : (front ++ middle :: back).Nodup) (firstNotMem : first ∉ front ++ middle :: back)
    (lastNotMem : last ∉ front ++ middle :: back) :
    Linked (links.link (links.prev middle) (links.next middle)) first (front ++ back) last := by
  induction front generalizing first with
  | nil =>
    have prev : links.prev middle = first := before.2
    cases back with
    | nil =>
      have next : links.next middle = last := after.1
      rw [prev, next]
      exact edge_link first last
    | cons node nodes =>
      have next : links.next middle = node := after.1.1
      rw [prev, next]
      refine ⟨edge_link first node, after.2.link ?_ ?_⟩
      · exact fun member => firstNotMem (mem_cons_of_mem _ member)
      · intro member
        rcases mem_append.mp member with member | member
        · have tail := (nodup_cons.mp distinct).2
          exact (nodup_cons.mp tail).1 member
        · apply lastNotMem
          rw [← mem_singleton.mp member]
          simp
  | cons node nodes ih =>
    rw [cons_append] at distinct firstNotMem lastNotMem
    have tail := nodup_cons.mp distinct
    refine ⟨before.1.link ?_ ?_, ih before.2 tail.2 tail.1 ?_⟩
    · intro equal
      have member := before.2.prev_mem
      rw [← equal] at member
      apply firstNotMem
      exact mem_append_left _ member
    · intro equal
      have member := after.next_mem
      rw [← equal] at member
      rcases mem_append.mp member with member | member
      · exact tail.1 (by simp [member])
      · exact lastNotMem (by simp [mem_singleton.mp member])
    · exact fun member => lastNotMem (mem_cons_of_mem _ member)

structure Ring (links : Links Node) (head : Node) (order : List Node) : Prop where
  nodup : (head :: order).Nodup
  linked : Linked links head order head

namespace Ring

variable {links : Links Node} {head : Node} {order : List Node}

theorem head_notMem (ring : Ring links head order) : head ∉ order :=
  (nodup_cons.mp ring.nodup).1

theorem of_self (self : Edge links head head) : Ring links head [] :=
  ⟨by simp, self⟩

theorem swap (ring : Ring links head order) : Ring links.swap head order.reverse := by
  refine ⟨?_, ring.linked.swap⟩
  have distinct := nodup_cons.mp ring.nodup
  refine nodup_cons.mpr ⟨?_, nodup_reverse.mpr distinct.2⟩
  simpa using distinct.1

variable [DecidableEq Node]

/-- The new node stands between the head and the former first node. -/
theorem pushFront (ring : Ring links head order) (headNe : head ≠ node) (fresh : node ∉ order) :
    Ring (links.pushFront head node) head (node :: order) := by
  have headNotMem := ring.head_notMem
  have distinct := (nodup_cons.mp ring.nodup).2
  have away : node ∉ order ++ [head] := by
    simp [fresh, headNe.symm]
  have nextNe : links.next head ≠ node := fun equal =>
    away (equal ▸ ring.linked.next_mem)
  rw [Links.pushFront_eq_link headNe nextNe]
  refine ⟨?_, edge_link head node, ?_⟩
  · simp [headNe, headNotMem, fresh, distinct]
  · cases order with
    | nil =>
      have next : links.next head = head := ring.linked.1
      rw [next]
      exact (edge_link node head).link headNe.symm headNe
    | cons first rest =>
      have next : links.next head = first := ring.linked.1.1
      have inner := nodup_cons.mp distinct
      rw [next] at nextNe ⊢
      refine ⟨(edge_link node first).link headNe.symm nextNe, ?_⟩
      apply Linked.link
      · apply ring.linked.2.link fresh
        intro member
        rcases mem_append.mp member with member | member
        · exact inner.1 member
        · apply headNotMem
          rw [← mem_singleton.mp member]
          exact mem_cons_self ..
      · exact headNotMem
      · exact fun member => away (mem_cons_of_mem _ member)

section

variable {front back : List Node} (ring : Ring links head (front ++ node :: back))
include ring

theorem unlink : Ring (links.unlink node) head (front ++ back) := by
  have headNotMem := ring.head_notMem
  have distinct := (nodup_cons.mp ring.nodup).2
  obtain ⟨before, after⟩ := linked_append.mp ring.linked
  have nextNe : links.next node ≠ node := by
    intro equal
    have member := after.next_mem
    rw [equal] at member
    rcases mem_append.mp member with member | member
    · exact (nodup_cons.mp (nodup_append.mp distinct).2.1).1 member
    · exact headNotMem (by simp [mem_singleton.mp member])
  rw [Links.unlink_eq_link nextNe]
  refine ⟨?_, before.bypass after distinct headNotMem headNotMem⟩
  have kept : (front ++ back).Sublist (front ++ node :: back) :=
    (sublist_cons_self node back).append_left front
  exact nodup_cons.mpr ⟨fun member => headNotMem (kept.subset member), distinct.sublist kept⟩

/-- Moving a node to the front takes it out of the order and puts it first. -/
theorem moveToFront : Ring (links.moveToFront head node) head (node :: (front ++ back)) := by
  have headNe : head ≠ node := fun equal =>
    ring.head_notMem (equal ▸ by simp)
  have distinct := perm_middle.nodup_iff.mp (nodup_cons.mp ring.nodup).2
  exact ring.unlink.pushFront headNe (nodup_cons.mp distinct).1

end

end Ring

section Walk

variable [DecidableEq Node]

/-- Follow the pointers until the head is met again, and stop at the first node
that passes the test. -/
def walk (advance : Node → Node) (head : Node) (test : Node → Bool) : Nat → Node → Option Node
  | 0, _ => none
  | fuel + 1, node =>
    if node = head then none
    else if test node then some node
    else walk advance head test fuel (advance node)

theorem Linked.walk_eq_find {head : Node} (linked : Linked links first nodes head)
    (headNotMem : head ∉ nodes) (test : Node → Bool) (fuel : Nat) (enough : nodes.length ≤ fuel) :
    walk links.next head test fuel (links.next first) = nodes.find? test := by
  induction nodes generalizing first fuel with
  | nil =>
    have next : links.next first = head := linked.1
    cases fuel with
    | zero => rfl
    | succ fuel => simp [walk, next]
  | cons node nodes ih =>
    have next : links.next first = node := linked.1.1
    have headNe : node ≠ head := fun equal =>
      headNotMem (equal ▸ mem_cons_self ..)
    cases fuel with
    | zero => simp at enough
    | succ fuel =>
      have rest := ih linked.2 (fun member => headNotMem (mem_cons_of_mem _ member)) fuel
        (Nat.le_of_succ_le_succ enough)
      rw [next, walk, if_neg headNe, find?_cons]
      cases passes : test node with
      | false => simpa [passes] using rest
      | true => simp

namespace Ring

variable {links : Links Node} {head : Node} {order : List Node}

section

variable (ring : Ring links head order) (test : Node → Bool) (fuel : Nat)
  (enough : order.length ≤ fuel)
include ring test fuel enough

theorem walk_next : walk links.next head test fuel (links.next head) = order.find? test :=
  ring.linked.walk_eq_find ring.head_notMem test fuel enough

theorem walk_prev : walk links.prev head test fuel (links.prev head) = order.reverse.find? test :=
  ring.swap.walk_next test fuel (by simpa using enough)

end

end Ring

end Walk

end CircularList

end Xv6Kthreads
