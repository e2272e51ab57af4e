import Xv6Kthreads.Paging
import Mathlib.Data.Finset.Card
import Mathlib.Data.Nat.Bitwise

/-!
# The tree below a page directory

A page directory and its page tables form a tree in memory.  This file states
that its pages are different and not free, and shows what `walkpgdir`,
`mappages` and `setupkvm` do to the entries of the tree.  A missing page table
counts as a table of zeros, so that a new table does not change the entries.
-/

namespace Xv6Kthreads

namespace Paging

open Sections Function

variable (page : Nat → Page)

def tableOf (d i : Nat) : Option Nat :=
  if (page d).word i &&& PTE_P ≠ 0 then some (pteAddr ((page d).word i))
  else none

def entry (d v : Nat) : Nat :=
  match tableOf page d (v / 1024) with
  | some table => (page table).word (v % 1024)
  | none => 0

def Node (d frame : Nat) : Prop :=
  frame = d ∨ ∃ i, tableOf page d i = some frame

def missing (d : Nat) : Finset Nat :=
  (Finset.range 1024).filter fun i => tableOf page d i = none

/-- The pages of the tree are different and not free, and the free pages are
different. -/
structure Tree (memory : Memory) (d : Nat) : Prop where
  nodup : memory.freelist.Nodup
  small : ∀ frame ∈ memory.freelist, frame < 2 ^ 20
  fresh : ∀ frame, Node memory.page d frame → frame ∉ memory.freelist
  tables : ∀ i table, tableOf memory.page d i = some table → table ≠ d
  unique : ∀ i j table, tableOf memory.page d i = some table →
    tableOf memory.page d j = some table → i = j

section Reading

variable {page after : Nat → Page} {d : Nat}

theorem tableOf_congr (same : after d = page d) (i : Nat) :
    tableOf after d i = tableOf page d i := by
  unfold tableOf
  rw [same]

theorem node_congr (same : after d = page d) (frame : Nat) :
    Node after d frame ↔ Node page d frame := by
  unfold Node
  simp only [tableOf_congr same]

theorem missing_congr (same : after d = page d) : missing after d = missing page d := by
  unfold missing
  simp only [tableOf_congr same]

theorem entry_congr (same : ∀ frame, Node page d frame → after frame = page frame) (v : Nat) :
    entry after d v = entry page d v := by
  unfold entry
  rw [tableOf_congr (same d (.inl rfl))]
  split
  next table isTable => rw [same table (.inr ⟨_, isTable⟩)]
  next => rfl

end Reading

/-! ### Packed entries -/

theorem present_iff (word : Nat) : word &&& PTE_P ≠ 0 ↔ word % 2 = 1 := by
  rw [PTE_P, Nat.and_one_is_mod]
  omega

theorem pack_eq (frame : Nat) {flags : Nat} (small : flags < 4096) :
    frame * PGSIZE ||| flags = frame * PGSIZE + flags := by
  have pack := Nat.two_pow_add_eq_or_of_lt (i := 12) small frame
  rw [PGSIZE, Nat.mul_comm frame]
  exact pack.symm

theorem or_present {flags : Nat} (present : flags % 2 = 1) : flags ||| PTE_P = flags := by
  apply Nat.eq_of_testBit_eq
  intro k
  rw [Nat.testBit_or, PTE_P]
  cases k with
  | zero => simp [Nat.testBit_zero, present]
  | succ k => simp [Nat.testBit_succ]

theorem pde_eq (frame : Nat) :
    frame * PGSIZE ||| PTE_P ||| PTE_W ||| PTE_U = frame * PGSIZE + 7 := by
  rw [Nat.or_assoc, Nat.or_assoc]
  exact pack_eq frame (by decide)

/-! ### Growing trees -/

/-- The tree has got page tables from the free list; no other page has
changed. -/
structure Grows (d : Nat) (before after : Memory) : Prop where
  tree : Tree after d
  free : after.freelist <:+ before.freelist
  kept : ∀ frame, frame ∉ before.freelist → ¬ Node before.page d frame →
    after.page frame = before.page frame
  nodes : ∀ frame, Node after.page d frame → Node before.page d frame ∨ frame ∈ before.freelist
  spent : before.freelist.length + (missing after.page d).card =
    after.freelist.length + (missing before.page d).card

section Growing

variable {before middle after : Memory} {d : Nat}

theorem Grows.refl (tree : Tree before d) : Grows d before before :=
  ⟨tree, List.suffix_refl _, fun _ _ _ => rfl, fun _ => .inl, rfl⟩

theorem Grows.trans (first : Grows d before middle) (second : Grows d middle after) :
    Grows d before after where
  tree := second.tree
  free := second.free.trans first.free
  kept frame notFree notNode := by
    have notFreeThen : frame ∉ middle.freelist := fun isFree => notFree (first.free.subset isFree)
    have notNodeThen : ¬ Node middle.page d frame := by
      intro isNode
      exact (first.nodes frame isNode).elim notNode notFree
    rw [second.kept frame notFreeThen notNodeThen, first.kept frame notFree notNode]
  nodes frame isNode := by
    rcases second.nodes frame isNode with isOld | isFree
    · exact first.nodes frame isOld
    · exact .inr (first.free.subset isFree)
  spent := by
    have one := first.spent
    have two := second.spent
    omega

theorem Tree.setWord (tree : Tree before d) {v table word : Nat}
    (isTable : tableOf before.page d (v / 1024) = some table) (small : word < 4294967296) :
    Grows d before (before.setWord table (v % 1024) word) ∧
      ∀ w, entry (before.setWord table (v % 1024) word).page d w =
        if w = v then word else entry before.page d w := by
  have differs := tree.tables _ _ isTable
  generalize isAfter : before.setWord table (v % 1024) word = after
  have own : after.page table = (before.page table).setWord (v % 1024) word := by
    rw [← isAfter]
    exact update_self ..
  have rest : ∀ frame, frame ≠ table → after.page frame = before.page frame := by
    intro frame isOther
    rw [← isAfter]
    exact update_of_ne isOther _ _
  have free : after.freelist = before.freelist := by
    rw [← isAfter]
    rfl
  have root : after.page d = before.page d := rest d (Ne.symm differs)
  refine ⟨⟨⟨?_, ?_, ?_, ?_, ?_⟩, ?_, ?_, ?_, ?_⟩, ?_⟩
  · rw [free]
    exact tree.nodup
  · rw [free]
    exact tree.small
  · intro frame
    rw [free, node_congr root]
    exact tree.fresh frame
  · intro i
    rw [tableOf_congr root]
    exact tree.tables i
  · intro i j
    rw [tableOf_congr root, tableOf_congr root]
    exact tree.unique i j
  · rw [free]
  · intro frame _ notNode
    apply rest
    rintro rfl
    exact notNode (.inr ⟨_, isTable⟩)
  · intro frame isNode
    exact .inl ((node_congr root frame).mp isNode)
  · rw [free, missing_congr root]
  · intro w
    unfold entry
    rw [tableOf_congr root]
    rcases eq_or_ne w v with rfl | same
    · rw [isTable, if_pos rfl]
      change (after.page table).word (w % 1024) = word
      rw [own]
      exact ByteBlock.word_setWord_same _ (by omega) small
    · rw [if_neg same]
      split
      next other isOther =>
        by_cases sameTable : other = table
        · have sameIndex := tree.unique _ _ _ (sameTable ▸ isOther) isTable
          rw [sameTable, own, ByteBlock.word_setWord_of_ne _ (by omega)]
        · rw [rest other sameTable]
      next => rfl

/-- The state after `walkpgdir` has added page table `table`. -/
def Memory.addTable (memory : Memory) (d i table : Nat) (rest : List Nat) : Memory :=
  (Memory.setPage ⟨rest, memory.page⟩ table fun _ => 0).setWord d i
    (table * PGSIZE ||| PTE_P ||| PTE_W ||| PTE_U)

theorem Tree.addTable (tree : Tree before d) {i table : Nat} {rest : List Nat}
    (free : before.freelist = table :: rest) (inside : i < 1024)
    (none : tableOf before.page d i = none) :
    Grows d before (before.addTable d i table rest) ∧
      (∀ j, tableOf (before.addTable d i table rest).page d j =
        if j = i then some table else tableOf before.page d j) ∧
      ∀ v, entry (before.addTable d i table rest).page d v = entry before.page d v := by
  have isFree : table ∈ before.freelist := by simp [free]
  have small : table < 2 ^ 20 := tree.small table isFree
  have notNode : ¬ Node before.page d table := fun isNode => tree.fresh table isNode isFree
  have differs : table ≠ d := fun same => notNode (.inl same)
  have nodup := tree.nodup
  rw [free, List.nodup_cons] at nodup
  generalize isAfter : before.addTable d i table rest = after
  have isRest : after.freelist = rest := by
    rw [← isAfter]
    rfl
  have root : after.page d = (before.page d).setWord i (table * PGSIZE + 7) := by
    rw [← isAfter, ← pde_eq]
    unfold Memory.addTable Memory.setWord Memory.setPage
    simp [update_of_ne (Ne.symm differs)]
  have zeros : after.page table = fun _ => 0 := by
    rw [← isAfter]
    unfold Memory.addTable Memory.setWord Memory.setPage
    simp [update_of_ne differs]
  have others : ∀ frame, frame ≠ d → frame ≠ table → after.page frame = before.page frame := by
    intro frame notRoot notTable
    rw [← isAfter]
    unfold Memory.addTable Memory.setWord Memory.setPage
    simp [update_of_ne notRoot, update_of_ne notTable]
  have tables : ∀ j, tableOf after.page d j =
      if j = i then some table else tableOf before.page d j := by
    intro j
    unfold tableOf
    rw [root]
    by_cases same : j = i
    · have odd : (table * PGSIZE + 7) &&& PTE_P ≠ 0 := by
        rw [present_iff, PGSIZE]
        omega
      have addr : pteAddr (table * PGSIZE + 7) = table := by
        unfold pteAddr PGSIZE
        omega
      rw [if_pos same, same, ByteBlock.word_setWord_same _ (by omega)
        (by unfold PGSIZE; omega), if_pos odd, addr]
    · rw [if_neg same, ByteBlock.word_setWord_of_ne _ same]
  have nodes : ∀ frame, Node after.page d frame → Node before.page d frame ∨ frame = table := by
    rintro frame (isRoot | ⟨j, isTable⟩)
    · exact .inl (.inl isRoot)
    · rw [tables] at isTable
      split at isTable
      next => exact .inr (Option.some.inj isTable).symm
      next => exact .inl (.inr ⟨j, isTable⟩)
  refine ⟨⟨⟨?_, ?_, ?_, ?_, ?_⟩, ?_, ?_, ?_, ?_⟩, ?_, ?_⟩
  · rw [isRest]
    exact nodup.2
  · intro frame isOld
    rw [isRest] at isOld
    exact tree.small frame (by simp [free, isOld])
  · intro frame isNode isOld
    rw [isRest] at isOld
    rcases nodes frame isNode with wasNode | rfl
    · exact tree.fresh frame wasNode (by simp [free, isOld])
    · exact nodup.1 isOld
  · intro j other isTable
    rw [tables] at isTable
    split at isTable
    next => exact Option.some.inj isTable ▸ differs
    next => exact tree.tables j other isTable
  · intro j k other first second
    rw [tables] at first second
    split at first <;> split at second
    next isFirst isSecond => rw [isFirst, isSecond]
    next =>
      cases first
      exact absurd (.inr ⟨k, second⟩) notNode
    next =>
      cases second
      exact absurd (.inr ⟨j, first⟩) notNode
    next => exact tree.unique j k other first second
  · rw [isRest, free]
    exact List.suffix_cons table rest
  · intro frame notFree notOld
    refine others frame (fun isRoot => notOld (.inl isRoot)) ?_
    rintro rfl
    exact notFree isFree
  · intro frame isNode
    rcases nodes frame isNode with wasNode | rfl
    · exact .inl wasNode
    · exact .inr isFree
  · have fewer : missing after.page d = (missing before.page d).erase i := by
      ext j
      simp only [missing, Finset.mem_filter, Finset.mem_erase, tables]
      by_cases same : j = i <;> simp [same]
    have isMissing : i ∈ missing before.page d := by
      simp [missing, inside, none]
    have positive := Finset.card_pos.mpr ⟨i, isMissing⟩
    rw [fewer, Finset.card_erase_of_mem isMissing, isRest, free, List.length_cons]
    omega
  · exact tables
  · intro v
    unfold entry
    rw [tables]
    by_cases same : v / 1024 = i
    · rw [if_pos same, same, none]
      change (after.page table).word _ = 0
      rw [zeros]
      exact ByteBlock.word_zero _
    · rw [if_neg same]
      split
      next other isTable =>
        have isNode : Node before.page d other := .inr ⟨_, isTable⟩
        rw [others other (tree.tables _ _ isTable) (fun isNew => notNode (isNew ▸ isNode))]
      next => rfl

end Growing

/-! ### `walkpgdir` -/

section Walking

variable {memory : Memory} {d va : Nat} {allowed : Panic → Prop}

theorem pdx_eq (inside : va < 2 ^ 32) : pdx va = va / 4096 / 1024 := by
  unfold pdx NPDENTRIES
  omega

theorem ptx_eq (va : Nat) : ptx va = va / 4096 % 1024 := rfl

theorem kalloc_wp {post : Option Nat → Memory → Prop}
    (empty : memory.freelist = [] → post none memory)
    (found : ∀ frame rest, memory.freelist = frame :: rest →
      post (some frame) ⟨rest, memory.page⟩) :
    kalloc.wp memory allowed post := by
  obtain ⟨freelist, page⟩ := memory
  cases freelist with
  | nil => exact empty rfl
  | cons frame rest => exact found frame rest rfl

/-- `walkpgdir` without allocation finds the entry if its page table exists. -/
theorem walkpgdir_wp {post : Option (Nat × Nat) → Memory → Prop} (inside : va < 2 ^ 32)
    (holds : post ((tableOf memory.page d (va / 4096 / 1024)).map
      fun table => (table, va / 4096 % 1024)) memory) :
    (walkpgdir d va false).wp memory allowed post := by
  unfold walkpgdir
  rw [Act.wp_bind, readWord, Act.wp_read, pdx_eq inside, ptx_eq]
  unfold tableOf at holds
  split
  next present =>
    rw [if_pos present] at holds
    exact holds
  next absent =>
    rw [if_neg absent] at holds
    exact holds

/-- The page table exists, or it has been taken from the free list. -/
def Finds (d i table : Nat) (before after : Memory) : Prop :=
  tableOf before.page d i = some table ∧ after = before ∨
    tableOf before.page d i = none ∧ ∃ rest, before.freelist = table :: rest ∧
      after = before.addTable d i table rest

/-- `walkpgdir` with allocation leaves the entries as they are. -/
theorem walkpgdir_alloc_wp {post : Option (Nat × Nat) → Memory → Prop}
    (tree : Tree memory d) (inside : va < 2 ^ 32)
    (found : ∀ after table, Finds d (va / 4096 / 1024) table memory after →
      Grows d memory after → tableOf after.page d (va / 4096 / 1024) = some table →
      (∀ v, entry after.page d v = entry memory.page d v) →
        post (some (table, va / 4096 % 1024)) after)
    (full : memory.freelist = [] →
      tableOf memory.page d (va / 4096 / 1024) = none → post none memory) :
    (walkpgdir d va true).wp memory allowed post := by
  unfold walkpgdir
  rw [Act.wp_bind, readWord, Act.wp_read, pdx_eq inside, ptx_eq]
  by_cases present : (memory.page d).word (va / 4096 / 1024) &&& PTE_P ≠ 0
  · have isTable : tableOf memory.page d (va / 4096 / 1024) =
        some (pteAddr ((memory.page d).word (va / 4096 / 1024))) := by
      rw [tableOf, if_pos present]
    rw [if_pos present]
    exact found memory _ (.inl ⟨isTable, rfl⟩) (Grows.refl tree) isTable fun _ => rfl
  · have none : tableOf memory.page d (va / 4096 / 1024) = none := by
      rw [tableOf, if_neg present]
    rw [if_neg present, if_neg (by decide), Act.wp_bind]
    refine kalloc_wp (fun isEmpty => full isEmpty none) ?_
    intro table rest isFree
    obtain ⟨grows, tables, entries⟩ := tree.addTable isFree (by omega) none
    exact found _ table (.inr ⟨none, rest, isFree, rfl⟩) grows
      ((tables _).trans (if_pos rfl)) entries

end Walking

/-! ### `mappages` -/

/-- The first `n` of the pages from `v` on are mapped to the pages from `pa`
on. -/
structure Maps (d v n pa perm : Nat) (before after : Memory) : Prop where
  grows : Grows d before after
  entries : ∀ w, entry after.page d w =
    if v ≤ w ∧ w < v + n then (pa + (w - v) * PGSIZE) ||| perm ||| PTE_P else entry before.page d w

/-- The first `n` of the pages from `v` on have got the entries `word 0`,
`word 1` and so on. -/
structure Stores (d v n : Nat) (word : Nat → Nat) (before after : Memory) : Prop where
  grows : Grows d before after
  entries : ∀ w, entry after.page d w =
    if v ≤ w ∧ w < v + n then word (w - v) else entry before.page d w

/-- The entry for the page with index `i` from the physical address `pa` on. -/
def pte (pa perm i : Nat) : Nat :=
  (pa + i * PGSIZE) % 2 ^ 32 ||| perm ||| PTE_P

section Mapping

variable {before : Memory} {d v n pa perm : Nat} {allowed : Panic → Prop}
  {post : Bool → Memory → Prop}

theorem Stores.nothing {word : Nat → Nat} (tree : Tree before d) :
    Stores d v 0 word before before :=
  ⟨Grows.refl tree, fun w => by rw [if_neg (by omega)]⟩

theorem Stores.cons {middle after : Memory} {word : Nat → Nat} (grows : Grows d before middle)
    (first : ∀ w, entry middle.page d w = if w = v then word 0 else entry before.page d w)
    (rest : Stores d (v + 1) n (fun i => word (i + 1)) middle after) :
    Stores d v (n + 1) word before after := by
  refine ⟨grows.trans rest.grows, ?_⟩
  intro w
  rw [rest.entries, first]
  by_cases isFirst : w = v
  · subst isFirst
    rw [if_neg (by omega), if_pos rfl, if_pos (by omega), Nat.sub_self]
  · by_cases isRest : v + 1 ≤ w ∧ w < v + 1 + n
    · have shift : w - (v + 1) + 1 = w - v := by omega
      rw [if_pos isRest, if_pos (by omega), shift]
    · rw [if_neg isRest, if_neg isFirst, if_neg (by omega)]

theorem pte_zero (inside : pa < 2 ^ 32) : pte pa perm 0 = pa ||| perm ||| PTE_P := by
  rw [pte, Nat.zero_mul, Nat.add_zero, Nat.mod_eq_of_lt inside]

theorem pte_succ : (fun i => pte pa perm (i + 1)) = pte ((pa + PGSIZE) % 2 ^ 32) perm := by
  funext i
  have same : (pa + (i + 1) * PGSIZE) % 2 ^ 32 =
      ((pa + PGSIZE) % 2 ^ 32 + i * PGSIZE) % 2 ^ 32 := by
    unfold PGSIZE
    omega
  rw [pte, pte, same]

theorem Stores.maps {after : Memory} (inside : pa + n * PGSIZE ≤ 2 ^ 32)
    (stores : Stores d v n (pte pa perm) before after) : Maps d v n pa perm before after := by
  refine ⟨stores.grows, fun w => ?_⟩
  rw [stores.entries]
  split
  next isPage =>
    rw [pte, Nat.mod_eq_of_lt]
    unfold PGSIZE at inside ⊢
    omega
  next => rfl

/-- The loop of `mappages` maps `n + 1` pages, or it maps some of them and
fails at a missing page table because there is no free page. -/
theorem mappagesLoop_wp {fuel : Nat} (tree : Tree before d)
    (inside : v + n < 2 ^ 20) (enough : n < fuel) (target : pa < 2 ^ 32) (isPerm : perm < 4096)
    (empty : ∀ w, v ≤ w → w ≤ v + n → entry before.page d w % 2 = 0)
    (done : ∀ after, Stores d v (n + 1) (pte pa perm) before after → post true after)
    (failed : ∀ k after, k ≤ n → Stores d v k (pte pa perm) before after →
      after.freelist = [] → tableOf after.page d ((v + k) / 1024) = none → post false after) :
    (mappagesLoop d ((v + n) * PGSIZE) perm fuel (v * PGSIZE) pa).wp before
      allowed post := by
  induction fuel generalizing before v n pa post with
  | zero => omega
  | succ fuel ih =>
    have page : v * PGSIZE / 4096 = v := by
      unfold PGSIZE
      omega
    have address : v * PGSIZE < 2 ^ 32 := by
      omega
    have word : pte pa perm 0 < 2 ^ 32 := by
      rw [pte_zero target]
      refine Nat.or_lt_two_pow (Nat.or_lt_two_pow target ?_) (by decide)
      omega
    rw [mappagesLoop, Act.wp_bind]
    refine walkpgdir_alloc_wp tree address ?_ ?_
    · intro middle table _ grows isTable same
      rw [page] at isTable ⊢
      have old : (middle.page table).word (v % 1024) = entry before.page d v := by
        rw [← same, entry, isTable]
      have absent : ¬ (middle.page table).word (v % 1024) &&& PTE_P ≠ 0 := by
        rw [present_iff, old, empty v (by omega) (by omega)]
        decide
      obtain ⟨writes, entries⟩ := grows.tree.setWord isTable word
      simp only [same] at entries
      rw [Act.wp_bind, readWord, Act.wp_read, if_neg absent, Act.wp_bind, writeWord, Act.wp_modify,
        ← pte_zero target]
      cases n with
      | zero =>
        rw [Nat.add_zero, if_pos rfl]
        exact done _ (Stores.cons (grows.trans writes) entries (Stores.nothing writes.tree))
      | succ n =>
        have notLast : ¬ v * PGSIZE = (v + (n + 1)) * PGSIZE := by
          unfold PGSIZE
          omega
        have last : v + (n + 1) = v + 1 + n := by omega
        have nextPage : (v * PGSIZE + PGSIZE) % 2 ^ 32 = (v + 1) * PGSIZE := by
          unfold PGSIZE
          omega
        rw [if_neg notLast, nextPage, last]
        refine ih writes.tree (by omega) (by omega) (Nat.mod_lt _ (by decide)) ?_ ?_ ?_
        · intro w above below
          rw [entries, if_neg (by omega)]
          exact empty w (by omega) (by omega)
        · intro after stores
          rw [← pte_succ] at stores
          exact done after (Stores.cons (grows.trans writes) entries stores)
        · intro k after few stores isEmpty none
          have shift : v + (k + 1) = v + 1 + k := by omega
          rw [← pte_succ] at stores
          refine failed (k + 1) after (by omega)
            (Stores.cons (grows.trans writes) entries stores) isEmpty ?_
          rw [shift]
          exact none
    · intro isEmpty none
      rw [page] at none
      exact failed 0 before (Nat.zero_le n) (Stores.nothing tree) isEmpty none

theorem mappages_wp {size : Nat} (tree : Tree before d)
    (more : n * PGSIZE < size) (covers : size ≤ (n + 1) * PGSIZE) (inside : v + n < 2 ^ 20)
    (target : pa < 2 ^ 32) (isPerm : perm < 4096)
    (empty : ∀ w, v ≤ w → w ≤ v + n → entry before.page d w % 2 = 0)
    (done : ∀ after, Stores d v (n + 1) (pte pa perm) before after → post true after)
    (failed : ∀ k after, k ≤ n → Stores d v k (pte pa perm) before after →
      after.freelist = [] → tableOf after.page d ((v + k) / 1024) = none → post false after) :
    (mappages d (v * PGSIZE) size pa perm).wp before allowed post := by
  have first : pgrounddown (v * PGSIZE) = v * PGSIZE := by
    unfold pgrounddown PGSIZE
    omega
  have last : pgrounddown ((v * PGSIZE + size + (2 ^ 32 - 1)) % 2 ^ 32) = (v + n) * PGSIZE := by
    unfold PGSIZE at more covers
    unfold pgrounddown PGSIZE
    omega
  unfold mappages
  rw [first, last]
  exact mappagesLoop_wp tree inside (by omega) target isPerm empty done failed

end Mapping

end Paging

end Xv6Kthreads
