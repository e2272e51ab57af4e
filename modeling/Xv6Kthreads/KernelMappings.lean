import Xv6Kthreads.PagingTrees

/-!
# The kernel's mappings

`setupkvm` maps the ranges of the table `kmap` into an empty directory.  The
ranges are whole pages and do not overlap, and the last one ends with the
address space.
-/

namespace Xv6Kthreads

namespace Paging

open Sections List

namespace Kmap

variable (k : Kmap)

def first : Nat :=
  k.virt / PGSIZE

def pages : Nat :=
  k.size / PGSIZE

def Covers (v : Nat) : Prop :=
  k.first ≤ v ∧ v < k.first + k.pages

instance (v : Nat) : Decidable (k.Covers v) :=
  inferInstanceAs (Decidable (_ ∧ _))

def pte (v : Nat) : Nat :=
  (k.physStart + (v - k.first) * PGSIZE) ||| k.perm ||| PTE_P

structure Whole : Prop where
  virt : k.virt = k.first * PGSIZE
  size : k.size = k.pages * PGSIZE
  some : 0 < k.pages
  inside : k.first + k.pages ≤ 2 ^ 20
  target : k.physStart + k.pages * PGSIZE ≤ 2 ^ 32
  perm : k.perm < 4096

end Kmap

/-- The entries after the ranges have been mapped over `old`. -/
def overlay (ranges : List Kmap) (old : Nat → Nat) (v : Nat) : Nat :=
  match ranges.find? fun k => k.Covers v with
  | some k => k.pte v
  | none => old v

section Ranges

variable {before : Memory} {d : Nat} {allowed : Panic → Prop} {post : Bool → Memory → Prop}

/-- The loop of `setupkvm` maps all ranges, or it stops at a missing page table
because there is no free page. -/
theorem setupkvmLoop_wp {ranges : List Kmap} (tree : Tree before d) (whole : ∀ k ∈ ranges, k.Whole)
    (apart : ranges.Pairwise fun k other => ∀ v, k.Covers v → ¬ other.Covers v)
    (empty : ∀ k ∈ ranges, ∀ v, k.Covers v → entry before.page d v % 2 = 0)
    (done : ∀ after, Grows d before after →
      (∀ v, entry after.page d v = overlay ranges (entry before.page d) v) → post true after)
    (failed : ∀ after, Grows d before after → after.freelist = [] →
      (missing after.page d).Nonempty → post false after) :
    (setupkvmLoop d ranges).wp before allowed post := by
  induction ranges generalizing before with
  | nil => exact done before (Grows.refl tree) fun _ => rfl
  | cons k ranges ih =>
    have isWhole := whole k (by simp)
    obtain ⟨n, count⟩ := Nat.exists_eq_succ_of_ne_zero (Nat.ne_of_gt isWhole.some)
    have inside := isWhole.inside
    have target := isWhole.target
    have size := isWhole.size
    rw [count] at inside target size
    rw [pairwise_cons] at apart
    rw [setupkvmLoop, Act.wp_bind, isWhole.virt]
    unfold PGSIZE at target
    refine mappages_wp tree ?_ (Nat.le_of_eq size) (by omega) (by omega) isWhole.perm ?_ ?_ ?_
    · rw [size]
      unfold PGSIZE
      omega
    · intro v above below
      refine empty k (by simp) v ⟨above, ?_⟩
      omega
    · intro middle stores
      have maps := stores.maps target
      have entries : ∀ v, entry middle.page d v =
          if k.Covers v then k.pte v else entry before.page d v := by
        intro v
        rw [maps.entries, ← count]
        rfl
      refine ih maps.grows.tree ?_ apart.2 ?_ ?_ ?_
      · intro other isOther
        exact whole other (by simp [isOther])
      · intro other isOther v covers
        rw [entries, if_neg fun both => apart.1 other isOther v both covers]
        exact empty other (by simp [isOther]) v covers
      · intro after grows rest
        refine done after (maps.grows.trans grows) ?_
        intro v
        rw [rest, overlay, overlay, find?_cons]
        by_cases covers : k.Covers v
        · have others : ranges.find? (fun other => other.Covers v) =
              none := by
            rw [find?_eq_none]
            intro other isOther
            simp [apart.1 other isOther v covers]
          rw [others, entries, if_pos covers]
          simp [covers]
        · simp only [covers, decide_false, entries]
          rfl
      · intro after grows isEmpty some
        exact failed after (maps.grows.trans grows) isEmpty some
    · intro m after few stores isEmpty none
      refine failed after stores.grows isEmpty ⟨(k.first + m) / 1024, ?_⟩
      simp only [missing, Finset.mem_filter, Finset.mem_range]
      exact ⟨by omega, none⟩

end Ranges

/-- The range that maps `n` pages from virtual page `v` on to the pages from
`frame` on. -/
def Kmap.ofPages (v n frame perm : Nat) : Kmap :=
  ⟨v * PGSIZE, frame * PGSIZE, (frame + n) * PGSIZE % 2 ^ 32, perm⟩

/-- The entries of a range of whole pages hold the address and the flags. -/
theorem Kmap.pte_ofPages {v n frame perm w : Nat} (small : perm ||| PTE_P < 4) :
    (Kmap.ofPages v n frame perm).pte w = (frame + (w - v)) * PGSIZE + (perm ||| PTE_P) := by
  have first : (Kmap.ofPages v n frame perm).first = v := Nat.mul_div_cancel v (by decide)
  rw [Kmap.pte, first]
  change frame * PGSIZE + _ ||| perm ||| PTE_P = _
  rw [← Nat.add_mul, Nat.or_assoc]
  exact pack_eq _ (by omega)

section Pages

variable {v n frame perm : Nat} (some : 0 < n) (proper : n < 2 ^ 20) (target : frame + n ≤ 2 ^ 20)

include some proper target

theorem Kmap.size_ofPages : (Kmap.ofPages v n frame perm).size = n * PGSIZE := by
  unfold Kmap.size Kmap.ofPages PGSIZE
  dsimp only
  omega

theorem Kmap.covers_ofPages (w : Nat) :
    (Kmap.ofPages v n frame perm).Covers w ↔ v ≤ w ∧ w < v + n := by
  have first : (Kmap.ofPages v n frame perm).first = v := Nat.mul_div_cancel v (by decide)
  unfold Kmap.Covers Kmap.pages
  rw [first, Kmap.size_ofPages some proper target, Nat.mul_div_cancel n (by decide)]

theorem Kmap.whole_ofPages (inside : v + n ≤ 2 ^ 20) (small : perm < 4096) :
    (Kmap.ofPages v n frame perm).Whole := by
  have first : (Kmap.ofPages v n frame perm).first = v := Nat.mul_div_cancel v (by decide)
  have size := @Kmap.size_ofPages v n frame perm some proper target
  have pages : (Kmap.ofPages v n frame perm).pages = n := by
    unfold Kmap.pages
    rw [size]
    exact Nat.mul_div_cancel n (by decide)
  refine ⟨?_, ?_, ?_, ?_, ?_, small⟩
  · rw [first]
    rfl
  · rw [size, pages]
  · rw [pages]
    exact some
  · rw [first, pages]
    exact inside
  · rw [pages]
    change frame * PGSIZE + n * PGSIZE ≤ 2 ^ 32
    unfold PGSIZE
    omega

end Pages

section Kernel

variable [layout : Layout]

def kernelEntry (v : Nat) : Nat :=
  overlay kmap (fun _ => 0) v

def dataPage : Nat :=
  layout.data / PGSIZE

theorem dataPage_bounds : 0x80100 < dataPage ∧ dataPage < 0x8E000 := by
  have aligned := layout.data_aligned
  have text := layout.text_lt
  have below := layout.data_lt
  unfold KERNLINK KERNBASE EXTMEM at text
  unfold KERNBASE PHYSTOP at below
  unfold dataPage PGSIZE at *
  omega

theorem kmap_eq : (kmap : List Kmap) = [.ofPages 0x80000 0x100 0 PTE_W,
     .ofPages 0x80100 (dataPage - 0x80100) 0x100 0,
     .ofPages dataPage (0x8E000 - dataPage) (dataPage - 0x80000) PTE_W,
     .ofPages 0xFE000 0x2000 0xFE000 PTE_W] := by
  have aligned := layout.data_aligned
  have bounds := dataPage_bounds
  have isData : layout.data = dataPage * 4096 := by
    unfold dataPage PGSIZE at *
    omega
  simp only [kmap, Kmap.ofPages, isData, PGSIZE, KERNBASE, KERNLINK, EXTMEM,
    PHYSTOP, DEVSPACE, cons.injEq, Kmap.mk.injEq, and_true, true_and]
  omega

theorem kmap_whole : ∀ k ∈ (kmap : List Kmap), k.Whole := by
  have bounds := dataPage_bounds
  rw [kmap_eq]
  simp only [mem_cons, not_mem_nil, or_false]
  rintro k (rfl | rfl | rfl | rfl) <;>
    exact Kmap.whole_ofPages (by omega) (by omega) (by omega) (by omega) (by decide)

theorem covers_kmap : (∀ v, (Kmap.ofPages 0x80000 0x100 0 PTE_W).Covers v ↔
      0x80000 ≤ v ∧ v < 0x80100) ∧
    (∀ v, (Kmap.ofPages 0x80100 (dataPage - 0x80100) 0x100 0).Covers v ↔
      0x80100 ≤ v ∧ v < dataPage) ∧
    (∀ v, (Kmap.ofPages dataPage (0x8E000 - dataPage) (dataPage - 0x80000)
      PTE_W).Covers v ↔ dataPage ≤ v ∧ v < 0x8E000) ∧
    (∀ v, (Kmap.ofPages 0xFE000 0x2000 0xFE000 PTE_W).Covers v ↔ 0xFE000 ≤ v ∧ v < 0x100000) := by
  have bounds := dataPage_bounds
  refine ⟨?_, ?_, ?_, ?_⟩ <;> intro v <;>
    rw [Kmap.covers_ofPages (by omega) (by omega) (by omega)] <;> omega

theorem kmap_apart : (kmap : List Kmap).Pairwise fun k other =>
    ∀ v, k.Covers v → ¬ other.Covers v := by
  have bounds := dataPage_bounds
  obtain ⟨io, text, data, devices⟩ := covers_kmap
  rw [kmap_eq]
  simp only [pairwise_cons, mem_cons, not_mem_nil, or_false,
    forall_eq_or_imp, forall_eq, io, text, data, devices, List.Pairwise.nil,
    and_true, false_implies, implies_true]
  refine ⟨⟨?_, ?_, ?_⟩, ⟨?_, ?_⟩, ?_⟩ <;> intro v <;> omega

/-- The kernel's entries are above `KERNBASE`, and their flags are among
`PTE_P` and `PTE_W`. -/
theorem kernelEntry_cases (v : Nat) : kernelEntry v = 0 ∨ 0x80000 ≤ v ∧ ∃ frame flags, flags < 4 ∧
      kernelEntry v = frame * PGSIZE + flags := by
  have bounds := dataPage_bounds
  obtain ⟨io, text, data, devices⟩ := covers_kmap
  unfold kernelEntry overlay
  split
  next k found =>
    right
    have covers : k.Covers v := by simpa using find?_some found
    have isRange := mem_of_find?_eq_some found
    rw [kmap_eq] at isRange
    simp only [mem_cons, not_mem_nil, or_false] at isRange
    rcases isRange with rfl | rfl | rfl | rfl
    · exact ⟨covers.1, _, _, by decide, Kmap.pte_ofPages (by decide)⟩
    · rw [text] at covers
      exact ⟨by omega, _, _, by decide, Kmap.pte_ofPages (by decide)⟩
    · rw [data] at covers
      exact ⟨by omega, _, _, by decide, Kmap.pte_ofPages (by decide)⟩
    · rw [devices] at covers
      exact ⟨by omega, _, _, by decide, Kmap.pte_ofPages (by decide)⟩
  next => exact .inl rfl

/-! ### `setupkvm` -/

structure Setup (d : Nat) (before after : Memory) : Prop where
  tree : Tree after d
  free : after.freelist <:+ before.freelist
  nodes : ∀ frame, Node after.page d frame → frame ∈ before.freelist
  kept : ∀ frame, frame ∉ before.freelist → after.page frame = before.page frame
  entries : ∀ v, entry after.page d v = kernelEntry v
  spent : before.freelist.length + (missing after.page d).card = after.freelist.length + 1025

omit layout in
theorem Tree.ofZeros {before : Memory} {d : Nat} {rest : List Nat} (nodup : before.freelist.Nodup)
    (small : ∀ frame ∈ before.freelist, frame < 2 ^ 20) (free : before.freelist = d :: rest) :
    Tree (Memory.setPage ⟨rest, before.page⟩ d fun _ => 0) d ∧
      ∀ i, tableOf (Memory.setPage ⟨rest, before.page⟩ d fun _ => 0).page d i = none := by
  have none : ∀ i, tableOf (Memory.setPage ⟨rest, before.page⟩ d fun _ => 0).page d i = none := by
    intro i
    have zeros : (Memory.setPage ⟨rest, before.page⟩ d fun _ => 0).page d =
      fun _ => 0 := Function.update_self ..
    rw [tableOf, zeros, ByteBlock.word_zero]
    rfl
  rw [free, nodup_cons] at nodup
  refine ⟨⟨nodup.2, ?_, ?_, ?_, ?_⟩, none⟩
  · intro frame isFree
    exact small frame (by rw [free]; exact mem_cons_of_mem d isFree)
  · rintro frame (rfl | ⟨i, isTable⟩)
    · exact nodup.1
    · rw [none] at isTable
      cases isTable
  · intro i table isTable
    rw [none] at isTable
    cases isTable
  · intro i j table isTable
    rw [none] at isTable
    cases isTable

/-- The physical address to which the directory translates an address, with
the flags of the page. -/
def translation (page : Nat → Page) (d a : Nat) : Option (Nat × Nat) :=
  if entry page d (a / PGSIZE) &&& PTE_P ≠ 0 then
    some (pteAddr (entry page d (a / PGSIZE)) * PGSIZE + a % PGSIZE,
      pteFlags (entry page d (a / PGSIZE)))
  else
    none

omit layout in
theorem pte_eq (frame i : Nat) {perm : Nat} (isPerm : perm < PGSIZE) :
    pte (frame * PGSIZE) perm i = (frame + i) % 2 ^ 20 * PGSIZE + (perm ||| PTE_P) := by
  have address : (frame * PGSIZE + i * PGSIZE) % 2 ^ 32 = (frame + i) % 2 ^ 20 * PGSIZE := by
    unfold PGSIZE
    omega
  rw [pte, address, Nat.or_assoc]
  exact pack_eq _ (Nat.or_lt_two_pow (n := 12) isPerm (by decide))

omit layout in
theorem Stores.translation_eq {before after : Memory} {d v pages frame perm : Nat}
    (stores : Stores d v pages (pte (frame * PGSIZE) perm) before after)
    (isPerm : perm < PGSIZE) (a : Nat) : translation after.page d a =
      if v * PGSIZE ≤ a ∧ a < v * PGSIZE + pages * PGSIZE then
        some ((frame * PGSIZE + (a - v * PGSIZE)) % 2 ^ 32, perm ||| PTE_P)
      else translation before.page d a := by
  have inRange : v ≤ a / PGSIZE ∧ a / PGSIZE < v + pages ↔
      v * PGSIZE ≤ a ∧ a < v * PGSIZE + pages * PGSIZE := by
    unfold PGSIZE
    omega
  rw [translation, stores.entries, translation]
  by_cases isMapped : v * PGSIZE ≤ a ∧ a < v * PGSIZE + pages * PGSIZE
  · have flags : (perm ||| PTE_P) % 2 = 1 := Nat.or_mod_two_eq_one.mpr (.inr rfl)
    have small : perm ||| PTE_P < 4096 := Nat.or_lt_two_pow (n := 12) isPerm (by decide)
    rw [if_pos (inRange.mpr isMapped), if_pos isMapped, pte_eq _ _ isPerm, if_pos]
    · unfold pteAddr pteFlags PGSIZE at *
      simp only [Option.some.injEq, Prod.mk.injEq]
      omega
    · rw [present_iff]
      unfold PGSIZE
      omega
  · rw [if_neg isMapped, if_neg (inRange.not.mpr isMapped)]

omit layout in
/-- `mappages` maps the pages of an unmapped range, or a part from its start
on, and changes no other translation. -/
theorem mappages_translates {before : Memory} {d va size pa perm : Nat} (tree : Tree before d)
    (virtual : va % PGSIZE = 0) (physical : pa % PGSIZE = 0) (target : pa < 2 ^ 32)
    (isPerm : perm < PGSIZE) (positive : 0 < size) (inside : va + size ≤ 2 ^ 32)
    (absent : ∀ a, va ≤ a → a < va + size → translation before.page d a = none) :
    ∃ mapped after pages, mappages d va size pa perm before = .done mapped after ∧
      pages * PGSIZE ≤ pgroundup size ∧ (mapped = true ↔ pages * PGSIZE = pgroundup size) ∧
      ∀ a, translation after.page d a =
        if va ≤ a ∧ a < va + pages * PGSIZE then some ((pa + (a - va)) % 2 ^ 32, perm ||| PTE_P)
        else translation before.page d a := by
  obtain ⟨v, rfl⟩ := Nat.dvd_of_mod_eq_zero virtual
  obtain ⟨frame, rfl⟩ := Nat.dvd_of_mod_eq_zero physical
  rw [Nat.mul_comm PGSIZE, Nat.mul_comm PGSIZE] at *
  have last : ∃ n, n * PGSIZE < size ∧ size ≤ (n + 1) * PGSIZE ∧
      pgroundup size = (n + 1) * PGSIZE :=
    ⟨(size - 1) / PGSIZE, by unfold pgroundup PGSIZE; omega⟩
  obtain ⟨n, more, covers, rounded⟩ := last
  have fits : v + n < 2 ^ 20 := by
    unfold PGSIZE at more inside
    omega
  have spec : (mappages d (v * PGSIZE) size (frame * PGSIZE) perm).wp before (fun _ => False)
      fun mapped after => ∃ pages, pages ≤ n + 1 ∧ (mapped = true ↔ pages = n + 1) ∧
        Stores d v pages (pte (frame * PGSIZE) perm) before after := by
    refine mappages_wp tree more covers fits target isPerm ?_ ?_ ?_
    · intro w above below
      have inRange : w * PGSIZE < v * PGSIZE + size := calc
        w * PGSIZE ≤ (v + n) * PGSIZE := Nat.mul_le_mul_right _ below
        _ = v * PGSIZE + n * PGSIZE := Nat.add_mul ..
        _ < v * PGSIZE + size := Nat.add_lt_add_left more _
      have none := absent (w * PGSIZE) (Nat.mul_le_mul_right _ above) inRange
      rw [translation, Nat.mul_div_cancel w (by decide)] at none
      have notPresent := (present_iff (entry before.page d w)).not.mp (by simpa using none)
      omega
    · exact fun after stores => ⟨n + 1, Nat.le_refl _, by simp, stores⟩
    · exact fun k after few stores _ _ => ⟨k, by omega, by simp; omega, stores⟩
  obtain ⟨mapped, after, result, pages, few, isAll, stores⟩ := Act.exists_done spec
  refine ⟨mapped, after, pages, result, ?_, ?_, stores.translation_eq isPerm⟩
  · rw [rounded]
    exact Nat.mul_le_mul_right _ few
  · rw [rounded, isAll]
    unfold PGSIZE
    omega

/-- An empty directory and one free page. -/
def emptyDirectory : Memory :=
  Memory.setPage ⟨[2], fun _ _ => 0⟩ 1 fun _ => 0

omit layout in
theorem mappages_translates_lastPage : ∃ after,
    mappages 1 0xFFFFF000 PGSIZE DEVSPACE PTE_W emptyDirectory = .done true after ∧
      translation after.page 1 0xFFFFFFFF = some (DEVSPACE + 4095, 3) := by
  obtain ⟨tree, noTable⟩ := @Tree.ofZeros ⟨[1, 2], fun _ _ => 0⟩ 1 [2] (by decide) (by decide) rfl
  have absent : ∀ a, translation emptyDirectory.page 1 a = none := by
    simp [translation, entry, emptyDirectory, noTable]
  obtain ⟨mapped, after, pages, result, -, isAll, translations⟩ := mappages_translates tree
    (show 0xFFFFF000 % PGSIZE = 0 by decide) (show DEVSPACE % PGSIZE = 0 by decide) (by decide)
    (show PTE_W < PGSIZE by decide) (show 0 < PGSIZE by decide) (by decide) fun a _ _ => absent a
  have answer : ∃ after,
      mappages 1 0xFFFFF000 PGSIZE DEVSPACE PTE_W emptyDirectory = .done true after := ⟨_, rfl⟩
  obtain ⟨last, isLast⟩ := answer
  obtain ⟨rfl, rfl⟩ := Outcome.done.inj (result.symm.trans isLast)
  refine ⟨after, result, ?_⟩
  rw [translations, isAll.mp rfl]
  rfl

/-- `setupkvm` builds a directory unless there are fewer than 1025 free
pages. -/
theorem setupkvm_wp {before : Memory} {allowed : Panic → Prop} {post : Option Nat → Memory → Prop}
    (nodup : before.freelist.Nodup) (small : ∀ frame ∈ before.freelist, frame < 2 ^ 20)
    (done : ∀ d after, Setup d before after → post (some d) after)
    (failed : ∀ after, before.freelist.length < 1025 → post none after) :
    setupkvm.wp before allowed post := by
  unfold setupkvm
  rw [Act.wp_bind]
  refine kalloc_wp ?_ ?_
  · intro isEmpty
    exact failed before (by rw [isEmpty]; decide)
  · intro d rest free
    obtain ⟨tree, none⟩ := Tree.ofZeros nodup small free
    have noEntry : ∀ v, entry (Memory.setPage ⟨rest, before.page⟩ d fun _ => 0).page d v = 0 := by
      intro v
      rw [entry, none]
    have all : (missing (Memory.setPage ⟨rest, before.page⟩ d fun _ => 0).page d).card = 1024 := by
      unfold missing
      rw [Finset.filter_true_of_mem fun i _ => none i, Finset.card_range]
    have isFree : d ∈ before.freelist := by simp [free]
    rw [Act.wp_bind, memset, Act.wp_modify, if_neg (by decide), Act.wp_bind]
    generalize isStart : Memory.setPage ⟨rest, before.page⟩ d
      (fun _ => 0) = start at tree none noEntry all ⊢
    have isRest : start.freelist = rest := by
      rw [← isStart]
      rfl
    refine setupkvmLoop_wp tree kmap_whole kmap_apart ?_ ?_ ?_
    · intro k _ v _
      rw [noEntry]
    · intro after grows entries
      have spent := grows.spent
      refine done d after ⟨grows.tree, ?_, ?_, ?_, ?_, ?_⟩
      · have suffix := grows.free
        rw [isRest] at suffix
        rw [free]
        exact suffix.trans (suffix_cons d rest)
      · intro frame isNode
        rcases grows.nodes frame isNode with (rfl | ⟨i, isTable⟩) | isOld
        · exact isFree
        · rw [none] at isTable
          cases isTable
        · rw [isRest] at isOld
          rw [free]
          exact mem_cons_of_mem d isOld
      · intro frame notFree
        have notRoot : frame ≠ d := by
          rintro rfl
          exact notFree isFree
        rw [grows.kept frame, ← isStart]
        · exact Function.update_of_ne notRoot _ _
        · rw [isRest]
          intro isOld
          exact notFree (by rw [free]; exact mem_cons_of_mem d isOld)
        · rintro (isRoot | ⟨i, isTable⟩)
          · exact notRoot isRoot
          · rw [none] at isTable
            cases isTable
      · intro v
        have start : entry start.page d = fun _ => 0 := funext noEntry
        rw [entries, start]
        rfl
      · rw [all, isRest] at spent
        rw [free, length_cons]
        omega
    · intro after grows isEmpty some
      have spent := grows.spent
      have positive := Finset.card_pos.mpr some
      rw [all, isRest, isEmpty, length_nil] at spent
      refine failed after ?_
      rw [free, length_cons]
      omega

end Kernel

end Paging

end Xv6Kthreads
