import Xv6Kthreads.KernelMappings
import Xv6Kthreads.PageTables

/-!
# Words and entries of page tables

`Paging` has the page tables as the words in memory that the hardware reads, and
`PageTables` has them as maps from virtual pages to entries.  This file reads the
maps off the words and shows that what both embed of `vm.c` agrees: `walkpgdir`,
`mappages` of one page, and the entries that `setupkvm` makes.
-/

namespace Xv6Kthreads

namespace Paging

open Sections Act Function

/-- The entry that a word of a page table stands for. -/
def pteOf (word : Nat) : Option PageTables.Pte :=
  if word &&& PTE_P ≠ 0 then some ⟨pteAddr word, word.testBit 1, word.testBit 2⟩ else none

/-- The argument `perm` of `mappages` for an entry. -/
def permOf (pte : PageTables.Pte) : Nat :=
  (if pte.writable then PTE_W else 0) + if pte.user then PTE_U else 0

def spaceOf (page : Nat → Page) (d : Nat) : PageTables.Space where
  directory := d
  table := tableOf page d
  entry v := pteOf (entry page d v)

theorem pteOf_add (frame : Nat) {flags : Nat} (small : flags < 4096) (present : flags % 2 = 1) :
    pteOf (frame * PGSIZE + flags) = some ⟨frame, flags.testBit 1, flags.testBit 2⟩ := by
  have isPresent : (frame * PGSIZE + flags) &&& PTE_P ≠ 0 := by
    rw [present_iff, PGSIZE]
    omega
  have addr : pteAddr (frame * PGSIZE + flags) = frame := by
    unfold pteAddr PGSIZE
    omega
  rw [pteOf, if_pos isPresent, addr]
  simp only [Nat.testBit_eq_decide_div_mod_eq, PGSIZE]
  congr 3 <;> apply propext <;> omega

theorem pteOf_zero : pteOf 0 = none := rfl

/-- The word that `mappages` stores stands for the entry. -/
theorem pteOf_pack {pte : PageTables.Pte} (small : pte.frame < 2 ^ 20) :
    pte.frame * PGSIZE ||| permOf pte ||| PTE_P < 2 ^ 32 ∧
      pteOf (pte.frame * PGSIZE ||| permOf pte ||| PTE_P) = some pte := by
  have flags : (permOf pte ||| PTE_P) < 8 ∧ (permOf pte ||| PTE_P) % 2 = 1 ∧
      (permOf pte ||| PTE_P).testBit 1 = pte.writable ∧
      (permOf pte ||| PTE_P).testBit 2 = pte.user := by
    unfold permOf
    cases pte.writable <;> cases pte.user <;> decide
  rw [Nat.or_assoc, pack_eq _ (by omega), pteOf_add _ (by omega) flags.2.1, flags.2.2.1,
    flags.2.2.2]
  refine ⟨?_, rfl⟩
  unfold PGSIZE
  omega

section Refinement

variable {d v table : Nat} {words : Memory} {pages : PageTables.Memory}

/-- Both memories have the same free list and the same contents, but for the
pages of the tree. -/
structure Shows (d : Nat) (words : Memory) (pages : PageTables.Memory) : Prop where
  tree : Tree words d
  free : pages.free = words.freelist
  byte : ∀ frame, ¬ Node words.page d frame →
    ∀ index : Fin 4096, pages.byte frame index.val = words.page frame index

theorem walkpgdir_refines (inside : v < 2 ^ 20) :
    (walkpgdir d (v * PGSIZE) false).wp words (fun _ => False) fun found after =>
      after = words ∧ PageTables.walkpgdir (spaceOf words.page d) v =
        found.map fun place => pteOf ((words.page place.1).word place.2) := by
  have page : v * PGSIZE / 4096 = v := Nat.mul_div_cancel v (by decide)
  refine walkpgdir_wp (by unfold PGSIZE; omega) ⟨rfl, ?_⟩
  rw [page]
  cases isTable : tableOf words.page d (v / 1024) <;>
    simp [PageTables.walkpgdir, spaceOf, PageTables.pdx, NPTENTRIES, entry, isTable]

section Stores

variable (shows : Shows d words pages)
include shows

theorem Shows.setWord {word : Nat} (isTable : tableOf words.page d (v / 1024) = some table)
    (small : word < 2 ^ 32) : Shows d (words.setWord table (v % 1024) word) pages ∧
      spaceOf (words.setWord table (v % 1024) word).page d =
        { spaceOf words.page d with
          entry := update (spaceOf words.page d).entry v (pteOf word) } := by
  obtain ⟨grows, entries⟩ := shows.tree.setWord isTable small
  have rest : ∀ frame, frame ≠ table →
      (words.setWord table (v % 1024) word).page frame = words.page frame :=
    fun frame differs => update_of_ne differs ..
  have root := rest d (Ne.symm (shows.tree.tables _ _ isTable))
  refine ⟨⟨grows.tree, shows.free, ?_⟩, ?_⟩
  · intro frame notNode
    rw [node_congr root] at notNode
    rw [rest frame (fun same => notNode (.inr ⟨_, same ▸ isTable⟩))]
    exact shows.byte frame notNode
  · simp only [spaceOf, PageTables.Space.mk.injEq, true_and]
    refine ⟨funext fun i => tableOf_congr root i, funext fun w => ?_⟩
    rw [entries, update_apply]
    split <;> rfl

theorem Shows.finds {after : Memory} (inside : v < 2 ^ 20)
    (finds : Finds d (v / 1024) table words after) : ∃ final, Shows d after final ∧
      PageTables.walkpgdirAlloc (spaceOf words.page d) v pages =
        .done (some (spaceOf after.page d)) final := by
  rcases finds with ⟨isTable, rfl⟩ | ⟨none, rest, isFree, rfl⟩
  · refine ⟨pages, shows, ?_⟩
    simp only [PageTables.walkpgdirAlloc, spaceOf, PageTables.pdx, NPTENTRIES, isTable]
    rfl
  obtain ⟨grows, tables, entries⟩ := shows.tree.addTable isFree (by omega) none
  refine ⟨{ pages with free := rest, byte := update pages.byte table fun _ => 0 },
    ⟨grows.tree, rfl, ?_⟩, ?_⟩
  · intro frame notNode
    have notTable : frame ≠ table := by
      rintro rfl
      exact notNode (.inr ⟨_, (tables _).trans (if_pos rfl)⟩)
    have notRoot : frame ≠ d := fun same => notNode (.inl same)
    have old : ¬ Node words.page d frame := by
      rintro (same | ⟨i, isTable⟩)
      · exact notRoot same
      · refine notNode (.inr ⟨i, (tables i).trans ?_⟩)
        rw [if_neg (by rintro rfl; rw [none] at isTable; cases isTable), isTable]
    simp only [update_of_ne notTable, Memory.addTable, Memory.setWord, Memory.setPage,
      update_of_ne notRoot]
    exact shows.byte frame old
  · have isNone : (spaceOf words.page d).table (PageTables.pdx v) = .none := none
    have free : pages.free = table :: rest := shows.free.trans isFree
    simp only [PageTables.walkpgdirAlloc, isNone, bind, PageTables.kalloc, free]
    refine congrArg (fun space => Outcome.done (some space) _) ?_
    simp only [spaceOf, PageTables.Space.mk.injEq, true_and]
    refine ⟨funext fun i => ?_, funext fun w => ?_⟩
    · rw [tables, update_apply]
      rfl
    · rw [entries]
      split
      next sameTable =>
        have isZero : entry words.page d w = 0 := by
          change w / 1024 = v / 1024 at sameTable
          rw [entry, sameTable, none]
        rw [isZero, pteOf_zero]
      next => rfl

/-- What `mappages` of one page does to the words it does to the entries. -/
theorem mappages_refines {pte : PageTables.Pte} (inside : v < 2 ^ 20)
    (small : pte.frame < 2 ^ 20) :
    (mappages d (v * PGSIZE) PGSIZE (pte.frame * PGSIZE) (permOf pte)).wp words
      (fun panic => panic = .remap ∧
        PageTables.mappages (spaceOf words.page d) v pte pages = .stopped .remap)
      fun mapped after => ∃ final, Shows d after final ∧
        PageTables.mappages (spaceOf words.page d) v pte pages =
          .done (spaceOf after.page d, mapped) final := by
  have page : v * PGSIZE / 4096 = v := Nat.mul_div_cancel v (by decide)
  have first : pgrounddown (v * PGSIZE) = v * PGSIZE := by
    unfold pgrounddown PGSIZE
    omega
  have last : pgrounddown ((v * PGSIZE + PGSIZE + (2 ^ 32 - 1)) % 2 ^ 32) = v * PGSIZE := by
    unfold pgrounddown PGSIZE
    omega
  unfold mappages
  rw [first, last, show 2 ^ 20 = 1048575 + 1 from rfl, mappagesLoop, wp_bind]
  refine walkpgdir_alloc_wp shows.tree (by unfold PGSIZE; omega) ?_ ?_
  · intro after table finds grows isTable same
    rw [page] at finds isTable ⊢
    obtain ⟨final, shown, walks⟩ := shows.finds inside finds
    have word : (after.page table).word (v % 1024) = entry after.page d v := by
      rw [entry, isTable]
    rw [wp_bind, readWord, wp_read, word]
    by_cases present : entry after.page d v &&& PTE_P ≠ 0
    · have isSome : (spaceOf after.page d).entry v = some _ := if_pos present
      rw [if_pos present, wp_stop]
      refine ⟨rfl, ?_⟩
      simp only [PageTables.mappages, bind, walks, isSome]
      rfl
    · have isNone : (spaceOf after.page d).entry v = none := if_neg present
      obtain ⟨fits, isPte⟩ := pteOf_pack small
      obtain ⟨stored, isSpace⟩ := shown.setWord isTable fits
      rw [isPte] at isSpace
      rw [if_neg present, wp_bind, writeWord, wp_modify, if_pos rfl]
      refine ⟨final, stored, ?_⟩
      simp only [PageTables.mappages, bind, walks, isNone, isSpace]
      rfl
  · intro isEmpty none
    rw [page] at none
    have isNone : (spaceOf words.page d).table (PageTables.pdx v) = .none := none
    refine ⟨pages, shows, ?_⟩
    simp only [PageTables.mappages, PageTables.walkpgdirAlloc, isNone, bind, PageTables.kalloc,
      shows.free, isEmpty, pure]

end Stores

variable [layout : Layout]

/-- The entries that `kmap` describes are the same. -/
theorem pteOf_kernelEntry (v : Nat) :
    pteOf (kernelEntry v) = PageTables.kernelEntry (dataPage - 0x80000) v := by
  have bounds := dataPage_bounds
  obtain ⟨io, text, data, devices⟩ := covers_kmap
  have memory : PageTables.kernelPage = 0x80000 ∧ PHYSTOP / PGSIZE = 0xE000 ∧
      EXTMEM / PGSIZE = 0x100 ∧ DEVSPACE / PGSIZE = 0xFE000 ∧
      NPDENTRIES * NPTENTRIES = 0x100000 := by
    decide
  unfold kernelEntry overlay PageTables.kernelEntry
  simp only [memory]
  split
  next k found =>
    have covers : k.Covers v := by simpa using List.find?_some found
    have isRange := List.mem_of_find?_eq_some found
    rw [kmap_eq] at isRange
    simp only [List.mem_cons, List.not_mem_nil, or_false] at isRange
    rcases isRange with rfl | rfl | rfl | rfl
    · rw [io] at covers
      rw [Kmap.pte_ofPages (by decide), pteOf_add _ (by decide) (by decide), if_pos (by omega),
        decide_eq_true (by omega), Nat.zero_add]
      rfl
    · rw [text] at covers
      rw [Kmap.pte_ofPages (by decide), pteOf_add _ (by decide) (by decide), if_pos (by omega),
        decide_eq_false (by omega), show 0x100 + (v - 0x80100) = v - 0x80000 by omega]
      rfl
    · rw [data] at covers
      rw [Kmap.pte_ofPages (by decide), pteOf_add _ (by decide) (by decide), if_pos (by omega),
        decide_eq_true (by omega),
        show dataPage - 0x80000 + (v - dataPage) = v - 0x80000 by omega]
      rfl
    · rw [devices] at covers
      rw [Kmap.pte_ofPages (by decide), pteOf_add _ (by decide) (by decide), if_neg (by omega),
        if_pos (by omega), show 0xFE000 + (v - 0xFE000) = v by omega]
      rfl
  next none =>
    rw [List.find?_eq_none, kmap_eq] at none
    simp only [List.mem_cons, List.not_mem_nil, or_false, forall_eq_or_imp, forall_eq,
      decide_eq_true_eq, io, text, data, devices] at none
    rw [if_neg (by omega), if_neg (by omega)]
    rfl

theorem Setup.entry_eq {before after : Memory} (setup : Setup d before after) (v : Nat) :
    (spaceOf after.page d).entry v = PageTables.kernelEntry (dataPage - 0x80000) v := by
  rw [← pteOf_kernelEntry, ← setup.entries]
  rfl

end Refinement

end Paging

end Xv6Kthreads
