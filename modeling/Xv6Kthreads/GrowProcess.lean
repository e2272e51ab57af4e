import Xv6Kthreads.ThreadSbrk

/-!
# `growproc`

`growproc` changes the size of a process that no other thread grows at the same
time.  Zero is the error value of `allocuvm` and of `deallocuvm`, and it is also
a size; a size below zero wraps around.  Away from these ends the call either
changes the size and the mapped pages together or changes nothing, unless the
free list ends between the last new page and the page table that it needs.
-/

namespace Xv6Kthreads

namespace GrowProcess

open Sections PageTables ThreadSbrk Function Act List

structure Process where
  pgdir : Space
  sz : Nat

def newSize (sz : Nat) (n : Int) : Nat :=
  ((sz + n) % 2 ^ 32).toNat

def deallocuvmSize (oldsz newsz : Nat) : Nat :=
  if newsz ≥ oldsz then oldsz else newsz

def growproc (process : Process) (n : Int) : Vm (Process × Int) :=
  let newsz := newSize process.sz n
  if n > 0 then do
    let grown ← allocuvm process.pgdir process.sz newsz
    if grown.2 = 0 then
      pure ({ process with pgdir := grown.1 }, -1)
    else
      pure (⟨grown.1, grown.2⟩, 0)
  else if n < 0 then do
    let space ← deallocuvm process.pgdir process.sz newsz
    if deallocuvmSize process.sz newsz = 0 then
      pure ({ process with pgdir := space }, -1)
    else
      pure (⟨space, deallocuvmSize process.sz newsz⟩, 0)
  else
    pure (process, 0)

def present (space : Space) (index : Nat) : Bool :=
  (space.table index).isSome

/-- The pages that the loop of `allocuvm` takes for `count` pages from `page`
on: one for each, and one for each page table that is missing. -/
def pagesNeeded (present : Nat → Bool) : (count page : Nat) → Nat
  | 0, _ => 0
  | count + 1, page =>
    pagesNeeded (update present (pdx page) true) count (page + 1) +
      if present (pdx page) then 1 else 2

theorem pagesNeeded_mono (found : Nat → Bool) (page : Nat) {few many : Nat} (fewer : few ≤ many) :
    pagesNeeded found few page ≤ pagesNeeded found many page := by
  induction few generalizing found many page with
  | zero => exact Nat.zero_le _
  | succ few ih =>
    obtain ⟨many, rfl⟩ := Nat.exists_eq_add_of_le' (Nat.one_le_of_lt fewer)
    rw [pagesNeeded, pagesNeeded]
    exact Nat.add_le_add_right (ih _ _ (by omega)) _

theorem pageCount_mono {few many : Nat} (fewer : few ≤ many) : pageCount few ≤ pageCount many := by
  rw [pageCount_eq, pageCount_eq]
  omega

variable {space after initial : Space} {page : Nat} {memory final start : Memory}
variable {pte : Pte} {allowed : Panic → Prop}

/-- The page is a page table that was missing at the start. -/
def NewTable (initial space : Space) (frame : Nat) : Prop :=
  ∃ index, initial.table index = none ∧ space.table index = some frame

theorem present_extends (extended : Extends space memory page pte after final) :
    present after = update (present space) (pdx page) true := by
  funext index
  simp only [present, update_apply]
  rcases extended.tables with ⟨isTable, tables, -⟩ | ⟨pgtab, rest, -, -, tables, -⟩
  · grind
  · rw [tables, update_apply]
    grind

/-- What else is known after `mappages` of an unmapped page. -/
theorem extends_effect (extended : Extends space memory page pte after final) :
    final.kend = memory.kend ∧ final.free <:+ memory.free ∧
      (memory.free.length = final.free.length + if present space (pdx page) then 0 else 1) ∧
      (∀ frame, memory.byte frame = (fun _ => 0) → final.byte frame = fun _ => 0) ∧
      (∀ frame ∈ memory.free, frame ∈ final.free ∨ NewTable space after frame) ∧
      ∀ index, space.table index ≠ none → after.table index = space.table index := by
  rcases extended.tables with ⟨isTable, tables, rfl⟩ | ⟨pgtab, rest, missing, isFree, tables, rfl⟩
  · refine ⟨rfl, suffix_refl _, ?_, fun _ => id, fun _ => Or.inl, ?_⟩
    · simp [present, isTable]
    · exact fun index _ => congrFun tables index
  · refine ⟨rfl, ⟨[pgtab], isFree.symm⟩, ?_, ?_, ?_, ?_⟩
    · simp [present, missing, isFree]
    · intro frame isZero
      simp only [update_apply]
      split <;> trivial
    · intro frame member
      rw [isFree] at member
      rcases mem_cons.mp member with rfl | still
      · exact Or.inr ⟨pdx page, missing, by rw [tables, update_self]⟩
      · exact Or.inl still
    · intro index isTable
      rw [tables, update_of_ne]
      rintro rfl
      exact isTable missing

/-- The loop of `allocuvm` has mapped the pages from `first` to `page`. -/
structure Grown (start : Memory) (initial : Space) (first page : Nat) (space : Space)
    (memory : Memory) : Prop where
  kend : memory.kend = start.kend
  free : memory.free <:+ start.free
  kept : ∀ other, other < first ∨ page ≤ other → mapping space other = mapping initial other
  added : ∀ other, first ≤ other → other < page →
    ∃ frame ∈ start.free, mapping space other = some ⟨frame, true, true⟩

/-- The pages that the loop has taken have a single use. -/
structure Tracked (start : Memory) (initial : Space) (first page : Nat) (space : Space)
    (memory : Memory) : Prop where
  fresh : ∀ other frame, first ≤ other → other < page →
    mapping space other = some ⟨frame, true, true⟩ →
    frame ∉ memory.free ∧ memory.byte frame = fun _ => 0
  distinct : ∀ other second, first ≤ other → other < page → first ≤ second → second < page →
    mapping space other = mapping space second → other = second
  tables : ∀ index, initial.table index ≠ none → space.table index = initial.table index
  unused : ∀ frame ∈ memory.free, ¬ NewTable initial space frame
  pages : ∀ frame ∈ start.free, frame ∈ memory.free ∨ NewTable initial space frame ∨
    ∃ other, first ≤ other ∧ other < page ∧ mapping space other = some ⟨frame, true, true⟩

variable {first limit oldsz newsz frame : Nat} {rest : List Nat}

section Next

variable (grown : Grown start initial first page space memory) (behind : first ≤ page)
variable (isFree : memory.free = frame :: rest)
variable (extended : Extends space
  { memory with free := rest, byte := update memory.byte frame fun _ => 0 } page ⟨frame, true, true⟩
  after final)
include grown behind isFree extended

/-- The page of the loop is mapped to a page of the free list. -/
theorem Grown.next : Grown start initial first (page + 1) after final := by
  obtain ⟨kend, free, -⟩ := extends_effect extended
  refine ⟨kend.trans grown.kend, ?_, ?_, ?_⟩
  · refine free.trans (List.IsSuffix.trans ?_ grown.free)
    rw [isFree]
    exact suffix_cons frame rest
  · intro other outside
    rw [extended.mapped]
    have kept := grown.kept other
    grind
  · intro other above below
    rw [extended.mapped]
    have added := grown.added other above
    have member : frame ∈ start.free := grown.free.subset (by simp [isFree])
    grind

theorem Tracked.next (tracked : Tracked start initial first page space memory)
    (nodup : start.free.Nodup) : Tracked start initial first (page + 1) after final := by
  obtain ⟨-, free, -, zeroed, taken, kept⟩ := extends_effect extended
  have once : frame ∉ rest ∧ rest.Nodup := by
    have sublist := grown.free.sublist.nodup nodup
    rwa [isFree, nodup_cons] at sublist
  have subset := free.subset
  refine ⟨?_, ?_, ?_, ?_, ?_⟩
  · intro other found above below
    rw [extended.mapped]
    have fresh := tracked.fresh other found above
    have zero := zeroed found
    grind
  · intro other second
    rw [extended.mapped, extended.mapped]
    have distinct := tracked.distinct other second
    have first := tracked.fresh other frame
    have last := tracked.fresh second frame
    grind
  · intro index isTable
    have same := tracked.tables index isTable
    rw [kept index (by rwa [same]), same]
  · rintro found member ⟨index, missing, isTable⟩
    have old : space.table index ≠ some found := fun wasTable =>
      tracked.unused found (by simp [isFree, subset member]) ⟨index, missing, wasTable⟩
    rcases extended.tables with ⟨-, tables, -⟩ | ⟨pgtab, left, -, isRest, tables, rfl⟩
    · rw [tables] at isTable
      exact old isTable
    · dsimp only at isRest member
      rw [isRest, nodup_cons] at once
      rw [tables, update_apply] at isTable
      split at isTable
      next =>
        cases isTable
        exact once.2.1 member
      next => exact old isTable
  · intro found member
    rcases tracked.pages found member with
      isFree' | ⟨index, missing, isTable⟩ | ⟨other, above, below, isMapped⟩
    · rw [isFree] at isFree'
      rcases mem_cons.mp isFree' with rfl | later
      · exact Or.inr (Or.inr ⟨page, behind, Nat.lt_succ_self page,
          by rw [extended.mapped, if_pos rfl]⟩)
      · rcases taken found later with still | ⟨index, missing, isTable⟩
        · exact Or.inl still
        · refine Or.inr (Or.inl ⟨index, ?_, isTable⟩)
          by_contra had
          exact had ((tracked.tables index had).symm.trans missing)
    · exact Or.inr (Or.inl ⟨index, missing, by rw [kept index (by simp [isTable]), isTable]⟩)
    · refine Or.inr (Or.inr ⟨other, above, by omega, ?_⟩)
      rw [extended.mapped, if_neg (by omega), isMapped]

end Next

/-- The free list ends with the pages of a call, with those of one of its pages
before the last one, or behind them. -/
def Fits (found : Nat → Bool) (free count page : Nat) : Prop :=
  pagesNeeded found count page ≤ free ∨ ∃ done < count, pagesNeeded found done page = free

/-- The free list ends between the page that comes after `done` pages and the
page table that this page needs. -/
def Loses (found : Nat → Bool) (free page done : Nat) : Prop :=
  pagesNeeded found done page + 1 = free ∧ pagesNeeded found (done + 1) page = free + 1

variable {found : Nat → Bool} {free count left : Nat}

theorem Fits.not_loses (fits : Fits found free count page) {done : Nat} (before : done < count) :
    ¬ Loses found free page done := by
  rintro ⟨least, most⟩
  rcases fits with enough | ⟨other, -, exact⟩
  · have := pagesNeeded_mono found page (show done + 1 ≤ count from before)
    omega
  · rcases Nat.lt_or_ge done other with later | earlier
    · have := pagesNeeded_mono found page (show done + 1 ≤ other from later)
      omega
    · have := pagesNeeded_mono found page earlier
      omega

theorem Loses.unique {done other : Nat} (first : Loses found free page done)
    (second : Loses found free page other) : done = other := by
  obtain ⟨least, most⟩ := first
  obtain ⟨otherLeast, otherMost⟩ := second
  rcases Nat.lt_trichotomy done other with before | same | behind
  · have := pagesNeeded_mono found page (show done + 1 ≤ other from before)
    omega
  · exact same
  · have := pagesNeeded_mono found page (show other + 1 ≤ done from behind)
    omega

/-- What `allocuvm` returns: all pages are mapped; or all mappings are as they
were; or the last page is lost, which is not noticed; or another page is lost and
all mappings are as they were. -/
inductive Allocated (start : Memory) (initial : Space) (oldsz newsz : Nat) (found : Nat → Bool)
    (free count page : Nat) (result : Space × Nat) (final : Memory) : Prop where
  | all (size : result.2 = newsz)
      (grown : Grown start initial (pageCount oldsz) (pageCount newsz) result.1 final)
      (tracked : start.free.Nodup →
        Tracked start initial (pageCount oldsz) (pageCount newsz) result.1 final)
      (enough : pagesNeeded found count page ≤ free)
  | undone (size : result.2 = 0) (same : mapping result.1 = mapping initial)
      (back : start.free.Nodup → ∀ frame ∈ start.free,
        frame ∈ final.free ∨ NewTable initial result.1 frame)
      (done : Nat) (before : done < count) (stops : pagesNeeded found done page = free)
  | lastLost (size : result.2 = newsz) (done : Nat) (isLast : done + 1 = count)
      (missing : mapping result.1 (page + done) = none) (loses : Loses found free page done)
  | lost (size : result.2 = 0) (same : mapping result.1 = mapping initial)
      (gone : start.free.Nodup → ∃ frame ∈ start.free,
        frame ∉ final.free ∧ ¬ NewTable initial result.1 frame)
      (done : Nat) (before : done + 1 < count) (loses : Loses found free page done)

section Allocation

variable {result : Space × Nat}

theorem Loses.next {done : Nat} (loses : Loses (update found (pdx page) true) left (page + 1) done)
    (spent : free = left + if found (pdx page) then 1 else 2) :
    Loses found free page (done + 1) := by
  obtain ⟨least, most⟩ := loses
  rw [Loses, pagesNeeded, pagesNeeded]
  omega

/-- The pages of one iteration come before those of the others. -/
theorem Allocated.next (allocated : Allocated start initial oldsz newsz
      (update found (pdx page) true) left count (page + 1) result final)
    (spent : free = left + if found (pdx page) then 1 else 2) :
    Allocated start initial oldsz newsz found free (count + 1) page result final := by
  cases allocated with
  | all size grown tracked enough =>
    exact .all size grown tracked (by rw [pagesNeeded]; omega)
  | undone size same back done before stops =>
    exact .undone size same back (done + 1) (by omega) (by rw [pagesNeeded]; omega)
  | lastLost size done isLast missing loses =>
    refine .lastLost size (done + 1) (by omega) ?_ (loses.next spent)
    rwa [Nat.add_right_comm, Nat.add_assoc] at missing
  | lost size same gone done before loses =>
    exact .lost size same gone (done + 1) (by omega) (loses.next spent)

variable (unmapped : ∀ other, pageCount oldsz ≤ other →
  other < pageCount newsz → mapping initial other = none)
variable (valid : ∀ frame ∈ start.free, Valid start.kend frame)
include unmapped valid

/-- Without a free page the pages of the call are unmapped again. -/
theorem Grown.giveUp {reach : Nat}
    (grown : Grown start initial (pageCount oldsz) reach space memory)
    (behind : pageCount oldsz ≤ reach) (more : reach < pageCount newsz)
    (isFree : memory.free = []) :
    (allocLoop oldsz newsz (count + 1) page space).wp memory allowed fun result final =>
      result.2 = 0 ∧ mapping result.1 = mapping initial ∧ result.1.table = space.table ∧
        final.free = (frames space (pageCount oldsz) (pageCount newsz)).reverse := by
  have grows : ¬ oldsz ≥ newsz := by
    rw [pageCount_eq] at behind more
    omega
  have taken : kalloc memory = .done none memory := by
    simp [kalloc, isFree]
  rw [allocLoop, wp_bind, wp_iff_of_done taken, wp_bind, deallocuvm, if_neg grows]
  refine wp_mono (wp_deallocLoop_unmaps (pageCount newsz) _
    (pageCount oldsz) space memory ?_ (reached_of_first ?_) ?_) ?_
  · change pageCount newsz ≤ pageCount oldsz + (pageCount newsz - pageCount oldsz)
    omega
  · intro other above below isMapped
    have kept := grown.kept other
    have added := grown.added (pageCount oldsz) (Nat.le_refl _)
    grind
  · intro other pte above below isMapped
    have kept := grown.kept other
    have added := grown.added other above
    have kend := grown.kend
    grind
  · intro after final unmaps
    refine ⟨rfl, ?_, unmaps.tables, by rw [unmaps.free, isFree, append_nil]⟩
    funext other
    have gone := unmaps.gone other
    have kept := grown.kept other
    grind

theorem wp_allocLoop_exact (count page : Nat) (space : Space)
    (memory : Memory) (ends : page + count = pageCount newsz)
    (behind : pageCount oldsz ≤ page)
    (grown : Grown start initial (pageCount oldsz) page space memory)
    (tracked : start.free.Nodup → Tracked start initial (pageCount oldsz) page space memory) :
    (allocLoop oldsz newsz count page space).wp memory allowed
      (Allocated start initial oldsz newsz (present space) memory.free.length count page) := by
  induction count generalizing page space memory with
  | zero =>
    obtain rfl : page = pageCount newsz := ends
    exact .all rfl grown tracked (Nat.zero_le _)
  | succ count ih =>
    cases isFree : memory.free with
    | nil =>
      refine wp_mono (grown.giveUp unmapped valid behind (by omega) isFree) ?_
      rintro result final ⟨size, same, tables, left⟩
      refine .undone size same (fun nodup frame member => ?_) 0 (Nat.succ_pos _) rfl
      rw [left, mem_reverse, mem_frames]
      rcases (tracked nodup).pages frame member with still | ⟨index, missing, isTable⟩ |
        ⟨other, above, below, isMapped⟩
      · simp [isFree] at still
      · exact Or.inr ⟨index, missing, by rw [tables, isTable]⟩
      · exact Or.inl ⟨other, _, above, by omega, isMapped, rfl⟩
    | cons frame rest =>
      have absent : mapping space page = none := by
        rw [grown.kept page (Or.inr (Nat.le_refl page))]
        exact unmapped page behind (by omega)
      rw [allocLoop, wp_bind, wp_kalloc isFree]
      simp only [wp_bind, wp_memset]
      refine wp_mappages_absent absent ?_ ?_
      · intro missing isEmpty
        have isMissing : present space (pdx page) = false := by simp [present, missing]
        have loses : Loses (present space) (frame :: rest).length page 0 := by
          simp only [Loses, pagesNeeded, isMissing, length_cons]
          exact ⟨congrArg (length · + 1) isEmpty.symm, congrArg (length · + 2) isEmpty.symm⟩
        -- The page is lost, and the next iteration finds no other one.
        cases count with
        | zero => exact .lastLost rfl 0 rfl absent loses
        | succ count =>
          have still : Grown start initial (pageCount oldsz) page space { memory with
                free := rest
                byte := update memory.byte frame fun _ => 0 } :=
            { grown with free := (suffix_cons frame rest).trans (isFree ▸ grown.free) }
          refine wp_mono (still.giveUp unmapped valid behind (by omega) isEmpty) ?_
          rintro result final ⟨size, same, tables, left⟩
          refine .lost size same (fun nodup => ?_) 0 (by omega) loses
          have wasFree : frame ∈ memory.free := by simp [isFree]
          refine ⟨frame, grown.free.subset wasFree, ?_, ?_⟩
          · rw [left, mem_reverse, mem_frames]
            rintro ⟨other, pte, above, below, isMapped, rfl⟩
            by_cases done : other < page
            · obtain ⟨_, -, isNew⟩ := grown.added other above done
              rw [isNew] at isMapped
              cases isMapped
              exact ((tracked nodup).fresh other _ above done isNew).1 wasFree
            · rw [grown.kept other (by omega), unmapped other above below] at isMapped
              cases isMapped
          · rintro ⟨index, wasMissing, isTable⟩
            rw [tables] at isTable
            exact (tracked nodup).unused frame wasFree ⟨index, wasMissing, isTable⟩
      · intro after final extended
        have spent := (extends_effect extended).2.2.1
        have length : (frame :: rest).length =
            final.free.length + if present space (pdx page) then 1 else 2 := by
          split at spent <;> simp_all
        refine wp_mono (ih (page + 1) after final (by omega) (by omega)
          (grown.next behind isFree extended) fun nodup =>
            Tracked.next grown behind isFree extended (tracked nodup) nodup) ?_
        intro result last allocated
        rw [present_extends extended] at allocated
        exact allocated.next length

theorem wp_allocuvm_exact (small : newsz < KERNBASE) (grows : oldsz ≤ newsz) :
    (allocuvm initial oldsz newsz).wp start allowed
      (Allocated start initial oldsz newsz (present initial) start.free.length
        (pageCount newsz - pageCount oldsz) (pageCount oldsz)) := by
  rw [allocuvm, if_neg (by omega), if_neg (by omega)]
  refine wp_allocLoop_exact unmapped valid _ (pageCount oldsz) initial start ?_
    (Nat.le_refl _) ⟨rfl, suffix_refl _, fun _ _ => rfl, ?_⟩ ?_
  · exact Nat.add_sub_cancel' (pageCount_mono grows)
  · intro other above below
    omega
  · intro _
    refine ⟨?_, ?_, fun _ _ => rfl, ?_, fun _ => Or.inl⟩
    · intro other frame above below
      omega
    · intro other second above below
      omega
    · rintro frame - ⟨index, missing, isTable⟩
      rw [missing] at isTable
      cases isTable

end Allocation

/-- What is known of a process between calls: its user pages are those below
its size, and they and the free pages are pages that `kfree` accepts. -/
structure Ready (process : Process) (memory : Memory) : Prop where
  small : process.sz < KERNBASE
  filled : Filled process.pgdir (pageCount process.sz)
  frames : ∀ page < kernelPage, ∀ pte, mapping process.pgdir page = some pte →
    Valid memory.kend pte.frame
  free : ∀ frame ∈ memory.free, Valid memory.kend frame

/-- The condition under which `growproc` is exact: it does not shrink to
nothing or below, and does not lose the last new page. -/
def Sane (process : Process) (memory : Memory) (n : Int) : Prop :=
  (n < 0 → 0 < process.sz + n ∨ process.sz = 0) ∧
  (0 < n → process.sz + n < KERNBASE → ∀ done,
    done + 1 = pageCount (process.sz + n).toNat - pageCount process.sz →
      ¬ Loses (present process.pgdir) memory.free.length (pageCount process.sz) done)

/-- `growproc` has changed the size and the pages, or nothing. -/
def Exact (process : Process) (n : Int) (result : Process × Int) : Prop :=
  result.2 = 0 ∧ result.1.sz = process.sz + n ∧ Filled result.1.pgdir (pageCount result.1.sz) ∨
  result.2 = -1 ∧ result.1.sz = process.sz ∧ mapping result.1.pgdir = mapping process.pgdir

variable {process : Process} {n : Int}

theorem filled_of_mapping {top : Nat} (small : top ≤ kernelPage) (mapped : ∀ page < kernelPage,
      mapping space page ≠ none ↔ page < top) : Filled space top := by
  refine filled_of_iff small ?_
  intro page isUser
  rw [present_iff_mapping]
  exact mapped page isUser

section

variable (ready : Ready process memory)

include ready

theorem Ready.mapped (isUser : page < kernelPage) :
    mapping process.pgdir page ≠ none ↔ page < pageCount process.sz := by
  rw [← present_iff_mapping]
  exact ready.filled.iff isUser

theorem wp_growproc_grow (positive : 0 < n) (int : n < 2 ^ 31) :
    (growproc process n).wp memory allowed
      fun result _ => Exact process n result ↔ Sane process memory n := by
  have small := ready.small
  have size : newSize process.sz n = (process.sz + n).toNat := by
    simp only [newSize, KERNBASE] at small ⊢
    omega
  simp only [growproc, if_pos positive, wp_bind, size]
  by_cases above : (process.sz + n).toNat ≥ KERNBASE
  · rw [allocuvm, if_pos above]
    exact iff_of_true (Or.inr ⟨rfl, rfl, rfl⟩) ⟨by omega, by omega⟩
  · have below := pageCount_le (Nat.lt_of_not_ge above)
    have ordered : pageCount process.sz ≤ pageCount (process.sz + n).toNat :=
      pageCount_mono (by omega)
    refine wp_mono (wp_allocuvm_exact ?_ ready.free (by omega) (by omega)) ?_
    · intro other behind inside
      by_contra isMapped
      have := (ready.mapped (by omega)).mp isMapped
      omega
    · rintro ⟨after, sz⟩ final allocated
      have sane (kept : ∀ done, done + 1 = pageCount (process.sz + n).toNat - pageCount process.sz →
          ¬ Loses (present process.pgdir) memory.free.length (pageCount process.sz) done) :
          Sane process memory n := ⟨by omega, fun _ _ => kept⟩
      cases allocated with
      | all size grown _ enough =>
        obtain rfl : sz = (process.sz + n).toNat := size
        rw [if_neg (by simp only; omega), wp_pure]
        refine iff_of_true (Or.inl ⟨rfl, by simp only; omega, filled_of_mapping below ?_⟩)
          (sane fun done isLast => Fits.not_loses (Or.inl enough) (by omega))
        intro page isUser
        have kept := grown.kept page
        have added := grown.added page
        have mapped := ready.mapped isUser
        grind
      | undone size same _ done before stops =>
        obtain rfl : sz = 0 := size
        exact iff_of_true (Or.inr ⟨rfl, rfl, same⟩)
          (sane fun other isLast => Fits.not_loses (Or.inr ⟨done, before, stops⟩) (by omega))
      | lastLost size done isLast missing loses =>
        obtain rfl : sz = (process.sz + n).toNat := size
        rw [if_neg (by simp only; omega), wp_pure]
        refine iff_of_false ?_ fun isSane => isSane.2 positive (by omega) done isLast loses
        rintro (⟨-, -, filled⟩ | ⟨failed, -⟩)
        · exact present_iff_mapping.mp (filled.mapped (pageCount process.sz + done)
            (by simp only; omega)) missing
        · cases failed
      | lost size same _ done before loses =>
        obtain rfl : sz = 0 := size
        refine iff_of_true (Or.inr ⟨rfl, rfl, same⟩) (sane fun other isLast isLost => ?_)
        have := loses.unique isLost
        omega

theorem wp_growproc_shrink (negative : n < 0) (int : -2 ^ 31 ≤ n) :
    (growproc process n).wp memory allowed
      fun result _ => Exact process n result ↔ Sane process memory n := by
  have small := ready.small
  simp only [KERNBASE] at small
  have sane : Sane process memory n ↔ 0 < process.sz + n ∨ process.sz = 0 :=
    ⟨fun isSane => isSane.1 negative, fun holds => ⟨fun _ => holds, by omega⟩⟩
  simp only [growproc, if_neg (show ¬ n > 0 by omega), if_pos negative, wp_bind, sane]
  rcases lt_or_ge (process.sz + n) 0 with below | positive
  · -- The size wraps around, and nothing is done.
    have large : newSize process.sz n ≥ process.sz := by
      simp only [newSize]
      omega
    simp only [deallocuvmSize, deallocuvm, if_pos large, wp_pure]
    split
    next isZero => exact iff_of_true (Or.inr ⟨rfl, rfl, rfl⟩) (Or.inr isZero)
    next isPositive =>
      refine iff_of_false ?_ (by omega)
      rintro (⟨-, size, -⟩ | ⟨failed, -⟩)
      · simp only at size
        omega
      · cases failed
  · have size : newSize process.sz n = (process.sz + n).toNat := by
      simp only [newSize]
      omega
    have smaller : ¬ (process.sz + n).toNat ≥ process.sz := by omega
    have ordered := pageCount_mono (Nat.le_of_not_ge smaller)
    have below := pageCount_le ready.small
    simp only [size, deallocuvmSize, if_neg smaller, deallocuvm]
    refine wp_mono (wp_deallocLoop_unmaps (pageCount process.sz) _
      (pageCount (process.sz + n).toNat) process.pgdir memory ?_ (reached_of_first ?_) ?_) ?_
    · exact Nat.le_of_eq (Nat.add_sub_cancel' ordered).symm
    · intro other above inside isMapped
      exact (ready.mapped (by omega)).mpr (by omega)
    · exact fun other pte _ inside isMapped =>
        Or.inl (ready.frames other (by omega) pte isMapped)
    · intro after _ unmaps
      split
      next isZero =>
        -- The pages are gone although the call fails.
        refine iff_of_false ?_ (by omega)
        rintro (⟨failed, -⟩ | ⟨-, -, same⟩)
        · cases failed
        · have first := congrFun same 0
          have some : 0 < pageCount process.sz := by
            rw [pageCount_eq]
            omega
          rw [isZero, show pageCount 0 = 0 by decide] at unmaps
          simp only [unmaps.gone] at first
          rw [if_pos ⟨Nat.le_refl 0, some⟩] at first
          exact (ready.mapped (by omega)).mpr some first.symm
      next isPositive =>
        rw [wp_pure]
        refine iff_of_true (Or.inl ⟨rfl, by simp only; omega,
          filled_of_mapping (Nat.le_trans ordered below) ?_⟩) (by omega)
        intro page isUser
        have gone := unmaps.gone page
        have mapped := ready.mapped isUser
        grind

/-- `growproc` is exact or has no effect under the condition, and only then. -/
theorem growproc_exact_iff (int : -2 ^ 31 ≤ n ∧ n < 2 ^ 31) :
    (∃ result final, growproc process n memory = .done result final ∧ Exact process n result) ↔
      Sane process memory n := by
  have returns : ∃ result final, growproc process n memory = .done result final ∧
      (Exact process n result ↔ Sane process memory n) := by
    apply exists_done
    rcases lt_trichotomy n 0 with negative | isZero | positive
    · exact wp_growproc_shrink ready negative int.1
    · subst isZero
      exact iff_of_true (Or.inl ⟨rfl, (Int.add_zero _).symm, ready.filled⟩) ⟨by omega, by omega⟩
    · exact wp_growproc_grow ready positive int.2
  obtain ⟨result, final, ends, isExact⟩ := returns
  refine ⟨?_, fun sane => ⟨result, final, ends, isExact.mpr sane⟩⟩
  rintro ⟨_, _, endsTo, exactly⟩
  rw [ends] at endsTo
  cases endsTo
  exact isExact.mp exactly

end

def onePage : Process where
  pgdir :=
    { directory := 2
      table := fun index => if index = 0 then some 3 else none
      entry := fun page => if page = 0 then some ⟨4, true, true⟩ else none }
  sz := 4096

def noPage : Process where
  pgdir := { directory := 2, table := fun _ => none, entry := fun _ => none }
  sz := 0

def memoryOf (free : List Nat) : Memory where
  free := free
  byte := fun _ _ => 0
  data := 1
  kend := 1
  stored := []

theorem mapping_onePage (page : Nat) :
    mapping onePage.pgdir page = if page = 0 then some ⟨4, true, true⟩ else none := by
  rw [mapping_eq]
  rcases eq_or_ne page 0 with rfl | isZero
  · rfl
  · simp [onePage, isZero]

theorem ready_onePage : Ready onePage (memoryOf [5, 6]) where
  small := by decide
  filled := by
    refine filled_of_mapping (by decide) ?_
    intro page isUser
    rw [mapping_onePage, show pageCount onePage.sz = 1 from rfl]
    simp
  frames := by
    intro page isUser pte isMapped
    rw [mapping_onePage] at isMapped
    split at isMapped
    next => cases isMapped; unfold Valid; decide
    next => cases isMapped
  free := by unfold Valid; decide

theorem ready_noPage {free : List Nat} (valid : ∀ frame ∈ free, Valid 1 frame) :
    Ready noPage (memoryOf free) where
  small := by decide
  filled := by
    refine filled_of_mapping (by decide) ?_
    intro page isUser
    rw [mapping_eq, show pageCount noPage.sz = 0 from rfl]
    simp [noPage]
  frames := by
    intro page isUser pte isMapped
    cases isMapped
  free := valid

/-- A page is added; and two pages are not, without a page for the second. -/
theorem growproc_exact_onePage :
    (∃ result final, growproc onePage 4096 (memoryOf [5, 6]) = .done result final ∧
      Exact onePage 4096 result) ∧
    ∃ result final, growproc noPage 8192 (memoryOf [5, 6]) = .done result final ∧
      Exact noPage 8192 result := by
  refine ⟨(growproc_exact_iff ready_onePage (by decide)).mpr ⟨by decide, ?_⟩,
    (growproc_exact_iff (ready_noPage (by unfold Valid; decide)) (by decide)).mpr ⟨by decide, ?_⟩⟩
  · intro _ _ done isLast loses
    obtain rfl : done = 0 := by
      have : pageCount (onePage.sz + 4096 : Int).toNat - pageCount onePage.sz = 1 := by decide
      omega
    exact absurd loses (by unfold Loses; decide)
  · intro _ _ done isLast loses
    obtain rfl : done = 1 := by
      have : pageCount (noPage.sz + 8192 : Int).toNat - pageCount noPage.sz = 2 := by decide
      omega
    exact absurd loses (by unfold Loses; decide)

theorem lastPage_lost : growproc noPage 4096 (memoryOf [5]) =
    .done (⟨noPage.pgdir, 4096⟩, 0) { memoryOf [] with
      byte := update (memoryOf []).byte 5 fun _ => 0 } := by
  have size : newSize noPage.sz 4096 = 4096 := by decide
  have pages : vpn (pgroundup 4096) - vpn (pgroundup noPage.sz) = 1 := by
    decide
  simp only [growproc, size, allocuvm, pages]
  rfl

/-- `growproc` loses pages although it fails, keeps the size although it
succeeds, or takes a page that it does not map. -/
theorem growproc_not_exact : (∃ result final,
      growproc onePage (-4096) (memoryOf [5, 6]) = .done result final ∧
        ¬ Exact onePage (-4096) result) ∧
    (∃ result final, growproc onePage (-8192) (memoryOf [5, 6]) = .done result final ∧
        ¬ Exact onePage (-8192) result) ∧
    Ready noPage (memoryOf [5]) ∧
    ∃ result final, growproc noPage 4096 (memoryOf [5]) = .done result final ∧
        ¬ Exact noPage 4096 result := by
  refine ⟨⟨(⟨onePage.pgdir.clear 0, 4096⟩, -1), _, rfl, ?_⟩,
    ⟨(onePage, 0), _, rfl, ?_⟩, ready_noPage (by unfold Valid; decide),
    (⟨noPage.pgdir, 4096⟩, 0), _, lastPage_lost, ?_⟩
  · rintro (⟨failed, -⟩ | ⟨-, -, same⟩)
    · cases failed
    · have first := congrFun same 0
      simp [mapping_clear, mapping_onePage] at first
  · rintro (⟨-, size, -⟩ | ⟨failed, -⟩)
    · cases size
    · cases failed
  · rintro (⟨-, -, filled⟩ | ⟨failed, -⟩)
    · obtain ⟨pte, isMapped⟩ := filled.mapped 0 (show 0 < pageCount 4096 by decide)
      simp [walkpgdir, noPage] at isMapped
    · cases failed

end GrowProcess

end Xv6Kthreads
