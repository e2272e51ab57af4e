import Mathlib.Data.Fintype.Basic
import Xv6Kthreads.PageTables
import Xv6Kthreads.LabelledRun

/-!
# Growing a process from several threads

`growproc` reads `proc->sz`, maps one page after the other and writes
`proc->sz`, and holds no lock while it does so.  The threads of a process share
both the size and the page table, so that two calls of `sbrk` may read the same
size.  This file follows the calls step by step, while other processes allocate
and free pages.

Calls that come one after the other hand out disjoint ranges.  `allocuvm` does
not look at the result of `mappages`, so that even then a page stays unmapped
when the last free page is needed for it and its page table is missing.
-/

namespace Xv6Kthreads

namespace ThreadSbrk

open Sections PageTables LabelledRun Function Act List

/-- Where a thread is in `sys_sbrk`. -/
inductive Place where
  | outside
  /-- `sys_sbrk` has read the address that it will return. -/
  | called (addr n : Nat)
  /-- The loop of `allocuvm` is before `page`. -/
  | allocating (addr n oldsz newsz page : Nat)
  /-- `allocuvm` has returned `sz`. -/
  | writing (addr n sz : Nat)
  deriving DecidableEq, Repr

/-- A process and its threads.  `returned` has the address and the length for
each call that has succeeded. -/
structure State (Thread : Type*) where
  memory : Memory
  space : Space
  sz : Nat
  place : Thread → Place
  returned : List (Nat × Nat)
  panic : Option Panic

inductive Label (Thread : Type*) where
  /-- `sys_sbrk` reads `proc->sz`. -/
  | call (thread : Thread) (n : Nat)
  /-- `growproc` reads `proc->sz`. -/
  | read (thread : Thread)
  /-- One iteration of the loop of `allocuvm`, or its end. -/
  | grow (thread : Thread)
  /-- `growproc` writes `proc->sz`. -/
  | write (thread : Thread)
  /-- The rest of the kernel allocates and frees pages. -/
  | others (free : List Nat)

/-- One iteration of the loop of `allocuvm`; the flag says whether the loop
goes on. -/
def growPage (oldsz newsz page : Nat) (space : Space) : Vm (Space × Bool) := do
  let frame ← kalloc
  match frame with
  | none => do
    let space ← deallocuvm space newsz oldsz
    pure (space, false)
  | some mem => do
    memset mem 0
    let mapped ← mappages space page ⟨mem, true, true⟩
    pure (mapped.1, true)

namespace State

variable {Thread : Type*} [DecidableEq Thread] (state : State Thread) (thread : Thread)

def setPlace (place : Place) : State Thread :=
  { state with place := update state.place thread place }

/-- What `growproc` does with the result of `allocuvm`; zero is a failure. -/
def allocated (addr n sz : Nat) : State Thread :=
  if sz = 0 then state.setPlace thread .outside
  else state.setPlace thread (.writing addr n sz)

/-- The reading of `proc->sz` in `growproc` and the tests of `allocuvm`. -/
def read (addr n : Nat) : State Thread :=
  let newsz := (state.sz + n) % 2 ^ 32
  if newsz ≥ KERNBASE then
    state.setPlace thread .outside
  else if newsz < state.sz then
    state.allocated thread addr n state.sz
  else
    state.setPlace thread (.allocating addr n state.sz newsz (vpn (pgroundup state.sz)))

/-- The state after an iteration of the loop of `allocuvm`. -/
def grown (addr n oldsz newsz page : Nat) : Outcome Memory Panic (Space × Bool) → State Thread
  | .stopped panic => { state with panic := some panic }
  | .done (space, true) memory =>
    { state with memory := memory, space := space }.setPlace thread
      (.allocating addr n oldsz newsz (page + 1))
  | .done (space, false) memory =>
    { state with memory := memory, space := space }.setPlace thread .outside

def act : Label Thread → Option (State Thread)
  | .call thread n =>
    match state.place thread with
    | .outside =>
      if 0 < n ∧ n < 2 ^ 31 then
        some (state.setPlace thread (.called state.sz n))
      else
        none
    | _ => none
  | .read thread =>
    match state.place thread with
    | .called addr n => some (state.read thread addr n)
    | _ => none
  | .grow thread =>
    match state.place thread with
    | .allocating addr n oldsz newsz page =>
      if page < vpn (pgroundup newsz) then
        some (state.grown thread addr n oldsz newsz page
          (growPage oldsz newsz page state.space state.memory))
      else
        some (state.allocated thread addr n newsz)
    | _ => none
  | .write thread =>
    match state.place thread with
    | .writing addr n sz =>
      some ({ state with
        sz := sz
        returned := (addr, n) :: state.returned }.setPlace thread .outside)
    | _ => none
  | .others free => some { state with memory := { state.memory with free := free } }

def step (label : Label Thread) : Option (State Thread) :=
  if state.panic.isSome then none else state.act label

/-- The last free page is not taken for a page whose page table is missing. -/
def TableReady : Place → Prop
  | .allocating _ _ _ _ page =>
    (state.space.table (pdx page)).isSome = true ∨ state.memory.free.length ≠ 1
  | _ => True

/-- A call begins when no other one is in progress, and `mappages` does not
fail. -/
def OneByOne : Label Thread → Prop
  | .call _ _ => ∀ thread, state.place thread = .outside
  | .grow thread => state.TableReady (state.place thread)
  | _ => True

instance (state : State Thread) : DecidablePred state.TableReady
  | .outside => isTrue trivial
  | .called _ _ => isTrue trivial
  | .allocating _ _ _ _ _ => inferInstanceAs (Decidable (_ ∨ _))
  | .writing _ _ _ => isTrue trivial

instance [Fintype Thread] (state : State Thread) : DecidablePred state.OneByOne
  | .call _ _ => inferInstanceAs (Decidable (∀ _, _))
  | .read _ => isTrue trivial
  | .grow thread => inferInstanceAs (Decidable (state.TableReady (state.place thread)))
  | .write _ => isTrue trivial
  | .others _ => isTrue trivial

end State

/-! ## The page table -/

def Present (space : Space) (page : Nat) : Prop :=
  ∃ pte, walkpgdir space page = some (some pte)

variable {space : Space} {page : Nat}

theorem present_iff : Present space page ↔ (space.table (pdx page)).isSome = true ∧
        (space.entry page).isSome = true := by
  unfold Present walkpgdir
  cases space.table (pdx page) with
  | none => simp
  | some pgtab => simp [Option.isSome_iff_exists]

structure Filled (space : Space) (top : Nat) : Prop where
  mapped : ∀ page < top, Present space page
  unmapped : ∀ page, top ≤ page → page < kernelPage → ¬ Present space page

variable {top : Nat} {memory : Memory}

def mapping (space : Space) (page : Nat) : Option Pte :=
  (walkpgdir space page).join

theorem mapping_eq (space : Space) (page : Nat) : mapping space page =
      if (space.table (pdx page)).isSome then space.entry page else none := by
  unfold mapping walkpgdir
  cases space.table (pdx page) <;> rfl

theorem present_iff_mapping : Present space page ↔ mapping space page ≠ none := by
  rw [present_iff, mapping_eq]
  simp [Option.isSome_iff_ne_none]

theorem mapping_clear (space : Space) (page other : Nat) : mapping (space.clear page) other =
      if other = page then none else mapping space other := by
  rw [mapping_eq, mapping_eq]
  simp only [Space.clear, update_apply]
  grind

/-- What `mappages` does to an unmapped page: it is mapped, with a new page table
where it has none. -/
structure Extends (space : Space) (memory : Memory) (page : Nat) (pte : Pte)
    (after : Space) (final : Memory) : Prop where
  mapped : ∀ other, mapping after other = if other = page then some pte else mapping space other
  tables : ((space.table (pdx page)).isSome = true ∧ after.table = space.table ∧ final = memory) ∨
    ∃ pgtab rest, space.table (pdx page) = none ∧ memory.free = pgtab :: rest ∧
      after.table = update space.table (pdx page) (some pgtab) ∧
      final = { memory with free := rest, byte := update memory.byte pgtab fun _ => 0 }

variable {allowed : Panic → Prop}

/-- `mappages` of an unmapped page fails only without a page for its table. -/
theorem wp_mappages_absent {pte : Pte}
    {post : Space × Bool → Memory → Prop} (absent : mapping space page = none)
    (failed : space.table (pdx page) = none → memory.free = [] → post (space, false) memory)
    (extended : ∀ after final, Extends space memory page pte after final →
      post (after, true) final) :
    (mappages space page pte).wp memory allowed post := by
  unfold mappages walkpgdirAlloc
  cases isTable : space.table (pdx page) with
  | some pgtab =>
    have isEmpty : space.entry page = none := by
      simpa [mapping_eq, isTable] using absent
    simp only [wp_bind, wp_pure, isEmpty]
    refine extended _ _ ⟨?_, Or.inl ⟨by simp [isTable], rfl, rfl⟩⟩
    intro other
    simp only [mapping_eq, update_apply]
    grind
  | none =>
    cases isFree : memory.free with
    | nil =>
      have taken : kalloc memory = .done none memory := by
        simp [kalloc, isFree]
      simp only [wp_bind]
      rw [wp_iff_of_done taken]
      exact failed isTable isFree
    | cons frame rest =>
      simp only [wp_bind, wp_kalloc isFree, wp_memset, wp_pure, if_true]
      refine extended _ _ ⟨?_, Or.inr ⟨frame, rest, isTable, isFree, rfl, rfl⟩⟩
      intro other
      simp only [mapping_eq, update_apply]
      grind

/-- `mappages` of the first unmapped page. -/
theorem wp_mappages {pte : Pte} (filled : Filled space page) (isUser : page < kernelPage)
    (ready : (space.table (pdx page)).isSome = true ∨ memory.free ≠ []) :
    (mappages space page pte).wp memory (· ≠ .remap)
      fun mapped _ => Filled mapped.1 (page + 1) := by
  have absent : mapping space page = none := by
    by_contra isMapped
    exact filled.unmapped page (Nat.le_refl page) isUser (present_iff_mapping.mpr isMapped)
  refine wp_mappages_absent absent ?_ ?_
  · intro missing isEmpty
    simp [missing, isEmpty] at ready
  · intro after final extended
    refine ⟨?_, ?_⟩
    · intro other below
      rw [present_iff_mapping, extended.mapped]
      split
      next => exact Option.some_ne_none _
      next differs => exact present_iff_mapping.mp (filled.mapped other (by omega))
    · intro other above isUser
      rw [present_iff_mapping, extended.mapped, if_neg (by omega), ← present_iff_mapping]
      exact filled.unmapped other (by omega) isUser

theorem wp_kfree_or {frame : Nat} {post : Unit → Memory → Prop}
    (valid : Valid memory.kend frame ∨ allowed .kfree)
    (holds : post () { memory with
      free := frame :: memory.free
      byte := update memory.byte frame fun _ => 1 }) :
    (kfree frame).wp memory allowed post := by
  rcases valid with valid | isAllowed
  · exact wp_kfree valid holds
  · simp only [kfree, wp_bind, wp_read]
    split
    next => exact isAllowed
    next => exact holds

variable {limit : Nat}

/-- The pages behind the mappings of the pages from `page` to `limit`. -/
def frames (space : Space) (page limit : Nat) : List Nat :=
  (range' page (limit - page)).filterMap fun other => (mapping space other).map Pte.frame

theorem mem_frames {frame : Nat} : frame ∈ frames space page limit ↔ ∃ other pte,
    page ≤ other ∧ other < limit ∧ mapping space other = some pte ∧ pte.frame = frame := by
  simp only [frames, mem_filterMap, mem_range'_1, Option.map_eq_some_iff]
  refine ⟨?_, ?_⟩
  · rintro ⟨other, inside, pte, isMapped, isFrame⟩
    exact ⟨other, pte, inside.1, by omega, isMapped, isFrame⟩
  · rintro ⟨other, pte, above, below, isMapped, isFrame⟩
    exact ⟨other, by omega, pte, isMapped, isFrame⟩

theorem frames_eq (more : page < limit) : frames space page limit =
      ((mapping space page).map Pte.frame).toList ++ frames space (page + 1) limit := by
  rw [frames, show limit - page = limit - (page + 1) + 1 by omega, range'_succ,
    filterMap_cons]
  cases mapping space page <;> rfl

theorem frames_congr {after : Space}
    (same : ∀ other, page ≤ other → mapping after other = mapping space other) :
    frames after page limit = frames space page limit := by
  refine filterMap_congr ?_
  intro other member
  rw [same other (mem_range'_1.mp member).1]

theorem frames_skip {next : Nat} (later : page ≤ next)
    (absent : ∀ other, page ≤ other → other < next → other < limit → mapping space other = none) :
    frames space page limit = frames space next limit := by
  induction next, later using Nat.le_induction with
  | base => rfl
  | succ next above ih =>
    rw [ih fun other behind below => absent other behind (by omega)]
    by_cases more : next < limit
    · rw [frames_eq more, absent next above (Nat.lt_succ_self next) more]
      rfl
    · rw [frames, frames, show limit - next = 0 by omega, show limit - (next + 1) = 0 by omega]
      rfl

/-- The loop of `deallocuvm` comes to every mapped page.  Where it finds no page
table it goes to the same place of the next one, and so passes the pages that
are before this place in the first page table that it finds. -/
def Reached (space : Space) (page limit : Nat) : Prop :=
  ∀ other, page ≤ other → other < limit → mapping space other ≠ none →
    page % NPTENTRIES ≤ other % NPTENTRIES ∨
      ∃ index, pdx page ≤ index ∧ index < pdx other ∧ space.table index ≠ none

theorem table_of_mapping (isMapped : mapping space page ≠ none) :
    space.table (pdx page) ≠ none := by
  intro missing
  exact isMapped (by simp [mapping_eq, missing])

theorem reached_of_table (isTable : space.table (pdx page) ≠ none) :
    Reached space page limit := by
  intro other above _ _
  by_cases same : pdx page = pdx other
  · left
    simp only [pdx, NPTENTRIES] at same ⊢
    omega
  · refine Or.inr ⟨pdx page, Nat.le_refl _, ?_, isTable⟩
    exact Nat.lt_of_le_of_ne (Nat.div_le_div_right above) same

theorem reached_of_first
    (first : ∀ other, page ≤ other → other < limit → mapping space other ≠ none →
      mapping space page ≠ none) :
    Reached space page limit := by
  intro other above below isMapped
  have isTable := table_of_mapping (first other above below isMapped)
  exact reached_of_table isTable other above below isMapped

/-- Behind a page whose table exists every page is reached. -/
theorem reached_next (isTable : space.table (pdx page) ≠ none) :
    Reached space (page + 1) limit := by
  by_cases inside : pdx (page + 1) = pdx page
  · exact reached_of_table (by rw [inside]; exact isTable)
  · intro other _ _ _
    left
    simp only [pdx, NPTENTRIES] at inside ⊢
    omega

section Skipping

variable (reached : Reached space page limit) (missing : space.table (pdx page) = none)
include reached missing

/-- Where the page table of the loop's page is missing, the pages up to the same
place of the next page table are not mapped. -/
theorem Reached.absent {other : Nat} (above : page ≤ other) (near : other < page + NPTENTRIES)
    (below : other < limit) : mapping space other = none := by
  by_contra isMapped
  have isTable := table_of_mapping isMapped
  have differs : pdx other ≠ pdx page := by
    intro same
    exact isTable (by rw [same, missing])
  rcases reached other above below isMapped with behind | ⟨index, behind, before, found⟩
  · simp only [pdx, NPTENTRIES] at differs near behind
    omega
  · have first : index = pdx page := by
      simp only [pdx, NPTENTRIES] at behind before near ⊢
      omega
    exact found (by rw [first, missing])

theorem Reached.skip : Reached space (page + NPTENTRIES) limit := by
  intro other above below isMapped
  rcases reached other (by omega) below isMapped with behind | ⟨index, behind, before, found⟩
  · left
    simp only [NPTENTRIES] at behind ⊢
    omega
  · refine Or.inr ⟨index, ?_, before, found⟩
    have differs : index ≠ pdx page := by
      intro same
      exact found (by rw [same, missing])
    simp only [pdx, NPTENTRIES] at behind differs ⊢
    omega

end Skipping

/-- The mappings of the pages from `page` to `limit` are gone, and the pages
behind them have been freed. -/
structure Unmaps (space : Space) (memory : Memory) (page limit : Nat) (after : Space)
    (final : Memory) : Prop where
  gone : ∀ other, mapping after other =
    if page ≤ other ∧ other < limit then none else mapping space other
  tables : after.table = space.table
  free : final.free = (frames space page limit).reverse ++ memory.free

theorem unmaps_nothing (atEnd : limit ≤ page) : Unmaps space memory page limit space memory where
  gone := fun other => (if_neg (by omega)).symm
  tables := rfl
  free := by
    rw [frames, Nat.sub_eq_zero_of_le atEnd]
    rfl

theorem Unmaps.skip {next : Nat} {after : Space} {final : Memory}
    (unmaps : Unmaps space memory next limit after final) (later : page ≤ next)
    (absent : ∀ other, page ≤ other → other < next → other < limit → mapping space other = none) :
    Unmaps space memory page limit after final where
  gone := by
    intro other
    have same := unmaps.gone other
    grind
  tables := unmaps.tables
  free := by
    rw [frames_skip later absent]
    exact unmaps.free

/-- The loop of `deallocuvm` where it comes to every mapped page. -/
theorem wp_deallocLoop_unmaps (limit fuel page : Nat) (space : Space) (memory : Memory)
    (enough : limit ≤ page + fuel) (reached : Reached space page limit)
    (valid : ∀ other pte, page ≤ other → other < limit → mapping space other = some pte →
        Valid memory.kend pte.frame ∨ allowed .kfree) :
    (deallocLoop limit fuel page space).wp memory allowed (Unmaps space memory page limit) := by
  induction fuel generalizing page space memory with
  | zero => exact unmaps_nothing (by omega)
  | succ fuel ih =>
    rw [deallocLoop]
    split
    next more =>
      split
      next missing =>
        refine wp_mono (ih (page + NPTENTRIES) space memory
          (by simp only [NPTENTRIES]; omega) (reached.skip missing)
          fun other pte above => valid other pte (by omega)) ?_
        intro after final unmaps
        exact unmaps.skip (Nat.le_add_right ..)
          fun other above near => reached.absent missing above near
      next pgtab isTable =>
        have hasTable : space.table (pdx page) ≠ none := by simp [isTable]
        split
        next isEmpty =>
          refine wp_mono (ih (page + 1) space memory (by omega) (reached_next hasTable)
            fun other pte above => valid other pte (by omega)) ?_
          intro after final unmaps
          refine unmaps.skip (Nat.le_succ page) ?_
          intro other above near _
          obtain rfl : other = page := by omega
          simp [mapping_eq, isEmpty]
        next pte isPte =>
          have isMapped : mapping space page = some pte := by
            simp [mapping_eq, isTable, isPte]
          have isFrame := valid page pte (Nat.le_refl page) more isMapped
          split
          next isZero =>
            rcases isFrame with isValid | isAllowed
            · exact absurd isZero isValid.2.2
            · exact isAllowed
          next =>
            rw [wp_bind]
            refine wp_kfree_or isFrame ?_
            refine wp_mono (ih (page + 1) (space.clear page) _ (by omega)
              (reached_next hasTable) ?_) ?_
            · intro other found above
              rw [mapping_clear]
              grind
            · intro after final unmaps
              have same : frames (space.clear page) (page + 1) limit =
                  frames space (page + 1) limit := by
                refine frames_congr ?_
                intro other above
                rw [mapping_clear, if_neg (by omega)]
              refine ⟨?_, unmaps.tables, ?_⟩
              · intro other
                rw [unmaps.gone, mapping_clear]
                grind
              · rw [unmaps.free, same, frames_eq more, isMapped]
                simp
    next atEnd => exact unmaps_nothing (by omega)

/-- The loop of `deallocuvm` has passed a page, or passes it because no page
table before that of the page exists. -/
def Passed (space : Space) (page other : Nat) : Prop :=
  other < page ∨ other % NPTENTRIES < page % NPTENTRIES ∧
    ∀ index, pdx page ≤ index → index < pdx other → space.table index = none

theorem Passed.skip {other : Nat} (passed : Passed space page other) :
    Passed space (page + NPTENTRIES) other := by
  rcases passed with behind | ⟨before, missing⟩
  · exact Or.inl (by omega)
  · refine Or.inr ⟨by rwa [Nat.add_mod_right], fun index above => missing index ?_⟩
    simp only [pdx, NPTENTRIES] at above ⊢
    omega

theorem Passed.behind {other : Nat} (passed : Passed space page other)
    (isTable : space.table (pdx page) ≠ none) : other < page := by
  rcases passed with behind | ⟨before, missing⟩
  · exact behind
  · have near : pdx other ≤ pdx page := by
      by_contra later
      exact isTable (missing (pdx page) (Nat.le_refl _) (by omega))
    simp only [pdx, NPTENTRIES] at near before
    omega

/-- The loop keeps the mapping of a page that it has passed or passes. -/
theorem wp_deallocLoop_passed (limit fuel page : Nat) {other : Nat} (space : Space)
    (memory : Memory) (passed : Passed space page other) :
    (deallocLoop limit fuel page space).wp memory (fun _ => True)
      fun after _ => mapping after other = mapping space other := by
  induction fuel generalizing page space memory with
  | zero => exact rfl
  | succ fuel ih =>
    rw [deallocLoop]
    split
    next =>
      split
      next => exact ih (page + NPTENTRIES) space memory passed.skip
      next pgtab isTable =>
        have behind := passed.behind (by simp [isTable])
        split
        next => exact ih (page + 1) space memory (Or.inl (by omega))
        next =>
          split
          next => exact trivial
          next =>
            rw [wp_bind]
            refine wp_kfree_or (Or.inr trivial) ?_
            refine wp_mono (ih (page + 1) (space.clear page) _ (Or.inl (by omega))) ?_
            intro after final same
            rw [same, mapping_clear, if_neg (by omega)]
    next => exact rfl

theorem Filled.iff (filled : Filled space top) (isUser : page < kernelPage) :
    Present space page ↔ page < top := by
  refine ⟨?_, filled.mapped page⟩
  intro present
  by_contra above
  exact filled.unmapped page (by omega) isUser present

theorem filled_of_iff (small : top ≤ kernelPage)
    (present : ∀ page < kernelPage, Present space page ↔ page < top) :
    Filled space top where
  mapped := fun page below => (present page (by omega)).mpr below
  unmapped := fun page above isUser isPresent =>
    absurd ((present page isUser).mp isPresent) (by omega)

theorem pageCount_le {sz : Nat} (small : sz < KERNBASE) : pageCount sz ≤ kernelPage := by
  rw [pageCount_eq]
  simp only [kernelPage, KERNBASE, PGSIZE] at small ⊢
  omega

/-- An iteration of the loop of `allocuvm` maps its page, or there is no page
left and the pages of the call are gone again. -/
theorem wp_growPage {oldsz newsz : Nat} (small : newsz < KERNBASE) (behind : pageCount oldsz ≤ page)
    (more : page < pageCount newsz) (filled : Filled space page)
    (ready : (space.table (pdx page)).isSome = true ∨ memory.free.length ≠ 1) :
    (growPage oldsz newsz page space).wp memory (· ≠ .remap) fun grown _ =>
        Filled grown.1 (if grown.2 then page + 1 else pageCount oldsz) := by
  have below := pageCount_le small
  unfold growPage
  cases isFree : memory.free with
  | nil =>
    have taken : kalloc memory = .done none memory := by
      simp [kalloc, isFree]
    rw [wp_bind]
    simp only [wp, taken]
    change wp (deallocuvm space newsz oldsz >>= _) memory _ _
    rw [wp_bind, deallocuvm]
    have grows : ¬ oldsz ≥ newsz := by
      intro above
      rw [pageCount_eq] at behind more
      omega
    rw [if_neg grows]
    refine wp_mono (wp_deallocLoop_unmaps (pageCount newsz) _ (pageCount oldsz) space memory
      ?_ (reached_of_first ?_) fun _ _ _ _ _ => Or.inr (by simp)) ?_
    · change pageCount newsz ≤ pageCount oldsz + (pageCount newsz - pageCount oldsz)
      omega
    · intro other above inside isMapped
      rw [← present_iff_mapping, filled.iff (by omega)] at isMapped ⊢
      omega
    · intro after final unmaps
      change Filled after (pageCount oldsz)
      refine filled_of_iff (by omega) ?_
      intro other isUser
      have isFilled := filled.iff isUser
      rw [present_iff_mapping] at isFilled ⊢
      rw [unmaps.gone]
      split
      next inside =>
        simp only [ne_eq, not_true_eq_false, false_iff]
        omega
      next outside =>
        rw [isFilled]
        omega
  | cons frame rest =>
    rw [wp_bind, wp_kalloc isFree]
    rw [wp_bind, wp_memset, wp_bind]
    refine wp_mono (wp_mappages filled (by omega) ?_) ?_
    · rw [isFree, length_cons] at ready
      rcases ready with table | notLast
      · exact Or.inl table
      · right
        intro isEmpty
        change rest = [] at isEmpty
        simp [isEmpty] at notLast
    · intro mapped final isFilled
      exact isFilled

/-! ## Runs -/

/-- What a call has done so far when `proc->sz` is `sz` and the pages below
`top` are mapped. -/
def Stage (sz top : Nat) : Place → Prop
  | .outside => True
  | .called addr n => addr = sz ∧ 0 < n ∧ n < 2 ^ 31 ∧ top = pageCount sz
  | .allocating addr n oldsz newsz page =>
    addr = sz ∧ 0 < n ∧ oldsz = sz ∧ newsz = sz + n ∧ newsz < KERNBASE ∧
      top = page ∧ page ≤ pageCount newsz
  | .writing addr n newsz =>
    addr = sz ∧ 0 < n ∧ newsz = sz + n ∧ newsz < KERNBASE ∧ top = pageCount newsz

section Runs

variable {Thread : Type*} [DecidableEq Thread]
variable {state next : State Thread} {initial : Nat}

/-- The ranges of two calls have no address in common. -/
def DisjointRanges (first second : Nat × Nat) : Prop :=
  first.1 + first.2 ≤ second.1 ∨ second.1 + second.2 ≤ first.1

structure Orderly (initial : Nat) (state : State Thread) : Prop where
  small : state.sz < KERNBASE
  total : state.sz = initial + (state.returned.map Prod.snd).sum
  within : ∀ range ∈ state.returned, range.1 + range.2 ≤ state.sz
  disjoint : state.returned.Pairwise DisjointRanges
  panic : state.panic ≠ some .remap
  lone : ∀ first second, state.place first ≠ .outside →
    state.place second ≠ .outside → first = second
  filled : ∃ top, Filled state.space top ∧ pageCount state.sz ≤ top ∧
    (∀ thread, Stage state.sz top (state.place thread)) ∧
    ((∀ thread, state.place thread = .outside) → top = pageCount state.sz)

variable {thread : Thread}

omit [DecidableEq Thread] in
theorem Orderly.outside (orderly : Orderly initial state) (inside : state.place thread ≠ .outside)
    {other : Thread} (differs : other ≠ thread) : state.place other = .outside := by
  by_contra isInside
  exact differs (orderly.lone other thread isInside inside)

section

variable (orderly : Orderly initial state)
include orderly

theorem Orderly.advance {place : Place}
    (others : ∀ other, other ≠ thread → state.place other = .outside) (filled : Filled space top)
    (enough : pageCount state.sz ≤ top) (stage : Stage state.sz top place)
    (outside : place = .outside → top = pageCount state.sz) :
    Orderly initial ({ state with memory, space }.setPlace thread place) := by
  have own : (State.setPlace { state with memory, space } thread place).place thread = place :=
    update_self _ _ _
  have rest : ∀ other, other ≠ thread → (State.setPlace { state with
      memory, space } thread place).place other = .outside := by
    intro other differs
    exact (update_of_ne differs _ _).trans (others other differs)
  refine ⟨orderly.small, orderly.total, orderly.within, orderly.disjoint,
    orderly.panic, ?_, top, filled, enough, ?_, ?_⟩
  · intro first second isFirst isSecond
    have firstOwn : first = thread := by
      by_contra differs
      exact isFirst (rest first differs)
    have secondOwn : second = thread := by
      by_contra differs
      exact isSecond (rest second differs)
    rw [firstOwn, secondOwn]
  · intro other
    by_cases same : other = thread
    · rw [same, own]
      exact stage
    · rw [rest other same]
      trivial
  · intro all
    exact outside (own.symm.trans (all thread))

theorem Orderly.call {n : Nat} (alone : ∀ thread, state.place thread = .outside)
    (stepTo : state.act (.call thread n) = some next) :
    Orderly initial next := by
  simp only [State.act, alone thread] at stepTo
  split at stepTo <;> cases stepTo
  next bounds =>
    obtain ⟨top, filled, enough, -, idle⟩ := orderly.filled
    exact orderly.advance (fun other _ => alone other) filled enough
      ⟨rfl, bounds.1, bounds.2, idle alone⟩ (nofun)

theorem Orderly.read (stepTo : state.act (.read thread) = some next) :
    Orderly initial next := by
  simp only [State.act] at stepTo
  split at stepTo <;> cases stepTo
  rename_i addr n place
  have others : ∀ other, other ≠ thread → state.place other = .outside :=
    fun other differs => orderly.outside (by rw [place]; simp) differs
  obtain ⟨top, filled, enough, stages, -⟩ := orderly.filled
  have stage := stages thread
  rw [place] at stage
  obtain ⟨isAddr, positive, bounded, isTop⟩ := stage
  have sum : (state.sz + n) % 2 ^ 32 = state.sz + n := by
    have small := orderly.small
    simp only [KERNBASE] at small
    exact Nat.mod_eq_of_lt (by omega)
  unfold State.read
  dsimp only
  rw [sum]
  split
  next => exact orderly.advance others filled enough trivial (fun _ => isTop)
  next fits =>
    rw [if_neg (by omega)]
    refine orderly.advance others filled enough ⟨isAddr, positive, rfl, rfl, by omega, isTop, ?_⟩
      (by simp)
    change pageCount state.sz ≤ pageCount (state.sz + n)
    rw [pageCount_eq, pageCount_eq]
    omega

theorem Orderly.grow (ready : state.TableReady (state.place thread))
    (stepTo : state.act (.grow thread) = some next) :
    Orderly initial next := by
  simp only [State.act] at stepTo
  split at stepTo
  swap
  · simp at stepTo
  rename_i addr n oldsz newsz page place
  have others : ∀ other, other ≠ thread → state.place other = .outside :=
    fun other differs => orderly.outside (by rw [place]; simp) differs
  obtain ⟨top, filled, enough, stages, -⟩ := orderly.filled
  have stage := stages thread
  rw [place] at stage ready
  obtain ⟨isAddr, positive, isOld, isNew, small, isTop, within⟩ := stage
  subst isOld isTop
  split at stepTo <;> cases stepTo
  next more =>
    have result := wp_growPage small enough more filled ready
    cases outcome : growPage state.sz newsz top state.space state.memory with
    | stopped panic =>
      have notRemap := wp_of_stopped result outcome
      refine { orderly with panic := ?_ }
      intro isRemap
      exact notRemap (Option.some.inj isRemap)
    | done grown memory =>
      have isFilled := wp_of_done result outcome
      obtain ⟨space, goesOn⟩ := grown
      cases goesOn with
      | true =>
        have isFilled : Filled space (top + 1) := isFilled
        exact orderly.advance others isFilled (by omega)
          ⟨isAddr, positive, rfl, isNew, small, rfl, more⟩
          (nofun)
      | false => exact orderly.advance others isFilled (Nat.le_refl _) trivial (fun _ => rfl)
  next atEnd =>
    have isEnd : top = pageCount newsz := by
      change ¬ top < pageCount newsz at atEnd
      omega
    unfold State.allocated
    rw [if_neg (by omega)]
    exact orderly.advance others filled enough ⟨isAddr, positive, isNew, small, isEnd⟩ (nofun)

theorem Orderly.write (stepTo : state.act (.write thread) = some next) :
    Orderly initial next := by
  simp only [State.act] at stepTo
  split at stepTo <;> cases stepTo
  rename_i addr n newsz place
  have outside : ∀ other, update state.place thread .outside other = .outside := by
    intro other
    by_cases same : other = thread
    · rw [same, update_self]
    · rw [update_of_ne same]
      exact orderly.outside (by rw [place]; simp) same
  obtain ⟨top, filled, -, stages, -⟩ := orderly.filled
  have stage := stages thread
  rw [place] at stage
  obtain ⟨isAddr, positive, isNew, small, isTop⟩ := stage
  have total := orderly.total
  refine ⟨small, ?_, ?_, ?_, orderly.panic, ?_, top, filled,
    Nat.le_of_eq isTop.symm, ?_, fun _ => isTop⟩
  · change newsz = initial + (((addr, n) :: state.returned).map Prod.snd).sum
    rw [map_cons, sum_cons]
    omega
  · intro range member
    change range.1 + range.2 ≤ newsz
    rcases mem_cons.mp member with rfl | earlier
    · omega
    · have before := orderly.within range earlier
      omega
  · refine pairwise_cons.mpr ⟨?_, orderly.disjoint⟩
    intro range earlier
    right
    rw [isAddr]
    exact orderly.within range earlier
  · intro first second isInside
    exact absurd (outside first) isInside
  · intro other
    change Stage newsz top (update state.place thread .outside other)
    rw [outside other]
    trivial

theorem Orderly.step {label : Label Thread} (oneByOne : state.OneByOne label)
    (stepTo : state.step label = some next) : Orderly initial next := by
  have acts : state.act label = some next := by
    unfold State.step at stepTo
    split at stepTo
    next => cases stepTo
    next => exact stepTo
  cases label with
  | call thread n => exact orderly.call oneByOne acts
  | read thread => exact orderly.read acts
  | grow thread => exact orderly.grow oneByOne acts
  | write thread => exact orderly.write acts
  | others free =>
    cases acts
    exact { orderly with }

end

/-- A process whose pages below `sz` are mapped and no others, before any
thread calls `sbrk`. -/
structure State.Initial (state : State Thread) : Prop where
  small : state.sz < KERNBASE
  filled : Filled state.space (pageCount state.sz)
  place : ∀ thread, state.place thread = .outside
  returned : state.returned = []
  panic : state.panic = none

omit [DecidableEq Thread] in
theorem orderly_of_initial (initial : state.Initial) : Orderly state.sz state := by
  refine ⟨initial.small, ?_, ?_, ?_, ?_, ?_, pageCount state.sz,
    initial.filled, Nat.le_refl _, ?_, fun _ => rfl⟩
  · simp [initial.returned]
  · simp [initial.returned]
  · simp [initial.returned]
  · simp [initial.panic]
  · intro first second isInside
    exact absurd (initial.place first) isInside
  · intro thread
    rw [initial.place]
    trivial

/-- If calls of `sbrk` do not overlap and `mappages` does not fail, successful
calls have disjoint ranges, `proc->sz` is their sum, and every page below it is
mapped. -/
theorem sbrk_among_threads (initial : state.Initial)
    (reaches : GuardedReaches State.step State.OneByOne state next) :
    next.returned.Pairwise DisjointRanges ∧
    next.sz = state.sz + (next.returned.map Prod.snd).sum ∧
    (∀ page, page * PGSIZE < next.sz → Present next.space page) ∧
    next.panic ≠ some .remap := by
  have orderly : Orderly state.sz next :=
    GuardedReaches.invariant reaches (Orderly state.sz) (orderly_of_initial initial)
      fun _ _ _ holds oneByOne stepTo => holds.step oneByOne stepTo
  refine ⟨orderly.disjoint, orderly.total, ?_, orderly.panic⟩
  intro page below
  obtain ⟨top, filled, enough, -⟩ := orderly.filled
  apply filled.mapped
  rw [pageCount_eq] at enough
  simp only [PGSIZE] at below
  omega

end Runs

def twoThreads : State Bool where
  memory := ⟨[5, 6, 7, 8], fun _ _ => 0, 4, 5, []⟩
  space := ⟨4, fun _ => none, fun _ => none⟩
  sz := 0
  place := fun _ => .outside
  returned := []
  panic := none

theorem twoThreads_initial : twoThreads.Initial where
  small := by decide
  filled := by
    refine ⟨fun page below => ?_, fun page _ _ present => ?_⟩
    · have empty : pageCount twoThreads.sz = 0 := by decide
      omega
    · rw [present_iff] at present
      simp [twoThreads] at present
  place := fun _ => rfl
  returned := rfl
  panic := rfl

/-- One thread after the other. -/
theorem sbrk_among_threads_twoThreads :
    ∃ next, GuardedReaches State.step State.OneByOne twoThreads next ∧
      next.returned = [(100, 4096), (0, 100)] ∧
      next.returned.Pairwise DisjointRanges ∧
      next.sz = twoThreads.sz + (next.returned.map Prod.snd).sum := by
  obtain ⟨next, run, returned⟩ : ∃ next ∈ runLabels (restrict State.step State.OneByOne) twoThreads
      [.call true 100, .read true, .grow true, .grow true, .write true,
        .call false 4096, .read false, .grow false, .grow false,
        .write false],
      next.returned = [(100, 4096), (0, 100)] := by
    decide +kernel
  have reaches := guardedReaches_of_runLabels _ run
  obtain ⟨disjoint, total, -⟩ := sbrk_among_threads twoThreads_initial reaches
  exact ⟨next, reaches, returned, disjoint, total⟩

/-- Two threads read the same size: they map the same page, or both succeed
with the same address. -/
theorem sbrk_races : (∃ next, Reaches State.step twoThreads next ∧
      next.panic = some .remap) ∧
    (∃ next, Reaches State.step twoThreads next ∧
      next.returned = [(100, 100), (100, 100), (0, 100)] ∧
      next.sz = 200) := by
  have panics : ∃ next ∈ runLabels State.step twoThreads
      [.call true 4096, .call false 4096, .read true, .read false, .grow true, .grow false],
      next.panic = some .remap := by
    decide +kernel
  have loses : ∃ next ∈ runLabels State.step twoThreads
      [.call true 100, .read true, .grow true, .grow true, .write true,
        .call true 100, .call false 100, .read true, .read false,
        .grow true, .grow false, .write true, .write false],
      next.returned = [(100, 100), (100, 100), (0, 100)] ∧
        next.sz = 200 := by
    decide +kernel
  obtain ⟨first, firstRun, remap⟩ := panics
  obtain ⟨second, secondRun, lost⟩ := loses
  exact ⟨⟨first, reaches_of_runLabels _ firstRun, remap⟩,
    ⟨second, reaches_of_runLabels _ secondRun, lost⟩⟩

end ThreadSbrk

end Xv6Kthreads
