import Xv6Kthreads.KernelMappings

/-!
# The copy of an address space

`copyuvm` copies the pages of a process below its size into free pages and maps
them in a new directory.  This file describes the copy by the memory before the
call, and shows that a process and its copy do not see each other's stores.
-/

namespace Xv6Kthreads

namespace Paging

open Sections Function Act List

/-! ### Accesses in user mode -/

/-- An entry of a directory or page table allows an access in user mode. -/
def allows (word : Nat) (write : Bool) : Bool :=
  decide (word &&& PTE_P ≠ 0) && decide (word &&& PTE_U ≠ 0) &&
    (!write || decide (word &&& PTE_W ≠ 0))

variable (page : Nat → Page)

def translate (d v : Nat) (write : Bool) : Option Nat :=
  let pde := (page d).word (v / 1024)
  let pte := (page (pteAddr pde)).word (v % 1024)
  if allows pde write && allows pte write then some (pteAddr pte) else none

def offset (va : Nat) : Fin 4096 :=
  ⟨va % 4096, Nat.mod_lt va (by decide)⟩

def userLoad (d va : Nat) : Option UInt8 :=
  (translate page d (va / 4096) false).map fun frame =>
    page frame (offset va)

def userStore (d va : Nat) (value : UInt8) : Nat → Page :=
  match translate page d (va / 4096) true with
  | some frame => update page frame
      (update (page frame) (offset va) value)
  | none => page

def UserPage (d frame : Nat) : Prop :=
  ∃ v, translate page d v false = some frame

section Access

variable {page after : Nat → Page} {d other : Nat}

theorem allows_load {word : Nat} (write : allows word true = true) : allows word false = true := by
  unfold allows at write ⊢
  simp only [Bool.and_eq_true, Bool.not_true, Bool.false_or] at write
  simp only [write.1.1, write.1.2, Bool.not_false, Bool.true_or, Bool.and_true]

theorem UserPage.of_store {v frame : Nat} (isPage : translate page d v true = some frame) :
    UserPage page d frame := by
  refine ⟨v, ?_⟩
  unfold translate at isPage ⊢
  dsimp only at isPage ⊢
  split at isPage
  next allowed =>
    rw [Bool.and_eq_true] at allowed
    rw [allows_load allowed.1, allows_load allowed.2]
    exact isPage
  next => cases isPage

theorem translate_congr (same : ∀ frame, Node page d frame → after frame = page frame) (v : Nat)
    (write : Bool) : translate after d v write = translate page d v write := by
  unfold translate
  dsimp only
  rw [same d (.inl rfl)]
  cases allowed : allows ((page d).word (v / 1024)) write with
  | false => rfl
  | true =>
    have present : (page d).word (v / 1024) &&& PTE_P ≠ 0 := by
      unfold allows at allowed
      simp only [Bool.and_eq_true, decide_eq_true_eq] at allowed
      exact allowed.1.1
    have isTable : tableOf page d (v / 1024) = some (pteAddr ((page d).word (v / 1024))) := by
      rw [tableOf, if_pos present]
    rw [same _ (.inr ⟨_, isTable⟩)]

/-- The pages of one process are neither tables of a process nor pages of the
other one. -/
structure Apart (page : Nat → Page) (d other : Nat) : Prop where
  own : ∀ frame, UserPage page d frame → ¬ Node page d frame
  tables : ∀ frame, UserPage page d frame → ¬ Node page other frame
  pages : ∀ frame, UserPage page d frame → ¬ UserPage page other frame

/-- The memories are equal in what a process can see. -/
def SameView (d : Nat) (page after : Nat → Page) : Prop :=
  ∀ frame, Node page d frame ∨ UserPage page d frame → after frame = page frame

theorem SameView.translate (same : SameView d page after) (v : Nat) (write : Bool) :
    translate after d v write = translate page d v write :=
  translate_congr (fun frame isNode => same frame (.inl isNode)) v write

theorem SameView.userLoad (same : SameView d page after) (va : Nat) :
    userLoad after d va = userLoad page d va := by
  unfold Paging.userLoad
  rw [same.translate]
  cases isPage : Paging.translate page d (va / 4096) false with
  | none => rfl
  | some frame => rw [Option.map_some, Option.map_some, same frame (.inr ⟨_, isPage⟩)]

theorem userStore_of_not {va frame : Nat} {value : UInt8} (notPage : ¬ UserPage page d frame) :
    userStore page d va value frame = page frame := by
  unfold userStore
  cases isTarget : translate page d (va / 4096) true with
  | none => rfl
  | some target =>
    apply update_of_ne
    rintro rfl
    exact notPage (.of_store isTarget)

/-- The trees and the pages of a process when its tree has not changed. -/
theorem userPage_congr (same : ∀ frame, Node page d frame → after frame = page frame)
    (frame : Nat) : UserPage after d frame ↔ UserPage page d frame := by
  unfold UserPage
  simp only [translate_congr same]

theorem Apart.congr (apart : Apart page d other)
    (same : ∀ frame, Node page d frame → after frame = page frame)
    (sameOther : ∀ frame, Node page other frame → after frame = page frame) :
    Apart after d other := by
  have root := same d (.inl rfl)
  have rootOther := sameOther other (.inl rfl)
  refine ⟨?_, ?_, ?_⟩ <;> intro frame
  · rw [userPage_congr same, node_congr root]
    exact apart.own frame
  · rw [userPage_congr same, node_congr rootOther]
    exact apart.tables frame
  · rw [userPage_congr same, userPage_congr sameOther]
    exact apart.pages frame

/-- Stores by two processes with the directories `roots`, in order. -/
def storeAll (roots : Bool → Nat) : (page : Nat → Page) → List (Bool × Nat × UInt8) → Nat → Page
  | page, [] => page
  | page, (who, va, value) :: rest => storeAll roots (userStore page (roots who) va value) rest

variable {roots : Bool → Nat}

theorem sameView_storeAll (apart : ∀ who, Apart page (roots who) (roots !who)) (who : Bool)
    (same : SameView (roots who) page after) (stores : List (Bool × Nat × UInt8)) :
    SameView (roots who) (storeAll roots page stores)
      (storeAll roots after (stores.filter fun store => store.1 = who)) := by
  induction stores generalizing page after with
  | nil => exact same
  | cons store rest ih =>
    obtain ⟨actor, va, value⟩ := store
    -- No tree changes, whoever stores.
    have trees : ∀ reader frame, Node page (roots reader) frame →
        userStore page (roots actor) va value frame = page frame := by
      intro reader frame isNode
      apply userStore_of_not
      intro isPage
      rcases eq_or_ne reader actor with rfl | isActor
      · exact (apart reader).own frame isPage isNode
      · have isOther : reader = !actor := by
          cases reader <;> cases actor <;> simp_all
        subst isOther
        exact (apart actor).tables frame isPage isNode
    have apartAfter : ∀ reader, Apart (userStore page (roots actor) va value) (roots reader)
          (roots !reader) :=
      fun reader => (apart reader).congr (trees reader) (trees !reader)
    have nodes := node_congr (trees who (roots who) (.inl rfl))
    have pages := userPage_congr (trees who)
    rcases eq_or_ne actor who with rfl | isOwn
    · rw [filter_cons_of_pos (by simp)]
      refine ih apartAfter ?_
      intro frame seen
      rw [nodes, pages] at seen
      have translated := same.translate (va / 4096) true
      unfold userStore
      rw [translated]
      cases isTarget : Paging.translate page (roots actor) (va / 4096) true with
      | none => exact same frame seen
      | some target =>
        dsimp only
        rw [same target (.inr (.of_store isTarget))]
        by_cases isFrame : frame = target
        · rw [isFrame, update_self, update_self]
        · rw [update_of_ne isFrame, update_of_ne isFrame, same frame seen]
    · rw [filter_cons_of_neg (by simp [isOwn])]
      refine ih apartAfter ?_
      intro frame seen
      rw [nodes, pages] at seen
      rw [same frame seen]
      symm
      apply userStore_of_not
      intro isPage
      have isOther : who = !actor := by
        cases who <;> cases actor <;> simp_all
      subst isOther
      exact seen.elim ((apart actor).tables frame isPage) ((apart actor).pages frame isPage)

end Access

/-! ### The loop -/

/-- An address space that can be copied: the pages below the size are present,
its pages and page tables are not free, and no page that the process can reach
is one of its page tables. -/
structure Parent (memory : Memory) (pgdir sz : Nat) : Prop where
  nodup : memory.freelist.Nodup
  small : ∀ frame ∈ memory.freelist, frame < 2 ^ 20
  present : ∀ v, v * PGSIZE < sz → entry memory.page pgdir v &&& PTE_P ≠ 0
  nodes : ∀ frame, Node memory.page pgdir frame → frame ∉ memory.freelist
  pages : ∀ v, v * PGSIZE < sz → pteAddr (entry memory.page pgdir v) ∉ memory.freelist
  users : ∀ frame, UserPage memory.page pgdir frame →
    frame ∉ memory.freelist ∧ ¬ Node memory.page pgdir frame

theorem Tree.fill {before : Memory} {d frame : Nat} {rest : List Nat} (tree : Tree before d)
    (free : before.freelist = frame :: rest) (contents : Page) :
    Tree (Memory.setPage ⟨rest, before.page⟩ frame contents) d ∧ ∀ node, Node before.page d node →
        (Memory.setPage ⟨rest, before.page⟩ frame contents).page node =
          before.page node := by
  have isFree : frame ∈ before.freelist := by simp [free]
  have nodup := tree.nodup
  rw [free, nodup_cons] at nodup
  have same : ∀ node, Node before.page d node →
      (Memory.setPage ⟨rest, before.page⟩ frame contents).page node =
        before.page node := by
    intro node isNode
    apply update_of_ne
    rintro rfl
    exact tree.fresh node isNode isFree
  have root := same d (.inl rfl)
  refine ⟨⟨nodup.2, ?_, ?_, ?_, ?_⟩, same⟩
  · intro other isOther
    exact tree.small other (by rw [free]; exact mem_cons_of_mem _ isOther)
  · intro node isNode isOther
    exact tree.fresh node ((node_congr root node).mp isNode)
      (by rw [free]; exact mem_cons_of_mem _ isOther)
  · intro i
    rw [tableOf_congr root]
    exact tree.tables i
  · intro i j
    rw [tableOf_congr root, tableOf_congr root]
    exact tree.unique i j

section Copying

variable [layout : Layout] {start memory middle after : Memory} {pgdir sz d n : Nat}

structure Copied (start : Memory) (pgdir d n : Nat) (memory : Memory) : Prop where
  tree : Tree memory d
  free : memory.freelist <:+ start.freelist
  nodes : ∀ frame, Node memory.page d frame → frame ∈ start.freelist
  kept : ∀ frame, frame ∉ start.freelist → memory.page frame = start.page frame
  flags : ∀ v < n, pteFlags (entry memory.page d v) = pteFlags (entry start.page pgdir v)
  fresh : ∀ v < n, pteAddr (entry memory.page d v) ∈ start.freelist ∧
    pteAddr (entry memory.page d v) ∉ memory.freelist ∧
    ¬ Node memory.page d (pteAddr (entry memory.page d v))
  contents : ∀ v < n, memory.page (pteAddr (entry memory.page d v)) =
    start.page (pteAddr (entry start.page pgdir v))
  distinct : ∀ v < n, ∀ w < n, pteAddr (entry memory.page d v) =
    pteAddr (entry memory.page d w) → v = w
  rest : ∀ v, n ≤ v → entry memory.page d v = kernelEntry v
  spent : start.freelist.length + (missing memory.page d).card = memory.freelist.length + 1025 + n

theorem Copied.ofSetup (setup : Setup d start memory) : Copied start pgdir d 0 memory where
  __ := setup
  flags _ below := absurd below (Nat.not_lt_zero _)
  fresh _ below := absurd below (Nat.not_lt_zero _)
  contents _ below := absurd below (Nat.not_lt_zero _)
  distinct _ below := absurd below (Nat.not_lt_zero _)
  rest v _ := setup.entries v

omit layout in
/-- The entry that maps a page with the flags of another entry. -/
theorem mapped_entry (frame : Nat) {source : Nat} (present : source % 2 = 1) :
    pteAddr (frame * PGSIZE ||| pteFlags source ||| PTE_P) = frame ∧
      pteFlags (frame * PGSIZE ||| pteFlags source ||| PTE_P) =
        pteFlags source := by
  have small : pteFlags source < 4096 := Nat.mod_lt _ (by decide)
  have odd : pteFlags source % 2 = 1 := by
    unfold pteFlags PGSIZE
    omega
  rw [Nat.or_assoc, or_present odd, pack_eq frame small]
  unfold pteAddr
  refine ⟨?_, ?_⟩
  · unfold PGSIZE
    omega
  · unfold pteFlags PGSIZE
    omega

theorem Copied.next {frame source : Nat} {rest : List Nat} (copied : Copied start pgdir d n memory)
    (free : memory.freelist = frame :: rest)
    (present : source % 2 = 1) (isSource : source = entry start.page pgdir n)
    (notFree : pteAddr source ∉ start.freelist)
    (maps : Maps d n 1 (frame * PGSIZE) (pteFlags source) (Memory.setPage ⟨rest, memory.page⟩ frame
        (memory.page (pteAddr source))) after) :
    Copied start pgdir d (n + 1) after := by
  obtain ⟨_, same⟩ := copied.tree.fill free (memory.page (pteAddr source))
  have isFree : frame ∈ memory.freelist := by simp [free]
  have wasFree := copied.free.subset isFree
  have nodup := copied.tree.nodup
  rw [free, nodup_cons] at nodup
  have spent := copied.spent
  rw [free, length_cons] at spent
  have restFree : ∀ other ∈ rest, other ∈ memory.freelist := by
    intro other isOther
    rw [free]
    exact mem_cons_of_mem frame isOther
  generalize isMiddle : Memory.setPage ⟨rest, memory.page⟩ frame
    (memory.page (pteAddr source)) = middle at same maps
  have isRest : middle.freelist = rest := by
    rw [← isMiddle]
    rfl
  have filled : middle.page frame = start.page (pteAddr source) := by
    rw [← copied.kept _ notFree, ← isMiddle]
    exact update_self ..
  have others : ∀ other, other ≠ frame → middle.page other = memory.page other := by
    intro other differs
    rw [← isMiddle]
    exact update_of_ne differs _ _
  have root := same d (.inl rfl)
  have grows := maps.grows
  have shrinks := grows.free
  rw [isRest] at shrinks
  -- A page outside the tree that is no longer free keeps its contents.
  have settled : ∀ other, other ∉ rest → ¬ Node memory.page d other →
      after.page other = middle.page other ∧ other ∉ after.freelist ∧
        ¬ Node after.page d other := by
    intro other notRest notNode
    refine ⟨grows.kept other (by rw [isRest]; exact notRest)
      (fun isNode => notNode ((node_congr root other).mp isNode)),
      fun isLeft => notRest (shrinks.subset isLeft), ?_⟩
    intro isNode
    rcases grows.nodes other isNode with wasNode | wasRest
    · exact notNode ((node_congr root other).mp wasNode)
    · rw [isRest] at wasRest
      exact notRest wasRest
  have entries : ∀ v, entry after.page d v =
      if v = n then frame * PGSIZE ||| pteFlags source ||| PTE_P
      else entry memory.page d v := by
    intro v
    rw [maps.entries, entry_congr same]
    by_cases isNew : v = n
    · rw [if_pos (by omega), if_pos isNew, isNew, Nat.sub_self, Nat.zero_mul, Nat.add_zero]
    · rw [if_neg (by omega), if_neg isNew]
  obtain ⟨newAddr, newFlags⟩ := mapped_entry frame present
  have older : ∀ v < n, entry after.page d v = entry memory.page d v := by
    intro v below
    rw [entries, if_neg (by omega)]
  have newest : ∀ v, v < n + 1 → ¬ v < n → pteAddr (entry after.page d v) = frame ∧
        pteFlags (entry after.page d v) = pteFlags source ∧
        source = entry start.page pgdir v := by
    intro v below notOld
    have isNew : v = n := by omega
    rw [entries, if_pos isNew, isNew]
    exact ⟨newAddr, newFlags, isSource⟩
  have oldNotRest : ∀ v < n, pteAddr (entry memory.page d v) ∉ rest :=
    fun v below isRest => (copied.fresh v below).2.1 (restFree _ isRest)
  have oldNotFrame : ∀ v < n, pteAddr (entry memory.page d v) ≠ frame := by
    intro v below isFrame
    exact (copied.fresh v below).2.1 (isFrame ▸ isFree)
  have frameNotNode : ¬ Node memory.page d frame :=
    fun isNode => copied.tree.fresh frame isNode isFree
  refine ⟨grows.tree, ?_, ?_, ?_, ?_, ?_, ?_, ?_, ?_, ?_⟩
  · refine shrinks.trans (List.IsSuffix.trans ?_ copied.free)
    rw [free]
    exact suffix_cons frame rest
  · intro node isNode
    rcases grows.nodes node isNode with wasNode | wasRest
    · exact copied.nodes node ((node_congr root node).mp wasNode)
    · rw [isRest] at wasRest
      exact copied.free.subset (restFree node wasRest)
  · intro other notStart
    have differs : other ≠ frame := by
      rintro rfl
      exact notStart wasFree
    rw [(settled other (fun isRest => notStart (copied.free.subset (restFree other isRest)))
      (fun isNode => notStart (copied.nodes other isNode))).1,
      others other differs, copied.kept other notStart]
  · intro v below
    by_cases isOld : v < n
    · rw [older v isOld]
      exact copied.flags v isOld
    · obtain ⟨_, flags, same⟩ := newest v below isOld
      rw [flags, same]
  · intro v below
    by_cases isOld : v < n
    · obtain ⟨wasStart, _, notNode⟩ := copied.fresh v isOld
      rw [older v isOld]
      exact ⟨wasStart, (settled _ (oldNotRest v isOld) notNode).2⟩
    · rw [(newest v below isOld).1]
      exact ⟨wasFree, (settled frame nodup.1 frameNotNode).2⟩
  · intro v below
    by_cases isOld : v < n
    · obtain ⟨_, _, notNode⟩ := copied.fresh v isOld
      rw [older v isOld, (settled _ (oldNotRest v isOld) notNode).1,
        others _ (oldNotFrame v isOld), copied.contents v isOld]
    · obtain ⟨addr, _, same⟩ := newest v below isOld
      rw [addr, (settled frame nodup.1 frameNotNode).1, filled, same]
  · intro v below w alsoBelow
    by_cases isOld : v < n
    · rw [older v isOld]
      by_cases alsoOld : w < n
      · rw [older w alsoOld]
        exact copied.distinct v isOld w alsoOld
      · rw [(newest w alsoBelow alsoOld).1]
        intro isFrame
        exact absurd isFrame (oldNotFrame v isOld)
    · rw [(newest v below isOld).1]
      by_cases alsoOld : w < n
      · rw [older w alsoOld]
        intro isFrame
        exact absurd isFrame.symm (oldNotFrame w alsoOld)
      · intro _
        omega
  · intro v above
    rw [entries, if_neg (by omega)]
    exact copied.rest v (by omega)
  · have more := grows.spent
    rw [isRest, missing_congr root] at more
    omega

def userPages (sz : Nat) : Nat :=
  (sz + 4095) / 4096

omit layout in
theorem lt_userPages (v sz : Nat) : v < userPages sz ↔ v * PGSIZE < sz := by
  unfold userPages PGSIZE
  omega

/-- The loop of `copyuvm` copies all pages unless the free pages do not
suffice. -/
theorem copyuvmLoop_wp {fuel : Nat} {allowed : Panic → Prop}
    {post : Bool → Memory → Prop} (parent : Parent start pgdir sz)
    (below : sz < KERNBASE) (copied : Copied start pgdir d n memory)
    (progress : n ≤ userPages sz) (enough : userPages sz < fuel + n)
    (done : ∀ after, Copied start pgdir d (userPages sz) after → post true after)
    (failed : ∀ after, start.freelist.length < 1025 + userPages sz → post false after) :
    (copyuvmLoop pgdir sz d fuel (n * PGSIZE)).wp memory allowed post := by
  induction fuel generalizing memory n with
  | zero => omega
  | succ fuel ih =>
    have limit : userPages sz ≤ 2 ^ 19 := by
      unfold userPages
      unfold KERNBASE at below
      omega
    rw [copyuvmLoop]
    by_cases more : n * PGSIZE < sz
    · have isPage := (lt_userPages n sz).mpr more
      have present := (present_iff _).mp (parent.present n more)
      have page : n * PGSIZE / 4096 = n := Nat.mul_div_cancel n (by decide)
      have root := copied.kept pgdir (parent.nodes pgdir (.inl rfl))
      rw [if_pos more, wp_bind]
      refine walkpgdir_wp (by unfold PGSIZE; omega) ?_
      rw [page, tableOf_congr root]
      cases isTable : tableOf start.page pgdir (n / 1024) with
      | none =>
        rw [entry, isTable] at present
        cases present
      | some table =>
        have notFree := parent.nodes table (.inr ⟨_, isTable⟩)
        have isSource : (memory.page table).word (n % 1024) = entry start.page pgdir n := by
          rw [copied.kept table notFree, entry, isTable]
        rw [Option.map_some]
        rw [wp_bind, readWord, wp_read, isSource, if_neg (parent.present n more), wp_bind]
        refine kalloc_wp ?_ ?_
        · intro isEmpty
          have spent := copied.spent
          rw [isEmpty, length_nil] at spent
          exact failed memory (by omega)
        · intro frame rest free
          have isFree : frame ∈ memory.freelist := by simp [free]
          have small := copied.tree.small frame isFree
          obtain ⟨tree, same⟩ := copied.tree.fill free
            (memory.page (pteAddr (entry start.page pgdir n)))
          rw [wp_bind, memmove, wp_modify, wp_bind]
          refine mappages_wp tree (n := 0) (by decide) (by decide) (by omega) ?_
            (Nat.mod_lt _ (by decide)) ?_ ?_ ?_
          · unfold PGSIZE
            omega
          · intro w above alsoBelow
            have user : kernelEntry w = 0 := (kernelEntry_cases w).resolve_right (by omega)
            rw [entry_congr same, copied.rest w above, user]
          · intro after stores
            have target : frame * PGSIZE + 1 * PGSIZE ≤ 2 ^ 32 := by
              unfold PGSIZE
              omega
            have next := copied.next free present rfl (parent.pages n more) (stores.maps target)
            have step : (n * PGSIZE + PGSIZE) % 2 ^ 32 = (n + 1) * PGSIZE := by
              unfold PGSIZE
              omega
            rw [if_pos rfl, step]
            exact ih next (by omega) (by omega)
          · intro k after few stores isEmpty none
            have spent := copied.spent
            have more := stores.grows.spent
            have some : (missing after.page d).Nonempty := by
              refine ⟨(n + k) / 1024, ?_⟩
              simp only [missing, Finset.mem_filter, Finset.mem_range]
              exact ⟨by omega, none⟩
            have positive := Finset.card_pos.mpr some
            rw [missing_congr (same d (.inl rfl)), isEmpty, length_nil] at more
            change rest.length + _ = _ at more
            rw [free, length_cons] at spent
            exact failed after (by omega)
    · have isLast : n = userPages sz := by
        have := (lt_userPages n sz).not.mpr more
        omega
      rw [if_neg more]
      exact done memory (isLast ▸ copied)

/-- `copyuvm` returns a copy unless the free pages do not suffice. -/
theorem copyuvm_wp (parent : Parent start pgdir sz) (below : sz < KERNBASE) :
    (copyuvm pgdir sz).wp start (fun _ => start.freelist.length < 1025 + userPages sz)
      fun result after => match result with
        | none => start.freelist.length < 1025 + userPages sz
        | some d => Copied start pgdir d (userPages sz) after ∧
            ∃ middle, setupkvm start = .done (some d) middle ∧
              Setup d start middle := by
  have spec := @setupkvm_wp _ start (fun _ => False) (fun result after => match result with
      | none => start.freelist.length < 1025
      | some d => Setup d start after) parent.nodup parent.small
    (fun _ _ setup => setup) (fun _ short => short)
  obtain ⟨result, middle, isResult, facts⟩ := exists_done spec
  unfold copyuvm
  rw [wp_bind, wp_iff_of_done isResult]
  cases result with
  | none => exact Nat.lt_add_right _ facts
  | some d =>
    have limit : userPages sz ≤ 2 ^ 19 := by
      unfold userPages
      unfold KERNBASE at below
      omega
    have zero : (0 : Nat) = 0 * PGSIZE := by omega
    rw [wp_bind, zero]
    refine copyuvmLoop_wp parent below (Copied.ofSetup facts) (Nat.zero_le _) (by omega) ?_ ?_
    · intro after copied
      exact ⟨copied, middle, isResult, facts⟩
    · intro after short
      rw [if_neg (by decide), wp_bind]
      exact wp_of_forall (fun _ => short) fun _ _ => short

/-! ### Privacy -/

omit layout in
/-- A page that a process reaches is in an entry for the user. -/
theorem entry_of_translate {page : Nat → Page} {v frame : Nat} {write : Bool}
    (isPage : translate page d v write = some frame) :
    frame = pteAddr (entry page d v) ∧ entry page d v &&& PTE_U ≠ 0 := by
  unfold translate at isPage
  dsimp only at isPage
  split at isPage
  next allowed =>
    unfold allows at allowed
    simp only [Bool.and_eq_true, decide_eq_true_eq] at allowed
    rw [entry, tableOf, if_pos allowed.1.1.1]
    exact ⟨(Option.some.inj isPage).symm, allowed.2.1.2⟩
  next => cases isPage

theorem kernelEntry_not_user (v : Nat) : kernelEntry v &&& PTE_U = 0 := by
  rcases kernelEntry_cases v with isZero | ⟨_, frame, flags, small, isEntry⟩
  · rw [isZero, Nat.zero_and]
  · have even : (frame * PGSIZE + flags) / 4 % 2 = 0 := by
      unfold PGSIZE
      omega
    have clear : (frame * PGSIZE + flags).testBit 2 = false := by
      rw [Nat.testBit_eq_decide_div_mod_eq]
      simp [even]
    have bit := Nat.and_two_pow (frame * PGSIZE + flags) 2
    rw [clear] at bit
    rw [isEntry]
    exact bit

/-- The pages that the copy can reach are those that have been copied. -/
theorem Copied.userPage (copied : Copied start pgdir d n memory) {frame : Nat}
    (isPage : UserPage memory.page d frame) :
    frame ∈ start.freelist ∧ ¬ Node memory.page d frame := by
  obtain ⟨v, isPage⟩ := isPage
  obtain ⟨rfl, forUser⟩ := entry_of_translate isPage
  by_cases isCopied : v < n
  · obtain ⟨isFree, _, notNode⟩ := copied.fresh v isCopied
    exact ⟨isFree, notNode⟩
  · rw [copied.rest v (by omega)] at forUser
    exact absurd (kernelEntry_not_user v) forUser

def family (pgdir d : Nat) (child : Bool) : Nat :=
  if child then d else pgdir

/-- The parent and the child share no page that one of them can reach. -/
theorem Copied.apart (parent : Parent start pgdir sz)
    (copied : Copied start pgdir d n memory) (who : Bool) :
    Apart memory.page (family pgdir d who) (family pgdir d !who) := by
  have same : ∀ frame, Node start.page pgdir frame → memory.page frame = start.page frame :=
    fun frame isNode => copied.kept frame (parent.nodes frame isNode)
  have nodes := node_congr (same pgdir (.inl rfl))
  have pages := userPage_congr same
  cases who with
  | true =>
    change Apart memory.page d pgdir
    refine ⟨fun frame isPage => (copied.userPage isPage).2, ?_, ?_⟩
    · intro frame isPage isNode
      exact parent.nodes frame ((nodes frame).mp isNode) (copied.userPage isPage).1
    · intro frame isPage alsoPage
      exact (parent.users frame ((pages frame).mp alsoPage)).1 (copied.userPage isPage).1
  | false =>
    change Apart memory.page pgdir d
    refine ⟨?_, ?_, ?_⟩ <;> intro frame isPage <;>
      obtain ⟨notFree, notNode⟩ := parent.users frame ((pages frame).mp isPage)
    · exact fun isNode => notNode ((nodes frame).mp isNode)
    · exact fun isNode => notFree (copied.nodes frame isNode)
    · exact fun alsoPage => notFree (copied.userPage alsoPage).1

structure PrivateCopy (before : Memory) (pgdir sz d : Nat) (after : Memory) : Prop where
  /-- Every page below the size has the parent's flags and a page of its own,
  which was free and has the parent's contents. -/
  copies : ∀ v, v * PGSIZE < sz →
    pteFlags (entry after.page d v) = pteFlags (entry before.page pgdir v) ∧
    pteAddr (entry after.page d v) ∈ before.freelist ∧ after.page (pteAddr (entry after.page d v)) =
      before.page (pteAddr (entry before.page pgdir v))
  distinct : ∀ v w, v * PGSIZE < sz → w * PGSIZE < sz →
    pteAddr (entry after.page d v) = pteAddr (entry after.page d w) → v = w
  /-- The pages and the page tables are no longer free and not the parent's. -/
  unshared : ∀ frame, Node after.page d frame ∨
      (∃ v, v * PGSIZE < sz ∧ pteAddr (entry after.page d v) = frame) →
    frame ∈ before.freelist ∧ frame ∉ after.freelist ∧ ¬ Node after.page pgdir frame ∧
      ∀ v, v * PGSIZE < sz → pteAddr (entry after.page pgdir v) ≠ frame
  /-- All other entries are those that `setupkvm` has made. -/
  kernel : ∃ middle, setupkvm before = .done (some d) middle ∧
    ∀ v, sz ≤ v * PGSIZE → entry after.page d v = entry middle.page d v ∧
      entry after.page d v = kernelEntry v
  /-- The parent's tables, and every page that was not free, are unchanged. -/
  parent : ∀ v, entry after.page pgdir v = entry before.page pgdir v ∧
    ∀ write, translate after.page pgdir v write = translate before.page pgdir v write
  kept : ∀ frame, frame ∉ before.freelist → after.page frame = before.page frame
  /-- After any stores by both processes, each sees its own stores only. -/
  stores : ∀ (stores : List (Bool × Nat × UInt8)) (who : Bool) (va : Nat),
    userLoad (storeAll (family pgdir d) after.page stores) (family pgdir d who) va =
      userLoad (storeAll (family pgdir d) after.page
        (stores.filter fun store => store.1 = who)) (family pgdir d who) va

/-- `copyuvm` returns a private copy of an address space whose pages are
present, or fails for lack of pages. -/
theorem copyuvm_private (parent : Parent start pgdir sz) (below : sz < KERNBASE) :
    (∀ d after, copyuvm pgdir sz start = .done (some d) after →
      PrivateCopy start pgdir sz d after) ∧
    (1025 + userPages sz ≤ start.freelist.length →
      ∃ d after, copyuvm pgdir sz start = .done (some d) after) := by
  have spec := copyuvm_wp parent below
  refine ⟨?_, ?_⟩
  · intro d after isResult
    obtain ⟨copied, middle, isSetup, setup⟩ := wp_of_done spec isResult
    have same : ∀ frame, Node start.page pgdir frame → after.page frame = start.page frame :=
      fun frame isNode => copied.kept frame (parent.nodes frame isNode)
    have entries := entry_congr same
    have nodes := node_congr (same pgdir (.inl rfl))
    have isNew : ∀ frame, frame ∈ start.freelist → ¬ Node after.page pgdir frame ∧
        ∀ v, v * PGSIZE < sz → pteAddr (entry after.page pgdir v) ≠ frame := by
      intro frame isFree
      refine ⟨fun isNode => parent.nodes frame ((nodes frame).mp isNode)
        isFree, ?_⟩
      rintro v isPage rfl
      rw [entries] at isFree
      exact parent.pages v isPage isFree
    refine ⟨?_, ?_, ?_, ⟨middle, isSetup, ?_⟩, ?_, copied.kept, ?_⟩
    · intro v isPage
      have isCopied := (lt_userPages v sz).mpr isPage
      exact ⟨copied.flags v isCopied, (copied.fresh v isCopied).1, copied.contents v isCopied⟩
    · intro v w isPage alsoPage
      exact copied.distinct v ((lt_userPages v sz).mpr isPage) w ((lt_userPages w sz).mpr alsoPage)
    · rintro frame (isNode | ⟨v, isPage, rfl⟩)
      · have isFree := copied.nodes frame isNode
        exact ⟨isFree, copied.tree.fresh frame isNode, isNew frame isFree⟩
      · obtain ⟨isFree, notFree, _⟩ :=
          copied.fresh v ((lt_userPages v sz).mpr isPage)
        exact ⟨isFree, notFree, isNew _ isFree⟩
    · intro v isBeyond
      have beyond : userPages sz ≤ v := by
        have := (lt_userPages v sz).not.mpr (Nat.not_lt.mpr isBeyond)
        omega
      rw [copied.rest v beyond, setup.entries v]
      exact ⟨rfl, rfl⟩
    · exact fun v => ⟨entries v, translate_congr same v⟩
    · intro stores who va
      exact ((sameView_storeAll (copied.apart parent) who (fun _ _ => rfl) stores).userLoad va).symm
  · intro many
    cases result : copyuvm pgdir sz start with
    | stopped reason => exact absurd (wp_of_stopped spec result) (Nat.not_lt.mpr many)
    | done value after =>
      have facts := wp_of_done spec result
      cases value with
      | none => exact absurd facts (Nat.not_lt.mpr many)
      | some d => exact ⟨d, after, rfl⟩

end Copying

/-- A kernel whose data begin eight pages behind its text. -/
@[reducible]
def smallKernel : Layout where
  data := KERNLINK + 0x8000
  kend := KERNLINK + 0xF000
  data_aligned := by decide
  text_lt := by decide
  data_lt := by decide

/-- A process with two pages, the second of which it cannot write. -/
def twoPages : Memory where
  freelist := range' 1024 2048
  page := fun frame =>
    if frame = 1 then ByteBlock.setWord (fun _ => 0) 0 (2 * PGSIZE + 7)
    else if frame = 2 then (ByteBlock.setWord (fun _ => 0) 0
      (3 * PGSIZE + 7)).setWord 1 (4 * PGSIZE + 5)
    else fun _ => UInt8.ofNat frame

theorem tableOf_twoPages (i : Nat) :
    tableOf twoPages.page 1 i = if i = 0 then some 2 else none := by
  change (if ByteBlock.word (ByteBlock.setWord (fun _ => 0) 0
    (2 * PGSIZE + 7) : Page) i &&& PTE_P ≠ 0 then _ else _) = _
  by_cases isFirst : i = 0
  · rw [isFirst, ByteBlock.word_setWord_same _ (by decide) (by decide)]
    rfl
  · rw [ByteBlock.word_setWord_of_ne _ isFirst, ByteBlock.word_zero, if_neg isFirst]
    rfl

theorem entry_twoPages (v : Nat) : entry twoPages.page 1 v =
    if v = 0 then 3 * PGSIZE + 7 else if v = 1 then 4 * PGSIZE + 5 else 0 := by
  rw [entry, tableOf_twoPages]
  by_cases isFirst : v / 1024 = 0
  · rw [if_pos isFirst]
    change ByteBlock.word ((ByteBlock.setWord (fun _ => 0) 0
      (3 * PGSIZE + 7)).setWord 1 (4 * PGSIZE + 5) : Page) (v % 1024) = _
    have index : v % 1024 = v := by omega
    rw [index]
    by_cases isOne : v = 1
    · rw [isOne, ByteBlock.word_setWord_same _ (by decide) (by decide)]
      rfl
    · rw [ByteBlock.word_setWord_of_ne _ isOne]
      by_cases isZero : v = 0
      · rw [isZero, ByteBlock.word_setWord_same _ (by decide) (by decide)]
        rfl
      · rw [ByteBlock.word_setWord_of_ne _ isZero, ByteBlock.word_zero, if_neg isZero, if_neg isOne]
  · rw [if_neg isFirst, if_neg (by omega), if_neg (by omega)]

theorem parent_twoPages : Parent twoPages 1 5000 := by
  have isFree : ∀ frame, frame ∈ twoPages.freelist ↔ 1024 ≤ frame ∧ frame < 3072 :=
    fun frame => mem_range'_1
  have nodes : ∀ frame, Node twoPages.page 1 frame → frame = 1 ∨ frame = 2 := by
    rintro frame (rfl | ⟨i, isTable⟩)
    · exact .inl rfl
    · rw [tableOf_twoPages] at isTable
      split at isTable
      next => exact .inr (Option.some.inj isTable).symm
      next => cases isTable
  have pages : ∀ v, entry twoPages.page 1 v ≠ 0 → pteAddr (entry twoPages.page 1 v) = 3 ∨
        pteAddr (entry twoPages.page 1 v) = 4 := by
    intro v
    rw [entry_twoPages]
    split
    next => exact fun _ => .inl rfl
    next =>
      split
      next => exact fun _ => .inr rfl
      next => exact fun isZero => absurd rfl isZero
  have present : ∀ v, v * PGSIZE < 5000 → entry twoPages.page 1 v &&& PTE_P ≠ 0 := by
    intro v isPage
    have small : v = 0 ∨ v = 1 := by
      unfold PGSIZE at isPage
      omega
    rcases small with rfl | rfl <;> decide
  refine ⟨nodup_range', ?_, present, ?_, ?_, ?_⟩
  · intro frame free
    rw [isFree] at free
    omega
  · intro frame isNode
    rw [isFree]
    have := nodes frame isNode
    omega
  · intro v isPage
    have filled : entry twoPages.page 1 v ≠ 0 := by
      intro isZero
      exact present v isPage (by rw [isZero]; rfl)
    rw [isFree]
    have := pages v filled
    omega
  · rintro frame ⟨v, isPage⟩
    obtain ⟨rfl, forUser⟩ := entry_of_translate isPage
    have filled : entry twoPages.page 1 v ≠ 0 := by
      intro isZero
      exact forUser (by rw [isZero]; rfl)
    have isThreeOrFour := pages v filled
    rw [isFree]
    refine ⟨by omega, ?_⟩
    intro isNode
    have := nodes _ isNode
    omega

theorem copyuvm_private_twoPages :
    ∃ d after, @copyuvm smallKernel 1 5000 twoPages = .done (some d) after ∧
      @PrivateCopy smallKernel twoPages 1 5000 d after := by
  obtain ⟨isPrivate, succeeds⟩ := @copyuvm_private smallKernel _ _ _ parent_twoPages (by decide)
  obtain ⟨d, after, result⟩ := succeeds (by
    change _ ≤ (range' 1024 2048).length
    rw [length_range']
    decide)
  exact ⟨d, after, result, isPrivate d after result⟩

end Paging

end Xv6Kthreads
