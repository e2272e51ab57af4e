import Mathlib.Logic.Function.Basic
import Xv6Kthreads.FsFormat
import Xv6Kthreads.MemoryLayout
import Xv6Kthreads.Sections

/-!
# Page tables and physical pages

This file embeds `kalloc.c` and the part of `vm.c` that builds and destroys
address spaces.  Physical pages and virtual pages are numbered; an address
space has a page for its directory, a page for each page table, and an entry
for each virtual page.  The page numbers of a directory entry and of its page
table together are the virtual page number.

Addresses and sizes are natural numbers, and sums that can wrap around `2 ^ 32`
are reduced where they are formed.
-/

namespace Xv6Kthreads

namespace PageTables

open Sections Function

def vpn (va : Nat) : Nat :=
  va / PGSIZE

def pdx (page : Nat) : Nat :=
  page / NPTENTRIES

def kernelPage : Nat := KERNBASE / PGSIZE

/-- A present entry, with the bits `PTE_W` and `PTE_U`. -/
structure Pte where
  frame : Nat
  writable : Bool
  user : Bool

structure Space where
  /-- The page of the directory. -/
  directory : Nat
  /-- The page of each page table. -/
  table : Nat → Option Nat
  /-- The entries of all page tables. -/
  entry : Nat → Option Pte

/-- Physical memory.  `data` is the first page of the kernel's data and `kend`
the first page after the kernel.  `stored` lists, for the statements, the virtual
and the physical page of every copy from a program file. -/
structure Memory where
  free : List Nat
  byte : Nat → Nat → UInt8
  data : Nat
  kend : Nat
  stored : List (Nat × Nat)

inductive Panic where
  | kfree
  | remap
  | loaduvmAlign
  | loaduvmExist
  | clearpteu
  | nullPte
  deriving DecidableEq, Repr

abbrev Vm (α : Type) := Act Memory Panic α

/-! ## The page allocator -/

def kalloc : Vm (Option Nat) := fun memory =>
  match memory.free with
  | [] => .done none memory
  | frame :: rest => .done (some frame) { memory with free := rest }

def memset (frame : Nat) (value : UInt8) : Vm Unit :=
  Act.modify fun memory =>
    { memory with byte := update memory.byte frame fun _ => value }

def kfree (frame : Nat) : Vm Unit := do
  let kend ← Act.read Memory.kend
  if frame < kend ∨ PHYSTOP / PGSIZE ≤ frame then
    Act.stop .kfree
  else
    memset frame 1
    Act.modify fun memory => { memory with free := frame :: memory.free }

def memmove (frame start : Nat) (bytes : List UInt8) : Vm Unit :=
  Act.modify fun memory =>
    { memory with
      byte := update memory.byte frame fun index =>
        if start ≤ index then
          (bytes[index - start]?).getD (memory.byte frame index)
        else
          memory.byte frame index }

/-! ## Address spaces -/

variable (space : Space)

/-- `walkpgdir` without allocation: the entry, if its page table exists. -/
def walkpgdir (page : Nat) : Option (Option Pte) :=
  match space.table (pdx page) with
  | some _ => some (space.entry page)
  | none => none

/-- `walkpgdir` with allocation: the address space with the page table. -/
def walkpgdirAlloc (page : Nat) : Vm (Option Space) :=
  match space.table (pdx page) with
  | some _ => pure (some space)
  | none => do
    let frame ← kalloc
    match frame with
    | none => pure none
    | some pgtab => do
      memset pgtab 0
      pure (some { space with
        table := update space.table (pdx page) (some pgtab)
        entry := fun other =>
          if pdx other = pdx page then none else space.entry other })

/-- `mappages` of one page; the flag says whether it succeeds. -/
def mappages (page : Nat) (pte : Pte) : Vm (Space × Bool) := do
  let walked ← walkpgdirAlloc space page
  match walked with
  | none => pure (space, false)
  | some space =>
    match space.entry page with
    | some _ => Act.stop .remap
    | none =>
      pure ({ space with
        entry := update space.entry page (some pte) }, true)

/-- The entries that `kmap` describes: all of physical memory from `KERNBASE`
on, writable but for the kernel's text, and the devices. -/
def kernelEntry (data page : Nat) : Option Pte :=
  if kernelPage ≤ page ∧ page < kernelPage + PHYSTOP / PGSIZE then
    let frame := page - kernelPage
    some ⟨frame, decide (frame < EXTMEM / PGSIZE ∨ data ≤ frame), false⟩
  else if DEVSPACE / PGSIZE ≤ page ∧ page < NPDENTRIES * NPTENTRIES then
    some ⟨page, true, false⟩
  else
    none

/-- The page tables of the kernel's entries, in the order of `kmap`. -/
def kernelTables : List Nat :=
  (List.range 56).map (pdx kernelPage + ·) ++
    (List.range 8).map (pdx (DEVSPACE / PGSIZE) + ·)

/-- The page tables that the calls of `mappages` in `setupkvm` allocate. -/
def allocTables (space : Space) : List Nat → Vm (Option Space)
  | [] => pure (some space)
  | directoryIndex :: rest => do
    let frame ← kalloc
    match frame with
    | none => pure none
    | some pgtab => do
      memset pgtab 0
      allocTables
        { space with
          table := update space.table directoryIndex (some pgtab) }
        rest

def setupkvm : Vm (Option Space) := do
  let frame ← kalloc
  match frame with
  | none => pure none
  | some pgdir => do
    memset pgdir 0
    let data ← Act.read Memory.data
    allocTables ⟨pgdir, fun _ => none, kernelEntry data⟩ kernelTables

/-- The loop of `deallocuvm` from `page` up to `limit`.  Where a page table is
missing it goes on `NPTENTRIES` pages later. -/
def deallocLoop (limit : Nat) : (fuel : Nat) → Nat → Space → Vm Space
  | 0, _, space => pure space
  | fuel + 1, page, space =>
    if page < limit then
      match space.table (pdx page) with
      | none => deallocLoop limit fuel (page + NPTENTRIES) space
      | some _ =>
        match space.entry page with
        | none => deallocLoop limit fuel (page + 1) space
        | some pte =>
          if pte.frame = 0 then
            Act.stop .kfree
          else do
            kfree pte.frame
            deallocLoop limit fuel (page + 1)
              { space with
                entry := update space.entry page none }
    else
      pure space

def deallocuvm (oldsz newsz : Nat) : Vm Space :=
  if newsz ≥ oldsz then
    pure space
  else
    deallocLoop (vpn (pgroundup oldsz)) (vpn (pgroundup oldsz) - vpn (pgroundup newsz))
      (vpn (pgroundup newsz)) space

/-- The loop of `allocuvm` over `count` pages from `page` on.  The result of
`mappages` is not checked. -/
def allocLoop (oldsz newsz : Nat) : (count : Nat) → Nat → Space → Vm (Space × Nat)
  | 0, _, space => pure (space, newsz)
  | count + 1, page, space => do
    let frame ← kalloc
    match frame with
    | none => do
      let space ← deallocuvm space newsz oldsz
      pure (space, 0)
    | some mem => do
      memset mem 0
      let mapped ← mappages space page ⟨mem, true, true⟩
      allocLoop oldsz newsz count (page + 1) mapped.1

def allocuvm (oldsz newsz : Nat) : Vm (Space × Nat) :=
  if newsz ≥ KERNBASE then
    pure (space, 0)
  else if newsz < oldsz then
    pure (space, oldsz)
  else
    allocLoop oldsz newsz (vpn (pgroundup newsz) - vpn (pgroundup oldsz))
      (vpn (pgroundup oldsz)) space

/-- The body of the loop of `freevm` over the directory. -/
def freeTable (directoryIndex : Nat) : Vm Unit :=
  match space.table directoryIndex with
  | some pgtab => kfree pgtab
  | none => pure ()

def freevm : Vm Unit := do
  let space ← deallocuvm space KERNBASE 0
  Act.forEach (List.range NPDENTRIES) (freeTable space)
  kfree space.directory

def clearpteu (page : Nat) : Vm Space :=
  match walkpgdir space page with
  | none => Act.stop .clearpteu
  | some none => pure space
  | some (some pte) =>
    pure { space with
      entry := update space.entry page (some { pte with user := false }) }

/-- The address at which the kernel sees a physical page; `uva2ka` returns it,
and `copyout` takes zero for its failure. -/
def p2v (frame : Nat) : Nat :=
  (frame * PGSIZE + KERNBASE) % 2 ^ 32

/-- The loop of `copyout`; each iteration copies at least one byte. -/
def copyoutLoop (space : Space) : (fuel : Nat) → (va : Nat) → List UInt8 → Vm Bool
  | _, _, [] => pure true
  | 0, _, _ :: _ => pure true
  | fuel + 1, va, byte :: bytes =>
    match walkpgdir space (vpn va) with
    | none => Act.stop .nullPte
    | some none => pure false
    | some (some pte) =>
      if pte.user ∧ p2v pte.frame ≠ 0 then do
        let n := PGSIZE - va % PGSIZE
        memmove pte.frame (va % PGSIZE) ((byte :: bytes).take n)
        copyoutLoop space fuel ((va - va % PGSIZE + PGSIZE) % 2 ^ 32) ((byte :: bytes).drop n)
      else
        pure false

def copyout (va : Nat) (bytes : List UInt8) : Vm Bool :=
  copyoutLoop space bytes.length va bytes

structure ProgramFile where
  size : Nat
  byte : Nat → UInt8

/-- The number of bytes that `readi` copies from offset `off`, or -1. -/
def readi (file : ProgramFile) (off n : Nat) : Int :=
  match FileSystem.readCount file.size off n with
  | none => -1
  | some count => count

def ProgramFile.bytes (file : ProgramFile) (off count : Nat) : List UInt8 :=
  (List.range count).map fun index => file.byte (off + index)

/-- The loop of `loaduvm` over `left` pages; `i` bytes are loaded.  An entry
that is not present leads to physical page 0. -/
def loadLoop (space : Space) (addr : Nat) (file : ProgramFile)
    (offset sz : Nat) : (left : Nat) → (i : Nat) → Vm Bool
  | 0, _ => pure true
  | left + 1, i =>
    match walkpgdir space (vpn ((addr + i) % 2 ^ 32)) with
    | none => Act.stop .loaduvmExist
    | some entry => do
      let frame := match entry with
        | some pte => pte.frame
        | none => 0
      let n := min (sz - i) PGSIZE
      let count := readi file ((offset + i) % 2 ^ 32) n
      memmove frame 0 (file.bytes ((offset + i) % 2 ^ 32) count.toNat)
      Act.modify fun memory =>
        { memory with
          stored := if count > 0 then (vpn ((addr + i) % 2 ^ 32), frame) :: memory.stored
            else memory.stored }
      if count ≠ n then
        pure false
      else
        loadLoop space addr file offset sz left (i + PGSIZE)

def loaduvm (addr : Nat) (file : ProgramFile) (offset sz : Nat) : Vm Bool :=
  if addr % PGSIZE ≠ 0 then
    Act.stop .loaduvmAlign
  else
    loadLoop space addr file offset sz (vpn (pgroundup sz)) 0

/-! ## Specifications of the allocator -/

/-- The number of pages of a user part of `sz` bytes. -/
def pageCount (sz : Nat) : Nat :=
  vpn (pgroundup sz)

theorem pageCount_eq (sz : Nat) : pageCount sz = (sz + 4095) / 4096 := by
  simp only [pageCount, vpn, pgroundup, PGSIZE]
  omega

def Space.clear (page : Nat) : Space :=
  { space with entry := update space.entry page none }

/-- The pages that `kfree` takes and that an entry does not confuse with none. -/
def Valid (kend frame : Nat) : Prop :=
  kend ≤ frame ∧ frame < PHYSTOP / PGSIZE ∧ frame ≠ 0

section Specifications

variable {memory : Memory} {frame : Nat} {allowed : Panic → Prop}

theorem wp_kalloc {rest : List Nat} {post : Option Nat → Memory → Prop}
    (isFree : memory.free = frame :: rest) :
    kalloc.wp memory allowed post ↔ post (some frame) { memory with free := rest } := by
  simp only [Act.wp, kalloc, isFree]

theorem wp_memset {value : UInt8} {post : Unit → Memory → Prop} :
    (memset frame value).wp memory allowed post ↔ post () { memory with
        byte := update memory.byte frame fun _ => value } :=
  Iff.rfl

theorem wp_kfree {post : Unit → Memory → Prop} (valid : Valid memory.kend frame)
    (holds : post () { memory with
      free := frame :: memory.free
      byte := update memory.byte frame fun _ => 1 }) :
    (kfree frame).wp memory allowed post := by
  simp only [kfree, Act.wp_bind, Act.wp_read]
  rw [if_neg (by obtain ⟨above, below, -⟩ := valid; omega)]
  exact holds

end Specifications

end PageTables

end Xv6Kthreads
