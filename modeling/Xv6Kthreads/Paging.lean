import Xv6Kthreads.ByteBlock
import Xv6Kthreads.MemoryLayout
import Xv6Kthreads.Sections

/-!
# Page directories in memory

This file embeds `kalloc.c` and the functions of `vm.c` that copy an address
space, at the level of the words in the directory and in the page tables.
Physical memory is divided into pages, which are numbered; the kernel reaches
page `frame` at `p2v(frame * PGSIZE)`.  Virtual addresses and sizes are natural
numbers, and sums are reduced modulo `2 ^ 32` where they are formed.
-/

namespace Xv6Kthreads

namespace Paging

open Sections

def PTE_P : Nat := 1

def PTE_W : Nat := 2

def PTE_U : Nat := 4

def pdx (va : Nat) : Nat :=
  va / 2 ^ 22 % NPDENTRIES

def ptx (va : Nat) : Nat :=
  va / 2 ^ 12 % NPTENTRIES

def pgrounddown (a : Nat) : Nat :=
  a / PGSIZE * PGSIZE

def pteAddr (pte : Nat) : Nat :=
  pte / PGSIZE

def pteFlags (pte : Nat) : Nat :=
  pte % PGSIZE

/-- The addresses that the linker chooses: `data` begins a page behind the
kernel's text, and `kend` is the end of the kernel. -/
class Layout where
  data : Nat
  kend : Nat
  data_aligned : data % PGSIZE = 0
  text_lt : KERNLINK < data
  data_lt : data < KERNBASE + PHYSTOP

abbrev Page := ByteBlock 4096

structure Memory where
  freelist : List Nat
  page : Nat → Page

inductive Panic where
  | kfree
  | remap
  | phystopTooHigh
  | copyuvmExist
  | copyuvmPresent
  deriving DecidableEq, Repr

abbrev Vm (α : Type) := Act Memory Panic α

namespace Memory

variable (memory : Memory)

def setPage (frame : Nat) (contents : Page) : Memory :=
  { memory with page := Function.update memory.page frame contents }

def setWord (frame index value : Nat) : Memory :=
  memory.setPage frame ((memory.page frame).setWord index value)

end Memory

/-! ## The page allocator -/

def kalloc : Vm (Option Nat) := fun memory =>
  match memory.freelist with
  | [] => .done none memory
  | frame :: rest => .done (some frame) { memory with freelist := rest }

def memset (frame : Nat) (value : UInt8) : Vm Unit :=
  Act.modify fun memory => memory.setPage frame fun _ => value

def memmove (dst src : Nat) : Vm Unit :=
  Act.modify fun memory => memory.setPage dst (memory.page src)

section Kernel

variable [layout : Layout]

def kfree (frame : Nat) : Vm Unit :=
  if KERNBASE + frame * PGSIZE < layout.kend ∨ PHYSTOP ≤ frame * PGSIZE then
    Act.stop .kfree
  else do
    memset frame 1
    Act.modify fun memory =>
      { memory with freelist := frame :: memory.freelist }

/-! ## Directories and page tables -/

def readWord (frame index : Nat) : Vm Nat :=
  Act.read fun memory => (memory.page frame).word index

def writeWord (frame index value : Nat) : Vm Unit :=
  Act.modify fun memory => memory.setWord frame index value

/-- `walkpgdir`: the page and the index of the entry. -/
def walkpgdir (pgdir va : Nat) (alloc : Bool) : Vm (Option (Nat × Nat)) := do
  let pde ← readWord pgdir (pdx va)
  if pde &&& PTE_P ≠ 0 then
    pure (some (pteAddr pde, ptx va))
  else if alloc = false then
    pure none
  else do
    let page ← kalloc
    match page with
    | none => pure none
    | some pgtab => do
      memset pgtab 0
      writeWord pgdir (pdx va) (pgtab * PGSIZE ||| PTE_P ||| PTE_W ||| PTE_U)
      pure (some (pgtab, ptx va))

/-- The loop of `mappages`.  It reaches `last` within `2 ^ 20` iterations or
meets the first page again. -/
def mappagesLoop (pgdir last perm : Nat) : (fuel a pa : Nat) → Vm Bool
  | 0, _, _ => Act.stop .remap
  | fuel + 1, a, pa => do
    let pte ← walkpgdir pgdir a true
    match pte with
    | none => pure false
    | some (pgtab, index) => do
      let old ← readWord pgtab index
      if old &&& PTE_P ≠ 0 then
        Act.stop .remap
      else do
        writeWord pgtab index (pa ||| perm ||| PTE_P)
        if a = last then
          pure true
        else
          mappagesLoop pgdir last perm fuel ((a + PGSIZE) % 2 ^ 32) ((pa + PGSIZE) % 2 ^ 32)

def mappages (pgdir va size pa perm : Nat) : Vm Bool :=
  mappagesLoop pgdir (pgrounddown ((va + size + (2 ^ 32 - 1)) % 2 ^ 32)) perm
    (2 ^ 20) (pgrounddown va) pa

structure Kmap where
  virt : Nat
  physStart : Nat
  physEnd : Nat
  perm : Nat

def kmap : List Kmap :=
  [⟨KERNBASE, 0, EXTMEM, PTE_W⟩, ⟨KERNLINK, EXTMEM, layout.data - KERNBASE, 0⟩,
   ⟨layout.data, layout.data - KERNBASE, PHYSTOP, PTE_W⟩,
   ⟨DEVSPACE, DEVSPACE, 0, PTE_W⟩]

def Kmap.size (k : Kmap) : Nat :=
  (k.physEnd + (2 ^ 32 - k.physStart)) % 2 ^ 32

def setupkvmLoop (pgdir : Nat) : List Kmap → Vm Bool
  | [] => pure true
  | k :: rest => do
    let mapped ← mappages pgdir k.virt k.size k.physStart k.perm
    if mapped then
      setupkvmLoop pgdir rest
    else
      pure false

def setupkvm : Vm (Option Nat) := do
  let page ← kalloc
  match page with
  | none => pure none
  | some pgdir => do
    memset pgdir 0
    if DEVSPACE < PHYSTOP + KERNBASE then
      Act.stop .phystopTooHigh
    else do
      let mapped ← setupkvmLoop pgdir kmap
      pure (if mapped then some pgdir else none)

/-- The loop of `deallocuvm`, which is called with sizes up to `KERNBASE`. -/
def deallocuvmLoop (pgdir oldsz : Nat) : (fuel a : Nat) → Vm Unit
  | 0, _ => pure ()
  | fuel + 1, a =>
    if a < oldsz then do
      let pte ← walkpgdir pgdir a false
      match pte with
      | none => deallocuvmLoop pgdir oldsz fuel (a + NPTENTRIES * PGSIZE)
      | some (pgtab, index) => do
        let entry ← readWord pgtab index
        if entry &&& PTE_P ≠ 0 then
          if pteAddr entry = 0 then
            Act.stop .kfree
          else do
            kfree (pteAddr entry)
            writeWord pgtab index 0
            deallocuvmLoop pgdir oldsz fuel (a + PGSIZE)
        else
          deallocuvmLoop pgdir oldsz fuel (a + PGSIZE)
    else
      pure ()

def deallocuvm (pgdir oldsz newsz : Nat) : Vm Nat :=
  if oldsz ≤ newsz then
    pure oldsz
  else do
    deallocuvmLoop pgdir oldsz (2 ^ 20) (pgroundup newsz)
    pure newsz

def freevm (pgdir : Nat) : Vm Unit := do
  let _ ← deallocuvm pgdir KERNBASE 0
  Act.forEach (List.range NPDENTRIES) fun i => do
    let pde ← readWord pgdir i
    if pde &&& PTE_P ≠ 0 then
      kfree (pteAddr pde)
    else
      pure ()
  kfree pgdir

/-- The loop of `copyuvm`: whether it copies all pages.  There are `2 ^ 20`
pages, after which the first one would be mapped again. -/
def copyuvmLoop (pgdir sz d : Nat) : (fuel i : Nat) → Vm Bool
  | 0, _ => Act.stop .remap
  | fuel + 1, i =>
    if i < sz then do
      let pte ← walkpgdir pgdir i false
      match pte with
      | none => Act.stop .copyuvmExist
      | some (pgtab, index) => do
        let entry ← readWord pgtab index
        if entry &&& PTE_P = 0 then
          Act.stop .copyuvmPresent
        else do
          let page ← kalloc
          match page with
          | none => pure false
          | some mem => do
            memmove mem (pteAddr entry)
            let mapped ← mappages d i PGSIZE (mem * PGSIZE) (pteFlags entry)
            if mapped then
              copyuvmLoop pgdir sz d fuel ((i + PGSIZE) % 2 ^ 32)
            else
              pure false
    else
      pure true

def copyuvm (pgdir sz : Nat) : Vm (Option Nat) := do
  let page ← setupkvm
  match page with
  | none => pure none
  | some d => do
    let copied ← copyuvmLoop pgdir sz d (2 ^ 20) 0
    if copied then
      pure (some d)
    else do
      freevm d
      pure none

end Kernel

end Paging

end Xv6Kthreads
