/-!
# Constants of the memory layout

The constants of `memlayout.h`, `mmu.h` and `param.h` that several files of the
kernel use.
-/

namespace Xv6Kthreads

def PGSIZE : Nat := 4096

def NPDENTRIES : Nat := 1024

def NPTENTRIES : Nat := 1024

def EXTMEM : Nat := 0x100000

def PHYSTOP : Nat := 0xE000000

def DEVSPACE : Nat := 0xFE000000

def KERNBASE : Nat := 0x80000000

def KERNLINK : Nat := KERNBASE + EXTMEM

/-- The largest number of arguments of `exec`. -/
def MAXARG : Nat := 32

/-- `PGROUNDUP`. -/
def pgroundup (sz : Nat) : Nat :=
  (sz + PGSIZE - 1) / PGSIZE * PGSIZE

end Xv6Kthreads
