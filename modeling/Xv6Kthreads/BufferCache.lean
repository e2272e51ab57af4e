import Mathlib.Algebra.GroupWithZero.Nat
import Mathlib.Data.List.FinRange
import Mathlib.Data.Fintype.Basic
import Xv6Kthreads.CircularList

/-!
# The buffer cache

The functions of `bio.c` on the list of buffers, with the transfer of one
sector by `iderw`.  Each section under `bcache.lock` is one function; a caller
that has to sleep in `bget` scans the list again when it gets the lock back.
-/

namespace Xv6Kthreads

namespace BufferCache

open CircularList Function List

def maxOpBlocks : Nat := 10

def logSize : Nat := maxOpBlocks * 3

def nbuf : Nat := maxOpBlocks * 3

/-- An index into `bcache.buf`. -/
abbrev BufSlot := Fin nbuf

instance : NeZero nbuf :=
  ⟨by decide⟩

/-- A node of the list: `none` is `bcache.head`. -/
abbrev Node := Option BufSlot

/-- The device number -1 that `binit` gives to unused buffers. -/
def noDev : UInt32 := -1

structure Buf (Block : Type*) where
  busy : Bool
  valid : Bool
  dirty : Bool
  dev : UInt32
  sector : Nat
  data : Block

abbrev Disk (Block : Type*) := UInt32 → Nat → Block

variable {Block : Type*} {sector : Nat} {dev : UInt32}

namespace Disk

variable (disk : Disk Block)

def write (dev : UInt32) (sector : Nat) (data : Block) : Disk Block :=
  fun otherDev otherSector =>
    if otherDev = dev ∧ otherSector = sector then data
    else disk otherDev otherSector

@[simp] theorem write_same (dev : UInt32) (sector : Nat)
    (data : Block) : disk.write dev sector data dev sector = data := by
  simp [write]

theorem write_of_ne {otherDev : UInt32} {otherSector : Nat} (data : Block)
    (other : ¬ (otherDev = dev ∧ otherSector = sector)) :
    disk.write dev sector data otherDev otherSector = disk otherDev otherSector := by
  rw [write, if_neg other]

theorem write_eq_update (dev : UInt32) (sector : Nat) (data : Block) :
    disk.write dev sector data dev = update (disk dev) sector data := by
  funext other
  rcases eq_or_ne other sector with rfl | same
  · rw [write_same, update_self]
  · rw [write_of_ne _ _ fun both => same both.2, update_of_ne same]

end Disk

namespace Buf

variable (buf : Buf Block)

def Holds (dev : UInt32) (sector : Nat) : Prop :=
  buf.dev = dev ∧ buf.sector = sector

instance (buf : Buf Block) (dev : UInt32) (sector : Nat) : Decidable (buf.Holds dev sector) :=
  inferInstanceAs (Decidable (_ ∧ _))

/-- `iderw`: a dirty buffer is written, another one is read; `none` is a
panic. -/
def iderw (disk : Disk Block) : Option (Buf Block × Disk Block) :=
  if !buf.busy then none
  else if buf.valid && !buf.dirty then none
  else if buf.dirty then
    some ({ buf with valid := true, dirty := false },
      disk.write buf.dev buf.sector buf.data)
  else
    some ({ buf with valid := true, data := disk buf.dev buf.sector }, disk)

def breadFill (disk : Disk Block) : Option (Buf Block × Disk Block) :=
  if !buf.valid then buf.iderw disk else some (buf, disk)

def bwrite (disk : Disk Block) : Option (Buf Block × Disk Block) :=
  if !buf.busy then none
  else ({ buf with dirty := true } : Buf Block).iderw disk

def pin : Buf Block :=
  { buf with dirty := true }

variable {buf : Buf Block}

theorem breadFill_of_valid (valid : buf.valid = true) (disk : Disk Block) :
    buf.breadFill disk = some (buf, disk) := by
  simp [breadFill, valid]

theorem breadFill_of_invalid (busy : buf.busy = true) (invalid : buf.valid = false)
    (clean : buf.dirty = false) (disk : Disk Block) :
    buf.breadFill disk = some
      ({ buf with valid := true, data := disk buf.dev buf.sector }, disk) := by
  simp [breadFill, iderw, busy, invalid, clean]

theorem bwrite_of_busy (busy : buf.busy = true) (disk : Disk Block) : buf.bwrite disk = some
      ({ buf with valid := true, dirty := false }, disk.write buf.dev buf.sector buf.data) := by
  simp [bwrite, iderw, busy]

end Buf

structure Bcache (Block : Type*) where
  links : Links Node
  buf : BufSlot → Buf Block

/-- How a scan of `bget` ends. -/
inductive BgetResult (Block : Type*) where
  | returned (slot : BufSlot) (cache : Bcache Block)
  | sleeps (slot : BufSlot)
  | panics

namespace Bcache

def binit (zeroed : Block) : Bcache Block where
  links := (finRange nbuf).foldl (fun links slot => links.pushFront none (some slot))
    ⟨fun _ => none, fun _ => none⟩
  buf := fun _ =>
    { busy := false
      valid := false
      dirty := false
      dev := noDev
      sector := 0
      data := zeroed }

variable (cache : Bcache Block)

def setBuf (slot : BufSlot) (buf : Buf Block) : Bcache Block :=
  { cache with buf := update cache.buf slot buf }

/-- A test on buffers as a test on nodes; the scans never apply it to the
head. -/
def onBuf (test : Buf Block → Bool) : Node → Bool
  | none => false
  | some slot => test (cache.buf slot)

def scanCached (dev : UInt32) (sector : Nat) : Option Node :=
  walk cache.links.next none (cache.onBuf fun buf => decide (buf.Holds dev sector)) nbuf
    (cache.links.next none)

/-- The scan for a buffer to recycle, from `head.prev`. -/
def scanRecycled : Option Node :=
  walk cache.links.prev none (cache.onBuf fun buf => !buf.busy && !buf.dirty) nbuf
    (cache.links.prev none)

/-- `bget`, from taking `bcache.lock` to releasing it or sleeping. -/
def bget (dev : UInt32) (sector : Nat) : BgetResult Block :=
  match cache.scanCached dev sector with
  | some (some slot) =>
    if !(cache.buf slot).busy then
      .returned slot (cache.setBuf slot { cache.buf slot with busy := true })
    else .sleeps slot
  | _ =>
    match cache.scanRecycled with
    | some (some slot) =>
      .returned slot (cache.setBuf slot
          { cache.buf slot with
            dev := dev
            sector := sector
            busy := true
            valid := false
            dirty := false })
    | _ => .panics

/-- `brelse`; `none` is a panic. -/
def brelse (slot : BufSlot) : Option (Bcache Block) :=
  if !(cache.buf slot).busy then none
  else
    some
      { links := cache.links.moveToFront none (some slot)
        buf := update cache.buf slot { cache.buf slot with busy := false } }

@[simp] theorem setBuf_buf_same (slot : BufSlot)
    (buf : Buf Block) : (cache.setBuf slot buf).buf slot = buf :=
  update_self ..

variable {slot : BufSlot}

theorem setBuf_buf_of_ne {other : BufSlot} (buf : Buf Block) (otherNe : other ≠ slot) :
    (cache.setBuf slot buf).buf other = cache.buf other :=
  update_of_ne otherNe ..

/-- The list is a circular doubly linked permutation of the head and all
buffers. -/
def Ordered (links : Links Node) (order : List BufSlot) : Prop :=
  Ring links none (order.map some) ∧ order.Perm (finRange nbuf)

namespace Ordered

variable {links : Links Node} {order : List BufSlot}

theorem mem (ordered : Ordered links order) (slot : BufSlot) : slot ∈ order :=
  ordered.2.mem_iff.mpr (mem_finRange slot)

theorem length (ordered : Ordered links order) : order.length = nbuf := by
  rw [ordered.2.length_eq, length_finRange]

theorem moveToFront {front back : List BufSlot} (ordered : Ordered links (front ++ slot :: back)) :
    Ordered (links.moveToFront none (some slot)) (slot :: (front ++ back)) := by
  refine ⟨?_, perm_middle.symm.trans ordered.2⟩
  have ring := ordered.1
  rw [map_append, map_cons] at ring
  rw [map_cons, map_append]
  exact ring.moveToFront

end Ordered

theorem ring_pushFronts {links : Links Node} {order : List BufSlot}
    (ring : Ring links none (order.map some)) (slots : List BufSlot)
    (distinct : (slots ++ order).Nodup) :
    Ring (slots.foldl (fun links slot => links.pushFront none (some slot)) links) none
      ((slots.reverse ++ order).map some) := by
  induction slots generalizing links order with
  | nil => exact ring
  | cons slot slots ih =>
    have fresh := nodup_cons.mp (cons_append ▸ distinct)
    have pushed : Ring (links.pushFront none (some slot)) none ((slot :: order).map some) := by
      refine ring.pushFront (by simp) ?_
      intro member
      obtain ⟨other, inside, equal⟩ := mem_map.mp member
      rw [Option.some.inj equal] at inside
      exact fresh.1 (mem_append_right _ inside)
    have result := ih pushed (perm_middle.nodup_iff.mpr (by simpa using distinct))
    simpa using result

theorem ordered_binit (zeroed : Block) : Ordered (binit zeroed).links (finRange nbuf).reverse := by
  refine ⟨?_, reverse_perm _⟩
  have empty : Ring (⟨fun _ => none, fun _ => none⟩ : Links Node) none
      (([] : List BufSlot).map some) :=
    Ring.of_self ⟨rfl, rfl⟩
  have ring := ring_pushFronts empty (finRange nbuf) (by simpa using nodup_finRange nbuf)
  exact ring

section Scans

variable {cache : Bcache Block} {order : List BufSlot}

theorem find_map (nodes : List BufSlot) (test : Buf Block → Bool) :
    (nodes.map some).find? (cache.onBuf test) =
      (nodes.find? fun slot => test (cache.buf slot)).map some := by
  induction nodes with
  | nil => rfl
  | cons slot slots ih =>
    rw [map_cons, find?_cons, find?_cons, ih]
    cases passes : test (cache.buf slot) <;> simp [onBuf, passes]

theorem scanCached_eq (ordered : Ordered cache.links order) (dev : UInt32) (sector : Nat) :
    cache.scanCached dev sector = (order.find? fun slot =>
        decide ((cache.buf slot).Holds dev sector)).map some := by
  rw [scanCached, ordered.1.walk_next _ _ (by simp [ordered.length])]
  exact find_map ..

theorem scanRecycled_eq (ordered : Ordered cache.links order) : cache.scanRecycled =
      (order.reverse.find? fun slot =>
        !(cache.buf slot).busy && !(cache.buf slot).dirty).map some := by
  rw [scanRecycled, ordered.1.walk_prev _ _ (by simp [ordered.length]), ← map_reverse]
  exact find_map ..

end Scans

/-- What `bget` returns: the unused buffer that holds the sector, or, when no
buffer holds it, a recycled one that was neither busy nor dirty. -/
inductive Bgets (cache : Bcache Block) (dev : UInt32) (sector : Nat)
    (slot : BufSlot) : Bcache Block → Prop
  | cached (holds : (cache.buf slot).Holds dev sector) (idle : (cache.buf slot).busy = false) :
      Bgets cache dev sector slot (cache.setBuf slot { cache.buf slot with busy := true })
  | recycled (absent : ∀ other, ¬ (cache.buf other).Holds dev sector)
      (idle : (cache.buf slot).busy = false)
      (clean : (cache.buf slot).dirty = false) :
      Bgets cache dev sector slot (cache.setBuf slot
          { cache.buf slot with
            dev := dev
            sector := sector
            busy := true
            valid := false
            dirty := false })

variable {cache next : Bcache Block}

theorem bgets_of_bget {order : List BufSlot} (ordered : Ordered cache.links order)
    (returned : cache.bget dev sector = .returned slot next) :
    Bgets cache dev sector slot next := by
  rw [bget, scanCached_eq ordered, scanRecycled_eq ordered] at returned
  cases cached : order.find? fun slot =>
      decide ((cache.buf slot).Holds dev sector) with
  | some found =>
    have holds := find?_some cached
    simp only [cached, Option.map_some] at returned
    split at returned
    next idle =>
      injection returned with same next
      subst same
      subst next
      exact .cached (by simpa using holds) (by simpa using idle)
    next => cases returned
  | none =>
    have absent : ∀ other, ¬ (cache.buf other).Holds dev sector := by
      intro other
      simpa using find?_eq_none.mp cached other (ordered.mem other)
    simp only [cached, Option.map_none] at returned
    cases free : order.reverse.find? fun slot =>
        !(cache.buf slot).busy && !(cache.buf slot).dirty with
    | some found =>
      have unused := find?_some free
      simp only [Bool.and_eq_true, Bool.not_eq_true'] at unused
      simp only [free, Option.map_some] at returned
      injection returned with same next
      subst same
      subst next
      exact .recycled absent unused.1 unused.2
    | none =>
      simp only [free, Option.map_none] at returned
      cases returned

section

variable (gets : Bgets cache dev sector slot next)
include gets

theorem Bgets.links :
    next.links = cache.links := by
  cases gets <;> rfl

theorem Bgets.others {other : BufSlot} (otherNe : other ≠ slot) :
    next.buf other = cache.buf other := by
  cases gets with
  | cached | recycled => exact setBuf_buf_of_ne cache _ otherNe

theorem Bgets.idle : (cache.buf slot).busy = false := by
  cases gets with
  | cached _ idle | recycled _ idle => exact idle

theorem Bgets.result : (next.buf slot).Holds dev sector ∧ (next.buf slot).busy = true := by
  cases gets with
  | cached holds => simpa [Buf.Holds] using holds
  | recycled => simp [Buf.Holds]

end

def Unique (cache : Bcache Block) : Prop :=
  ∀ slot other, (cache.buf slot).dev ≠ noDev →
    (cache.buf other).Holds (cache.buf slot).dev (cache.buf slot).sector → other = slot

theorem Unique.congr (unique : cache.Unique)
    (same : ∀ slot, (next.buf slot).Holds (cache.buf slot).dev
      (cache.buf slot).sector) : next.Unique := by
  intro first second used holds
  obtain ⟨firstDev, firstSector⟩ := same first
  obtain ⟨secondDev, secondSector⟩ := same second
  apply unique first second
  · rwa [← firstDev]
  · rw [Buf.Holds, firstDev, firstSector, secondDev, secondSector] at holds
    exact holds

section

variable (gets : Bgets cache dev sector slot next)
include gets

/-- A sector is given to a recycled buffer only when no buffer holds it. -/
theorem Bgets.unique (unique : cache.Unique) : next.Unique := by
  cases gets with
  | cached holds idle =>
    apply unique.congr
    intro other
    rcases eq_or_ne other slot with rfl | same
    · simp [Buf.Holds]
    · rw [setBuf_buf_of_ne _ _ same]
      exact ⟨rfl, rfl⟩
  | recycled absent idle clean =>
    intro first second used holds
    rcases eq_or_ne first slot with rfl | firstSame
    · by_contra secondNe
      rw [setBuf_buf_same, setBuf_buf_of_ne _ _ secondNe] at holds
      exact absent second holds
    · rw [setBuf_buf_of_ne _ _ firstSame] at used holds
      rcases eq_or_ne second slot with rfl | secondSame
      · rw [setBuf_buf_same] at holds
        obtain ⟨devSame, sectorSame⟩ := holds
        exact absurd ⟨devSame.symm, sectorSame.symm⟩ (absent first)
      · rw [setBuf_buf_of_ne _ _ secondSame] at holds
        exact unique first second used holds

theorem Bgets.dirty_valid (dirtyValid : ∀ other, (cache.buf other).dirty = true →
      (cache.buf other).valid = true) (other : BufSlot) (dirty : (next.buf other).dirty = true) :
    (next.buf other).valid = true := by
  rcases eq_or_ne other slot with rfl | same
  · cases gets with
    | cached =>
      rw [setBuf_buf_same] at dirty ⊢
      exact dirtyValid other dirty
    | recycled =>
      rw [setBuf_buf_same] at dirty
      exact Bool.noConfusion dirty
  · rw [gets.others same] at dirty ⊢
    exact dirtyValid other dirty

theorem Bgets.dirty_kept (other : BufSlot) (dirty : (cache.buf other).dirty = true) :
    (next.buf other).Holds (cache.buf other).dev (cache.buf other).sector := by
  rcases eq_or_ne other slot with rfl | same
  · cases gets with
    | cached => simp [Buf.Holds]
    | recycled _ _ clean =>
      rw [clean] at dirty
      exact Bool.noConfusion dirty
  · rw [gets.others same]
    exact ⟨rfl, rfl⟩

end

end Bcache

end BufferCache

end Xv6Kthreads
