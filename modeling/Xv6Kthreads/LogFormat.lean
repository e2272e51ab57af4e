import Xv6Kthreads.ByteBlock
import Xv6Kthreads.LogCalls

/-!
# The on-disk format of the log

The superblock says where the log is, and the header block at its start says
which sectors the blocks behind it belong to.  Writing a header overwrites the
count and the used entries only; the entries behind them keep what an earlier
header has left there.
-/

namespace Xv6Kthreads

namespace LogFormat

open BufferCache

/-- A sector of `BSIZE` bytes. -/
abbrev Block := ByteBlock 512

/-- The fields of `struct superblock` that `initlog` reads: `size` and
`nlog`. -/
structure Layout where
  size : Nat
  nlog : Nat
  deriving DecidableEq, Repr

variable (block : Block)

def readsb : Layout where
  size := block.word 0
  nlog := block.word 3

def Layout.logStart (layout : Layout) : Nat :=
  layout.size - layout.nlog

/-- The loop of `read_head`: `count` entries from index `first` on. -/
def headEntries (first count : Nat) : List Nat :=
  (List.range count).map fun offset => block.word (first + offset + 1)

/-- `read_head`.  A negative count leaves no entry; `none` is a count for which
the loop runs behind `lh.sector`. -/
def readHead : Option (List Nat) :=
  if block.word 0 ≥ 2147483648 then some []
  else if block.word 0 ≤ logSize then
    some (headEntries block 0 (block.word 0))
  else none

def putEntries (block : Block) (index : Nat) : List Nat → Block
  | [] => block
  | sector :: sectors => putEntries (block.setWord (index + 1) sector) (index + 1) sectors

def putHead (sectors : List Nat) : Block :=
  putEntries (block.setWord 0 sectors.length) 0 sectors

theorem word_putEntries_of_le (block : Block) (index : Nat)
    (sectors : List Nat) {other : Nat} (below : other ≤ index) :
    (putEntries block index sectors).word other = block.word other := by
  induction sectors generalizing block index with
  | nil => rfl
  | cons sector sectors ih =>
    rw [putEntries, ih _ _ (by omega)]
    exact block.word_setWord_of_ne (by omega) sector

theorem headEntries_succ (first count : Nat) : headEntries block first (count + 1) =
      block.word (first + 1) :: headEntries block (first + 1) count := by
  unfold headEntries
  rw [List.range_succ_eq_map, List.map_cons, List.map_map]
  simp only [List.cons.injEq, Nat.add_zero, true_and]
  apply List.map_congr_left
  intro offset _
  simp only [Function.comp_apply]
  congr 1
  omega

theorem headEntries_putEntries (block : Block) (index : Nat) (sectors : List Nat)
    (small : ∀ sector ∈ sectors, sector < 4294967296) (fits : index + sectors.length < 128) :
    headEntries (putEntries block index sectors) index sectors.length =
      sectors := by
  induction sectors generalizing block index with
  | nil => rfl
  | cons sector sectors ih =>
    rw [List.length_cons] at fits ⊢
    rw [headEntries_succ, putEntries, word_putEntries_of_le _ _ _ (Nat.le_refl _),
      block.word_setWord_same (by omega) (small sector (List.mem_cons_self ..)),
      ih _ _ (fun other member => small other (List.mem_cons_of_mem _ member)) (by omega)]

theorem readHead_putHead {sectors : List Nat} (small : ∀ sector ∈ sectors, sector < 4294967296)
    (fits : sectors.length ≤ logSize) : readHead (putHead block sectors) = some sectors := by
  have limit : logSize = 30 := rfl
  have count : (putHead block sectors).word 0 = sectors.length := by
    rw [putHead, word_putEntries_of_le _ _ _ (Nat.le_refl _)]
    exact block.word_setWord_same (by omega) (by omega)
  unfold readHead
  rw [count, if_neg (by omega), if_pos fits, putHead, headEntries_putEntries _ _ _ small (by omega)]

theorem readHead_length {block : Block} {sectors : List Nat}
    (read : readHead block = some sectors) : sectors.length ≤ logSize := by
  unfold readHead at read
  split at read
  next =>
    cases read
    simp
  next =>
    split at read <;> cases read
    next fits => simpa [headEntries] using fits

end LogFormat

end Xv6Kthreads
