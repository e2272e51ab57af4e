import Xv6Kthreads.BufferCache

/-!
# The calls of the log

The functions of `log.c` on `struct log`, one for each section under
`log.lock`.  The list `sectors` is the in-memory log header: its length is
`lh.n`, and its items are the used entries of `lh.sector`.
-/

namespace Xv6Kthreads

namespace LogCalls

open BufferCache

inductive Panic where
  | tooBigTransaction
  | logWriteOutsideTrans
  | logCommitting
  deriving DecidableEq, Repr

structure Log where
  start : Nat
  size : Nat
  outstanding : Nat
  committing : Bool
  sectors : List Nat
  deriving DecidableEq, Repr

namespace Log

/-- The log that `initlog` has set up for a disk of `size` sectors whose last
`nlog` ones are the log, once recovery has cleared it. -/
def initlog (size nlog : Nat) : Log where
  start := size - nlog
  size := nlog
  outstanding := 0
  committing := false
  sectors := []

variable (log : Log)

/-- One round of the loop in `begin_op`; `none` is a caller that sleeps. -/
def beginOp : Option Log :=
  if log.committing then none
  else if log.sectors.length + (log.outstanding + 1) * maxOpBlocks > logSize then
    none
  else some { log with outstanding := log.outstanding + 1 }

/-- The checks at the start of `log_write`, made without the lock. -/
def logWriteCheck : Option Panic :=
  if log.sectors.length ≥ logSize ∨ log.sectors.length + 1 ≥ log.size then
    some .tooBigTransaction
  else if log.outstanding < 1 then some .logWriteOutsideTrans
  else none

/-- The section of `log_write`; `none` is a write behind `lh.sector`. -/
def logWriteAppend (sector : Nat) : Option Log :=
  if sector ∈ log.sectors then some log
  else if log.sectors.length < logSize then
    some { log with sectors := log.sectors ++ [sector] }
  else none

/-- What the first section of `end_op` decides. -/
inductive EndOp where
  | panics (panic : Panic)
  | leaves (log : Log)
  | commits (log : Log)
  deriving DecidableEq, Repr

def endOp : EndOp :=
  let left := { log with outstanding := log.outstanding - 1 }
  if log.committing then .panics .logCommitting
  else if left.outstanding = 0 then .commits { left with committing := true }
  else .leaves left

def clear : Log :=
  { log with sectors := [] }

def committed : Log :=
  { log with committing := false }

theorem beginOp_eq_some_iff {log next : Log} : log.beginOp = some next ↔ log.committing = false ∧
      log.sectors.length + (log.outstanding + 1) * maxOpBlocks ≤ logSize ∧
      next = { log with outstanding := log.outstanding + 1 } := by
  unfold beginOp
  cases log.committing with
  | true => simp
  | false =>
    by_cases room : log.sectors.length + (log.outstanding + 1) * maxOpBlocks > logSize
    · simp [room]
    · simp [room, Nat.not_lt.mp room, eq_comm]

theorem endOp_of_not_committing {log : Log} (idle : log.committing = false) :
    log.outstanding - 1 = 0 ∧ log.endOp = .commits
          { log with outstanding := log.outstanding - 1, committing := true } ∨
      log.outstanding - 1 ≠ 0 ∧ log.endOp = .leaves
          { log with outstanding := log.outstanding - 1 } := by
  unfold endOp
  by_cases last : log.outstanding - 1 = 0
  · left
    refine ⟨last, ?_⟩
    simp [idle, last]
  · right
    refine ⟨last, ?_⟩
    simp [idle, last]

/-- A logged sector is in the header, whether it was there or not. -/
theorem mem_logWriteAppend {log next : Log} {sector other : Nat}
    (appended : log.logWriteAppend sector = some next) :
    other ∈ next.sectors ↔ other ∈ log.sectors ∨ other = sector := by
  unfold logWriteAppend at appended
  split at appended
  next member =>
    cases appended
    constructor
    · exact Or.inl
    · rintro (inside | rfl)
      · exact inside
      · exact member
  next =>
    split at appended <;> cases appended
    simp

/-- Only the header changes, and only by a sector that was not in it. -/
theorem logWriteAppend_eq {log next : Log} {sector : Nat}
    (appended : log.logWriteAppend sector = some next) :
    next = log ∧ sector ∈ log.sectors ∨
      next = { log with sectors := log.sectors ++ [sector] } ∧
        sector ∉ log.sectors ∧ log.sectors.length < logSize := by
  unfold logWriteAppend at appended
  split at appended
  next member =>
    simp only [Option.some.injEq] at appended
    exact Or.inl ⟨appended.symm, member⟩
  next fresh =>
    split at appended
    next room =>
      simp only [Option.some.injEq] at appended
      exact Or.inr ⟨appended.symm, fresh, room⟩
    next => simp at appended

end Log

end LogCalls

end Xv6Kthreads
