import Xv6Kthreads.MonitorRule

/-!
# Mesa condition variables

`mesa_cond_wait` counts itself, unlocks the monitor's mutex and locks it again.
Because its two calls are joined by `&&`, it locks the mutex of the condition
variable only when the unlock has failed, so it never blocks there.  This file
holds the code of the condition variables and what can be said about the mutexes
that it names.
-/

namespace Xv6Kthreads

structure MesaCond where
  mutexCV : MutexId
  waitinCount : Int
  deriving DecidableEq

namespace MesaCond

open MutexCalls

/-- The accesses of `mesa_cond_wait` and `mesa_cond_signal` to the condition
variable, and their mutex calls. -/
inductive Point where
  | waitLoad
  | waitStore (count : Int)
  | waitUnlock
  | waitLockCV
  | waitUndoLoad
  | waitUndoStore (count : Int)
  | waitLock
  | signalTest
  | signalLoad
  | signalStore (count : Int)
  | signalUnlockWaiter
  | signalUndoLoad
  | signalUndoStore (count : Int)
  | signalUnlock
  deriving DecidableEq, Repr

/-- One access; `none` stands for a mutex call. -/
def access (cond : MesaCond) : Point → Option (MesaCond × Follow Point)
  | .waitLoad => some (cond, .goTo (.waitStore cond.waitinCount))
  | .waitStore count => some ({ cond with waitinCount := count + 1 }, .goTo .waitUnlock)
  | .waitUnlock => none
  | .waitLockCV => none
  | .waitUndoLoad => some (cond, .goTo (.waitUndoStore cond.waitinCount))
  | .waitUndoStore count => some ({ cond with waitinCount := count - 1 }, .returned (-1))
  | .waitLock => none
  | .signalTest =>
    if 0 < cond.waitinCount then some (cond, .goTo .signalLoad)
    else some (cond, .goTo .signalUnlock)
  | .signalLoad => some (cond, .goTo (.signalStore cond.waitinCount))
  | .signalStore count => some ({ cond with waitinCount := count - 1 }, .goTo .signalUnlockWaiter)
  | .signalUnlockWaiter => none
  | .signalUndoLoad => some (cond, .goTo (.signalUndoStore cond.waitinCount))
  | .signalUndoStore count => some ({ cond with waitinCount := count + 1 }, .returned (-1))
  | .signalUnlock => none

def call (mutex : MutexId) (cond : MesaCond) : Point → Call
  | .waitUnlock => sysKthreadMutexUnlock mutex
  | .waitLockCV => sysKthreadMutexLock cond.mutexCV
  | .waitLock => sysKthreadMutexLock mutex
  | _ => sysKthreadMutexUnlock cond.mutexCV

/-- What follows the call at a point: the second half of the condition of
`mesa_cond_wait` is reached only when the unlock has failed. -/
def afterCall : Point → Int → Follow Point
  | .waitUnlock, value => if value < 0 then .goTo .waitLockCV else .goTo .waitLock
  | .waitLockCV, value => if value < 0 then .goTo .waitUndoLoad else .goTo .waitLock
  | .waitLock, _ => .returned 0
  | .signalUnlockWaiter, value => if 0 ≤ value then .goTo .signalUndoLoad else .goTo .signalUnlock
  | .signalUnlock, value => if value < 0 then .returned (-1) else .returned 0
  | point, _ => .goTo point

def code : CondCode MesaCond Point where
  access := access
  call := call
  afterCall := afterCall
  wait := .waitLoad
  signal := .signalTest

/-- No access changes which mutex belongs to the condition variable. -/
theorem access_mutexCV {cond changed : MesaCond} {point : Point} {following : Follow Point}
    (accessed : cond.access point = some (changed, following)) :
    changed.mutexCV = cond.mutexCV := by
  cases point <;> simp only [access, Option.some.injEq, Prod.mk.injEq, reduceCtorEq] at accessed
  case signalTest =>
    split at accessed <;> simp only [Option.some.injEq, Prod.mk.injEq]
      at accessed <;> rw [← accessed.1]
  all_goals rw [← accessed.1]

/-- The mutexes of a monitor with Mesa condition variables: its own, and one
for each condition variable. -/
structure Mutexes (Cond : Type*) where
  monitor : MutexId
  cv : Cond → MutexId
  cv_ne : ∀ cond, cv cond ≠ monitor

def Mutexes.Allocated {Cond : Type*} (mutexes : Mutexes Cond) (index : MutexId) : Prop :=
  index = mutexes.monitor ∨ ∃ cond, index = mutexes.cv cond

/-- The sections of calls that lock the monitor's mutex or unlock one of the
mutexes. -/
theorem allocated_of_lock_or_unlock {Cond : Type*} {mutexes : Mutexes Cond} {progress : Progress}
    (sections : Locks mutexes.monitor progress ∨
      ∃ index, mutexes.Allocated index ∧ progress = .unlock index) :
    ∀ index ∈ progress.mutexes, mutexes.Allocated index := by
  rcases sections with locks | ⟨unlocked, allocated, rfl⟩
  · have isMonitor : ∀ index ∈ progress.mutexes, index = mutexes.monitor := by
      rcases locks with rfl | rfl | rfl <;> simp [Progress.mutexes]
    exact fun index named => Or.inl (isMonitor index named)
  · simpa [Progress.mutexes] using allocated

/-- A thread that such a call has put into a queue waits for the monitor's
mutex. -/
theorem queue_of_lock_or_unlock {Cond : Type*} {mutexes : Mutexes Cond}
    {progress : Progress} {index : MutexId}
    (sections : Locks mutexes.monitor progress ∨
      ∃ index, mutexes.Allocated index ∧ progress = .unlock index)
    (waits : progress.queue = some index) :
    index = mutexes.monitor ∧ Locks mutexes.monitor progress ∧
      Locks mutexes.monitor progress.wake := by
  rcases sections with (rfl | rfl | rfl) | ⟨unlocked, -, rfl⟩
  · simp [Progress.queue] at waits
  · exact ⟨(Option.some.inj waits).symm, Or.inr (Or.inl rfl), Or.inr (Or.inr rfl)⟩
  · simp [Progress.queue] at waits
  · simp [Progress.queue] at waits

end MesaCond

end Xv6Kthreads
