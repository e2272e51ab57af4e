import Mathlib.Logic.Function.Basic

/-!
# Who holds which lock

A table that records the holder of every lock is exact when it agrees with the
code positions of the agents: an agent is recorded as the holder of a lock
exactly when it stands at a position inside that lock.  This file shows how
acquiring, releasing and moving keep a table exact.
-/

namespace Xv6Kthreads

open Function

namespace LockTable

variable {Lock Agent : Type*}

/-- The recorded holders are exactly the agents that stand inside a lock. -/
def Exact (holder : Lock → Option Agent) (inside : Agent → Lock → Prop) : Prop :=
  ∀ lock agent, holder lock = some agent ↔ inside agent lock

variable {holder : Lock → Option Agent} {inside moved : Agent → Lock → Prop}

theorem Exact.unique (exact : Exact holder inside) {lock : Lock} {first second : Agent}
    (firstInside : inside first lock) (secondInside : inside second lock) : first = second := by
  rw [← exact lock first] at firstInside
  rw [← exact lock second, firstInside] at secondInside
  exact Option.some.inj secondInside

theorem Exact.keep (exact : Exact holder inside)
    (same : ∀ agent lock, moved agent lock ↔ inside agent lock) :
    Exact holder moved := by
  intro lock agent
  rw [exact lock agent, same]

variable [DecidableEq Lock] {agent : Agent} {lock : Lock}

theorem Exact.acquire (exact : Exact holder inside) (free : holder lock = none)
    (own : ∀ other, moved agent other ↔ other = lock ∨ inside agent other)
    (others : ∀ other, other ≠ agent → ∀ lock, moved other lock ↔ inside other lock) :
    Exact (update holder lock (some agent)) moved := by
  intro which other
  rcases eq_or_ne other agent with rfl | sameAgent
  · rw [own]
    rcases eq_or_ne which lock with rfl | sameLock
    · simp
    · rw [update_of_ne sameLock, exact which other]
      simp [sameLock]
  · rw [others other sameAgent]
    rcases eq_or_ne which lock with rfl | sameLock
    · rw [update_self, ← exact which other, free]
      simp [Ne.symm sameAgent]
    · rw [update_of_ne sameLock, exact which other]

theorem Exact.release (exact : Exact holder inside) (holds : inside agent lock)
    (own : ∀ other, moved agent other ↔ other ≠ lock ∧ inside agent other)
    (others : ∀ other, other ≠ agent → ∀ lock, moved other lock ↔ inside other lock) :
    Exact (update holder lock none) moved := by
  intro which other
  rcases eq_or_ne which lock with rfl | sameLock
  · rw [update_self]
    rcases eq_or_ne other agent with rfl | sameAgent
    · simp [own]
    · rw [others other sameAgent]
      simp only [reduceCtorEq, false_iff]
      exact fun otherInside => sameAgent (exact.unique otherInside holds)
  · rw [update_of_ne sameLock, exact which other]
    rcases eq_or_ne other agent with rfl | sameAgent
    · simp [own, sameLock]
    · rw [others other sameAgent]

end LockTable

end Xv6Kthreads
