import Mathlib.Data.List.Basic

/-!
# The abstract first-come first-served lock

A lock with direct hand-over is an owner and a list of waiters.  A request for
a held lock joins the waiters; a release passes the ownership to the oldest
waiter.  Nobody waits for a lock without an owner.
-/

namespace Xv6Kthreads

structure FifoLock (Thread : Type*) where
  owner : Option Thread
  waiters : List Thread
  waiters_eq_nil : owner = none → waiters = []

namespace FifoLock

variable {Thread : Type*}

def free : FifoLock Thread where
  owner := none
  waiters := []
  waiters_eq_nil _ := rfl

variable (thread : Thread) (waiters : List Thread)

def ownedBy : FifoLock Thread where
  owner := some thread
  waiters := waiters
  waiters_eq_nil absent := by simp at absent

@[simp]
theorem free_owner : (free : FifoLock Thread).owner = none :=
  rfl

@[simp]
theorem free_waiters : (free : FifoLock Thread).waiters = [] :=
  rfl

@[simp]
theorem ownedBy_owner : (ownedBy thread waiters).owner = some thread :=
  rfl

@[simp]
theorem ownedBy_waiters : (ownedBy thread waiters).waiters = waiters :=
  rfl

variable (lock : FifoLock Thread)

def request : FifoLock Thread :=
  match lock.owner with
  | none => ownedBy thread []
  | some owner => ownedBy owner (lock.waiters ++ [thread])

/-- A thread behaves as the owner of a lock that has been passed to it; the
lock of nobody becomes its own. -/
def claim : FifoLock Thread :=
  match lock.owner with
  | none => ownedBy thread []
  | some _ => lock

/-- A release: pass the lock to the oldest waiter, if there is one. -/
def release : FifoLock Thread :=
  match lock.waiters with
  | [] => free
  | next :: waiters => ownedBy next waiters

/-- Give the lock to the oldest waiter and wait for it again; without a waiter
the lock stays where it is. -/
def yieldTo : FifoLock Thread :=
  match lock.waiters with
  | [] => lock
  | next :: waiters => ownedBy next (waiters ++ [thread])

variable {lock : FifoLock Thread}

theorem request_of_owner_none (unowned : lock.owner = none) (thread : Thread) :
    lock.request thread = ownedBy thread [] := by
  simp [request, unowned]

theorem request_of_owner_some {owner : Thread} (owned : lock.owner = some owner) (thread : Thread) :
    lock.request thread = ownedBy owner (lock.waiters ++ [thread]) := by
  simp [request, owned]

theorem claim_of_owner_none (unowned : lock.owner = none) (thread : Thread) :
    lock.claim thread = ownedBy thread [] := by
  simp [claim, unowned]

theorem claim_of_owner_some {owner : Thread} (owned : lock.owner = some owner) (thread : Thread) :
    lock.claim thread = lock := by
  simp [claim, owned]

theorem release_of_waiters_nil (alone : lock.waiters = []) : lock.release = free := by
  simp [release, alone]

theorem release_of_waiters_cons {next : Thread}
    {waiters : List Thread} (waiting : lock.waiters = next :: waiters) :
    lock.release = ownedBy next waiters := by
  simp [release, waiting]

theorem yieldTo_of_waiters_cons {next : Thread} {waiters : List Thread}
    (waiting : lock.waiters = next :: waiters) (thread : Thread) :
    lock.yieldTo thread = ownedBy next (waiters ++ [thread]) := by
  simp [yieldTo, waiting]

end FifoLock

end Xv6Kthreads
