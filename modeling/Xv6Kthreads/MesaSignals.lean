import Mathlib.Data.Fintype.Basic
import Xv6Kthreads.MesaCondition
import Xv6Kthreads.WaitHistory

/-!
# Waits and signals on Mesa condition variables

`mesa_cond_wait` never blocks on the mutex of its condition variable, so it can
return without a signal, and then the count of waiting threads is too high.  This
file shows that a wait returns only after a signal of its own, and that the count
is exact, in the runs in which the threads keep the order that this mutex would
have enforced: a waiting thread gets the monitor's mutex back only after as many
signals as there were waits when its own began.  The history of waits and signals
exists for the statements only; the points at which the code undoes its counting
are not reached.
-/

namespace Xv6Kthreads

namespace MesaSignals

open MutexCalls LabelledRun MesaCond List

variable {Thread Cond : Type*}

structure Memory (Thread Cond : Type*) where
  conds : Cond → MesaCond
  history : WaitHistory Thread Cond

/-- Where a thread that uses a monitor's mutex and its condition variables
stands.  A signal carries the time of its call. -/
inductive Point (Cond : Type*) where
  | outside
  | inside
  | waiting (cond : Cond) (point : MesaCond.Point)
  | signalling (cond : Cond) (called : Nat) (point : MesaCond.Point)
  | returned (value : Int)
  deriving DecidableEq

/-- What a thread decides to do next; a condition variable can be null. -/
inductive Choice (Cond : Type*) where
  | lock
  | unlock
  | wait (cond : Option Cond)
  | signal (cond : Option Cond)
  | proceed

variable (cond : Cond)

def followWait : Follow MesaCond.Point → Point Cond
  | .goTo point => .waiting cond point
  | .returned value => .returned value

def followSignal (called : Nat) : Follow MesaCond.Point → Point Cond
  | .goTo point => .signalling cond called point
  | .returned value => .returned value

def noteWait [DecidableEq Cond] (thread : Thread) (cond : Cond) :
    MesaCond.Point → WaitHistory Thread Cond → WaitHistory Thread Cond
  | .waitStore _, history => history.enter thread cond
  | _, history => history

/-- A signal serves the oldest wait when it takes it off the count, or it has
found nobody to serve. -/
def noteSignal [DecidableEq Cond] (cond : Cond) (called : Nat) :
    MesaCond.Point → Follow MesaCond.Point → WaitHistory Thread Cond → WaitHistory Thread Cond
  | .signalStore _, _, history => (history.hear cond).serve cond called
  | .signalTest, .goTo .signalUnlock, history => history.hear cond
  | _, _, history => history

/-- A wait releases the monitor when the unlock succeeds, and it returns with
the lock. -/
def noteCall [DecidableEq Thread] (thread : Thread) :
    MesaCond.Point → Int → WaitHistory Thread Cond → WaitHistory Thread Cond
  | .waitUnlock, value, history => if value < 0 then history else history.release thread
  | .waitLock, _, history => history.finish thread
  | _, _, history => history

/-- Threads that lock the mutex, call `mesa_cond_wait` and `mesa_cond_signal`
any number of times, and unlock it. -/
def program [DecidableEq Thread] [DecidableEq Cond] (mutex : MutexId) :
    Program Thread (Memory Thread Cond) (Point Cond) (Choice Cond) where
  access thread memory point choice :=
    match point, choice with
    | .outside, .lock => some (memory, .call (sysKthreadMutexLock mutex))
    | .inside, .unlock => some (memory, .call (sysKthreadMutexUnlock mutex))
    | .inside, .wait none => some (memory, .goTo (.returned (-1)))
    | .inside, .wait (some cond) => some (memory, .goTo (.waiting cond code.wait))
    | .inside, .signal none => some (memory, .goTo (.returned (-1)))
    | .inside, .signal (some cond) =>
      some ({ memory with history := memory.history.call cond },
        .goTo (.signalling cond memory.history.clock code.signal))
    | .waiting cond point, .proceed =>
      match code.access (memory.conds cond) point with
      | none => some (memory, .call (code.call mutex (memory.conds cond) point))
      | some (changed, following) =>
        some ({ conds := Function.update memory.conds cond changed
                history := noteWait thread cond point memory.history },
          .goTo (followWait cond following))
    | .signalling cond called point, .proceed =>
      match code.access (memory.conds cond) point with
      | none => some (memory, .call (code.call mutex (memory.conds cond) point))
      | some (changed, following) =>
        some ({ conds := Function.update memory.conds cond changed
                history := noteSignal cond called point following memory.history },
          .goTo (followSignal cond called following))
    | .returned _, .proceed => some (memory, .goTo .inside)
    | _, _ => none
  returns thread memory point value :=
    match point with
    | .outside => (memory, if value = 0 then .inside else .outside)
    | .inside => (memory, .outside)
    | .waiting cond point =>
      ({ memory with
          history := noteCall thread point value memory.history },
        followWait cond (code.afterCall point value))
    | .signalling cond called point =>
      (memory, followSignal cond called (code.afterCall point value))
    | .returned value => (memory, .returned value)

def Owns : Activity (Point Cond) → Prop
  | .user .outside => False
  | .user (.waiting _ .waitLock) => False
  | .user _ => True
  | .calling _ progress => progress.holding = true

/-- The sections that a thread can be in after the call it made at a point. -/
def Calls (mutexes : Mutexes Cond) : Point Cond → Progress → Prop
  | .outside, progress => Locks mutexes.monitor progress
  | .inside, progress => progress = .unlock mutexes.monitor
  | .waiting _ .waitUnlock, progress => progress = .unlock mutexes.monitor
  | .waiting _ .waitLock, progress => Locks mutexes.monitor progress
  | .signalling cond _ .signalUnlockWaiter, progress => progress = .unlock (mutexes.cv cond)
  | .signalling cond _ .signalUnlock, progress => progress = .unlock (mutexes.cv cond)
  | _, _ => False

variable {progress : Progress} {mutexes : Mutexes Cond} {point : Point Cond}

/-- A call made without the mutex locks it, or a call unlocks one of the
mutexes. -/
theorem Calls.lock_or_unlock (calls : Calls mutexes point progress) :
    (Locks mutexes.monitor progress ∧ (∀ following, Locks mutexes.monitor following →
      Calls mutexes point following) ∧ ¬ Owns (.user point)) ∨
      ∃ index, mutexes.Allocated index ∧ progress = .unlock index := by
  cases point with
  | outside => exact Or.inl ⟨calls, fun _ => id, id⟩
  | inside => exact Or.inr ⟨_, Or.inl rfl, calls⟩
  | waiting cond inner =>
    cases inner with
    | waitUnlock => exact Or.inr ⟨_, Or.inl rfl, calls⟩
    | waitLock => exact Or.inl ⟨calls, fun _ => id, id⟩
    | _ => exact calls.elim
  | signalling cond called inner =>
    cases inner with
    | signalUnlockWaiter | signalUnlock => exact Or.inr ⟨_, Or.inr ⟨_, rfl⟩, calls⟩
    | _ => exact calls.elim
  | returned value => exact calls.elim

/-- A call made without the mutex was made at a point without it. -/
theorem Calls.not_owns (calls : Calls mutexes point progress)
    (outside : ¬ Owns (.calling point progress)) : ¬ Owns (.user point) := by
  rcases calls.lock_or_unlock with ⟨-, -, notOwns⟩ | ⟨index, -, rfl⟩
  · exact notOwns
  · exact absurd rfl outside

/-- What a thread knows about the counts and about its own wait or signal. -/
def Knows [DecidableEq Thread] (thread : Thread) (memory : Memory Thread Cond) : Point Cond → Prop
  | .outside => memory.history.current thread = []
  | .inside => memory.history.current thread = []
  | .returned _ => memory.history.current thread = []
  | .waiting _ .waitLoad => memory.history.current thread = []
  | .waiting cond (.waitStore count) =>
    memory.history.current thread = [] ∧ count = (memory.conds cond).waitinCount
  | .waiting cond .waitUnlock => memory.history.current thread = [(cond, none)]
  | .waiting cond .waitLock => ∃ time, memory.history.current thread = [(cond, some time)]
  | .waiting _ _ => False
  | .signalling cond called .signalTest =>
    memory.history.current thread = [] ∧ memory.history.Ready cond called
  | .signalling cond called .signalLoad =>
    memory.history.current thread = [] ∧ memory.history.Ready cond called ∧
      0 < (memory.conds cond).waitinCount
  | .signalling cond called (.signalStore count) =>
    memory.history.current thread = [] ∧ memory.history.Ready cond called ∧
      0 < (memory.conds cond).waitinCount ∧
      count = (memory.conds cond).waitinCount
  | .signalling _ _ .signalUnlockWaiter => memory.history.current thread = []
  | .signalling _ _ .signalUnlock => memory.history.current thread = []
  | .signalling _ _ _ => False

/-- The counts are those of the pending waits, and only the owner of the mutex
can be in a wait that has not released it. -/
structure Invariant [DecidableEq Thread] [DecidableEq Cond]
    (mutexes : Mutexes Cond) (locks : MutexId → FifoLock Thread)
    (memory : Memory Thread Cond) : Prop where
  counted : ∀ cond, (memory.conds cond).waitinCount = memory.history.pending cond
  orderly : memory.history.Orderly
  ahead : ∀ cond, WaitHistory.Ahead cond 0 memory.history.waits
  unreleased : ∀ thread, ∀ entry ∈ memory.history.current thread,
    entry.2 = none → (locks mutexes.monitor).owner = some thread
  cv_eq : ∀ cond, (memory.conds cond).mutexCV = mutexes.cv cond
  cv_free : ∀ cond, (locks (mutexes.cv cond)).owner = none

def assertions [DecidableEq Thread] [DecidableEq Cond] (mutexes : Mutexes Cond) :
    Assertions Thread (Memory Thread Cond) (Point Cond) where
  critical := Owns
  invariant := Invariant mutexes
  holds thread memory activity :=
    match activity with
    | .user point => Knows thread memory point
    | .calling point progress => Knows thread memory point ∧ Calls mutexes point progress

variable {memory : Memory Thread Cond} {cond : Cond}

section Rules

variable [DecidableEq Thread] [DecidableEq Cond] {mutexes : Mutexes Cond}
variable {thread : Thread} {choice : Choice Cond} {point : Point Cond}
variable {model : Model Thread (Memory Thread Cond) (Point Cond)}
variable {before after : Memory Thread Cond} {other : Thread}

omit [DecidableEq Cond] in
/-- A thread that does not hold the mutex knows only about its own wait. -/
theorem knows_of_not_owns (outside : ¬ Owns (.user point))
    (same : after.history.current other = before.history.current other)
    (knows : Knows other before point) : Knows other after point := by
  cases point with
  | outside => exact same.trans knows
  | waiting cond inner =>
    cases inner with
    | waitLock =>
      obtain ⟨time, isCurrent⟩ := knows
      exact ⟨time, same.trans isCurrent⟩
    | _ => exact absurd trivial outside
  | _ => exact absurd trivial outside

theorem holds_of_not_owns {activity : Activity (Point Cond)} (outside : ¬ Owns activity)
    (same : after.history.current other = before.history.current other)
    (holds : (assertions mutexes).holds other before activity) :
    (assertions mutexes).holds other after activity := by
  cases activity with
  | user point => exact knows_of_not_owns outside same holds
  | calling point progress =>
    obtain ⟨knows, calls⟩ := holds
    exact ⟨knows_of_not_owns (calls.not_owns outside) same knows, calls⟩

variable {locks : MutexId → FifoLock Thread}

theorem keeps_memory {old new : Activity (Point Cond)} (invariant : Invariant mutexes locks memory)
    (holds : (assertions mutexes).holds thread memory new) :
    (assertions mutexes).Keeps thread memory old locks memory new where
  invariant := invariant
  holds := holds
  frame _ _ _ _ knows := knows

/-- A step of a thread that holds the mutex and changes nothing about the waits
of others. -/
theorem keeps_of_owns {old new : Activity (Point Cond)} (owns : Owns old)
    (invariant : Invariant mutexes locks after)
    (holds : (assertions mutexes).holds thread after new)
    (same : ∀ other, other ≠ thread → after.history.current other = before.history.current other) :
    (assertions mutexes).Keeps thread before old locks after new where
  invariant := invariant
  holds := holds
  frame other _ differs apart knows := holds_of_not_owns (apart owns) (same other differs) knows

omit [DecidableEq Thread] in
theorem store_same (memory : Memory Thread Cond) (cond : Cond) :
    ({ conds := Function.update memory.conds cond (memory.conds cond)
       history := memory.history } : Memory Thread Cond) = memory := by
  rw [Function.update_eq_self]

section

variable (invariant : Invariant mutexes locks memory)

include invariant

theorem Invariant.enter (cond : Cond) (owner : (locks mutexes.monitor).owner = some thread) :
    Invariant mutexes locks
      { conds := Function.update memory.conds cond { memory.conds cond with
            waitinCount := (memory.conds cond).waitinCount + 1 }
        history := memory.history.enter thread cond } where
  counted other := by
    have counted := invariant.counted other
    rcases eq_or_ne other cond with rfl | same
    · simp only [Function.update_self, WaitHistory.pending_enter, if_true]
      omega
    · simpa [WaitHistory.pending_enter, same, Ne.symm same] using counted
  orderly := invariant.orderly.enter thread cond
  ahead _ := WaitHistory.ahead_enter invariant.ahead thread
  unreleased other entry isCurrent := by
    rw [WaitHistory.current_enter] at isCurrent
    rcases mem_append.mp isCurrent with old | isNew
    · exact invariant.unreleased other entry old
    · split at isNew
      next same => exact fun _ => same ▸ owner
      next => simp at isNew
  cv_eq other := by
    rw [← invariant.cv_eq other]
    rcases eq_or_ne other cond with rfl | same
    · simp
    · simp [same]
  cv_free := invariant.cv_free

theorem Invariant.serve {called : Nat} (ready : memory.history.Ready cond called)
    (positive : 0 < (memory.conds cond).waitinCount) :
    Invariant mutexes locks
      { conds := Function.update memory.conds cond { memory.conds cond with
            waitinCount := (memory.conds cond).waitinCount - 1 }
        history := (memory.history.hear cond).serve cond called } where
  counted other := by
    rcases eq_or_ne other cond with rfl | same
    · have isPending : 0 < (memory.history.hear other).pending other := by
        have counted := invariant.counted other
        rw [WaitHistory.pending_hear]
        omega
      have served := WaitHistory.pending_serve called isPending
      rw [WaitHistory.pending_hear] at served
      simp only [Function.update_self, invariant.counted other]
      omega
    · simp only [Function.update_of_ne same, invariant.counted other,
        WaitHistory.pending_serve_of_ne same, WaitHistory.pending_hear]
  orderly := (invariant.orderly.hear cond).serve ready.hear
  ahead other := WaitHistory.ahead_serveFirst (invariant.ahead other)
  unreleased other entry isCurrent := by
    rw [WaitHistory.current_serve, WaitHistory.current_hear] at isCurrent
    exact invariant.unreleased other entry isCurrent
  cv_eq other := by
    rw [← invariant.cv_eq other]
    rcases eq_or_ne other cond with rfl | same
    · simp
    · simp [same]
  cv_free := invariant.cv_free

theorem Invariant.hear (nobody : ¬ 0 < (memory.conds cond).waitinCount) :
    Invariant mutexes locks { memory with history := memory.history.hear cond } where
  counted other := by
    rw [WaitHistory.pending_hear]
    exact invariant.counted other
  orderly := invariant.orderly.hear cond
  ahead other := by
    refine WaitHistory.ahead_hear_of_none ?_ (invariant.ahead other)
    have counted := invariant.counted cond
    change memory.history.pending cond = 0
    omega
  unreleased other entry isCurrent := by
    rw [WaitHistory.current_hear] at isCurrent
    exact invariant.unreleased other entry isCurrent
  cv_eq := invariant.cv_eq
  cv_free := invariant.cv_free

/-- While the owner of the mutex is in no wait, all open waits have released
it. -/
theorem Invariant.released (owner : (locks mutexes.monitor).owner = some thread)
    (free : memory.history.current thread = []) :
    ∀ wait ∈ memory.history.waits, wait.returned = none → wait.released ≠ none := by
  intro wait isWait isOpen unreleased
  have isCurrent := WaitHistory.mem_current.mpr ⟨wait, isWait, ⟨rfl, isOpen⟩, rfl⟩
  have ownerWaits := invariant.unreleased wait.thread _ isCurrent unreleased
  obtain rfl := Option.some.inj (owner.symm.trans ownerWaits)
  simp [free] at isCurrent

end

variable {next : Next (Point Cond)} {inner : MesaCond.Point}

theorem access_waiting_keeps (invariant : Invariant mutexes model.mutex model.memory)
    (owned : Owns (.user (.waiting cond inner)) → (model.mutex mutexes.monitor).owner = some thread)
    (knows : Knows thread model.memory (.waiting cond inner))
    (accessed : (program mutexes.monitor).access thread model.memory
      (.waiting cond inner) .proceed = some (memory, next)) :
    (assertions mutexes).Keeps thread model.memory (.user (.waiting cond inner)) model.mutex memory
        (next.activity (.waiting cond inner)) ∧
      (Owns (next.activity (.waiting cond inner)) → Owns (.user (.waiting cond inner))) := by
  cases inner with
  | waitLoad =>
    simp only [program, code, access, noteWait, store_same] at accessed
    cases accessed
    exact ⟨keeps_memory invariant ⟨knows, rfl⟩, fun _ => trivial⟩
  | waitStore count =>
    obtain ⟨free, rfl⟩ := knows
    simp only [program, code, access, noteWait] at accessed
    cases accessed
    refine ⟨keeps_of_owns trivial (invariant.enter cond (owned trivial)) ?_ ?_, fun _ => trivial⟩
    · change (model.memory.history.enter thread cond).current thread = _
      rw [WaitHistory.current_enter, free, if_pos rfl]
      rfl
    · intro other differs
      rw [WaitHistory.current_enter, if_neg differs.symm, append_nil]
  | waitUnlock =>
    cases accessed
    exact ⟨keeps_memory invariant ⟨knows, rfl⟩, fun _ => trivial⟩
  | waitLock =>
    simp only [program, code, access, call] at accessed
    cases accessed
    exact ⟨keeps_memory invariant ⟨knows, Or.inl rfl⟩, by
      simp [Next.activity, Owns, Call.start, sysKthreadMutexLock, Progress.holding]⟩
  | _ => exact knows.elim

theorem access_signalling_keeps {called : Nat}
    (invariant : Invariant mutexes model.mutex model.memory)
    (knows : Knows thread model.memory (.signalling cond called inner))
    (accessed : (program mutexes.monitor).access thread model.memory
      (.signalling cond called inner) .proceed = some (memory, next)) :
    (assertions mutexes).Keeps thread model.memory
      (.user (.signalling cond called inner)) model.mutex memory
      (next.activity (.signalling cond called inner)) := by
  cases inner with
  | signalTest =>
    simp only [program, code, access] at accessed
    by_cases waiters : 0 < (model.memory.conds cond).waitinCount
    · simp only [waiters, if_true, noteSignal, store_same] at accessed
      cases accessed
      exact keeps_memory invariant ⟨knows.1, knows.2, waiters⟩
    · simp only [waiters, if_false, noteSignal, Function.update_eq_self] at accessed
      cases accessed
      refine keeps_of_owns trivial (invariant.hear waiters) ?_ ?_
      · exact (WaitHistory.current_hear cond).trans knows.1
      · exact fun other _ => WaitHistory.current_hear cond
  | signalLoad =>
    simp only [program, code, access, noteSignal, store_same] at accessed
    cases accessed
    obtain ⟨free, ready, positive⟩ := knows
    exact keeps_memory invariant ⟨free, ready, positive, rfl⟩
  | signalStore count =>
    obtain ⟨free, ready, positive, rfl⟩ := knows
    cases accessed
    refine keeps_of_owns trivial (invariant.serve ready positive) ?_ ?_
    · exact (WaitHistory.current_serve cond called).trans
        ((WaitHistory.current_hear cond).trans free)
    · exact fun other _ => (WaitHistory.current_serve cond called).trans
        (WaitHistory.current_hear cond)
  | signalUnlockWaiter | signalUnlock =>
    simp only [program, code, access, call, invariant.cv_eq] at accessed
    cases accessed
    exact keeps_memory invariant ⟨knows, rfl⟩
  | _ => exact knows.elim

theorem access_keeps (valid : (assertions mutexes).Valid mutexes.monitor model)
    (current : model.activity thread = .user point)
    (accessed : (program mutexes.monitor).access thread model.memory point
      choice = some (memory, next)) :
    (assertions mutexes).Keeps thread model.memory (.user point) model.mutex
        memory (next.activity point) ∧
      (Owns (next.activity point) → Owns (.user point)) := by
  have invariant : Invariant mutexes model.mutex model.memory := valid.invariant
  have knows : Knows thread model.memory point :=
    (current ▸ valid.holds thread : (assertions mutexes).holds thread model.memory (.user point))
  have owned : Owns (.user point) → (model.mutex mutexes.monitor).owner = some thread := by
    intro owns
    apply valid.owned thread
    rw [current]
    exact owns
  cases point with
  | outside =>
    cases choice <;> simp only [program, Option.some.injEq, Prod.mk.injEq, reduceCtorEq] at accessed
    obtain ⟨rfl, rfl⟩ := accessed
    exact ⟨keeps_memory invariant ⟨knows, Or.inl rfl⟩, by
      simp [Next.activity, Owns, Call.start, sysKthreadMutexLock, Progress.holding]⟩
  | inside =>
    refine ⟨?_, fun _ => trivial⟩
    rcases choice with _ | _ | (_ | cond) | (_ | cond) | _ <;>
      simp only [program, Option.some.injEq, Prod.mk.injEq,
        reduceCtorEq] at accessed <;> obtain ⟨rfl, rfl⟩ := accessed
    · exact keeps_memory invariant ⟨knows, rfl⟩
    · exact keeps_memory invariant knows
    · exact keeps_memory invariant knows
    · exact keeps_memory invariant knows
    · refine keeps_of_owns trivial ?_ ?_ fun _ _ => rfl
      · exact { invariant with
            orderly := invariant.orderly.call cond }
      · exact ⟨knows, invariant.orderly.ready_call (invariant.released (owned trivial) knows) cond⟩
  | waiting cond inner =>
    cases choice with
    | proceed => exact access_waiting_keeps invariant owned knows accessed
    | _ => simp [program] at accessed
  | signalling cond called inner =>
    refine ⟨?_, fun _ => trivial⟩
    cases choice with
    | proceed => exact access_signalling_keeps invariant knows accessed
    | _ => simp [program] at accessed
  | returned value =>
    refine ⟨?_, fun _ => trivial⟩
    cases choice <;> simp only [program, Option.some.injEq, Prod.mk.injEq, reduceCtorEq] at accessed
    obtain ⟨rfl, rfl⟩ := accessed
    exact keeps_memory invariant knows

/-- A thread that gets the mutex back inside a wait has heard as many signals as
there were waits when its own began. -/
def ModelReturnsInTurn (mutex : MutexId) (model : Model Thread (Memory Thread Cond) (Point Cond))
    (label : Thread × Choice Cond) : Prop :=
  ∀ cond progress, model.activity label.1 = .calling (.waiting cond .waitLock) progress →
    (progress = .lockPopped mutex ∨
        progress = .lockEnter mutex ∧ (model.mutex mutex).owner = none) →
      model.memory.history.HeardAll label.1

/-- What a section leaves to be shown about its caller. -/
def SectionKeeps (mutexes : Mutexes Cond) (model : Model Thread (Memory Thread Cond) (Point Cond))
    (thread : Thread) (point : Point Cond) (progress : Progress)
    (outcome : Outcome (FifoLock Thread) Thread) : Prop :=
  (assertions mutexes).Keeps thread model.memory (.calling point progress) outcome.mutex
      ((program mutexes.monitor).resume thread model.memory point outcome.result).1
      ((program mutexes.monitor).resume thread model.memory point outcome.result).2 ∧
    (Owns ((program mutexes.monitor).resume thread model.memory point outcome.result).2 →
      (outcome.mutex mutexes.monitor).owner = some thread) ∧
    ((outcome.mutex mutexes.monitor).owner = (model.mutex mutexes.monitor).owner ∨
      ∀ other, other ≠ thread → ¬ Owns (model.activity other))

variable {outcome : Outcome (FifoLock Thread) Thread}

section

variable (invariant : Invariant mutexes locks memory)
include invariant

theorem Invariant.monitorSection
    (sections : progress = .unlock mutexes.monitor ∨ Locks mutexes.monitor progress)
    (performs : lockSection locks thread progress = some outcome)
    (unreleased : ∀ other, ∀ entry ∈ memory.history.current other, entry.2 = none →
        (outcome.mutex mutexes.monitor).owner = some other) :
    Invariant mutexes outcome.mutex memory where
  __ := invariant
  unreleased := unreleased
  cv_free cond := by
    have notNamed : mutexes.cv cond ∉ progress.mutexes := by
      rcases sections with rfl | rfl | rfl | rfl <;>
        simp [Progress.mutexes, mutexes.cv_ne]
    rw [lockSection_of_notMem notNamed performs]
    exact invariant.cv_free cond

theorem Invariant.acquire (locked : Locks mutexes.monitor progress)
    (performs : lockSection locks thread progress = some outcome)
    (before : ∀ other, (locks mutexes.monitor).owner = some other → other = thread)
    (owner : (outcome.mutex mutexes.monitor).owner = some thread) :
    Invariant mutexes outcome.mutex memory := by
  refine invariant.monitorSection (Or.inr locked) performs ?_
  intro other entry isCurrent unreleased
  rw [before other (invariant.unreleased other entry isCurrent unreleased), owner]

/-- Nobody but the owner of the mutex is in a wait that has not released it. -/
theorem Invariant.others_released (owner : (locks mutexes.monitor).owner = some thread) :
    ∀ other, other ≠ thread → ∀ entry ∈ memory.history.current other, entry.2 ≠ none := by
  intro other differs entry isCurrent unreleased
  have otherOwns := invariant.unreleased other entry isCurrent unreleased
  exact differs (Option.some.inj (otherOwns.symm.trans owner))

theorem Invariant.release (own : memory.history.current thread = [(cond, none)])
    (others : ∀ other, other ≠ thread → ∀ entry ∈ memory.history.current other, entry.2 ≠ none) :
    Invariant mutexes locks { memory with history := memory.history.release thread } where
  __ := invariant
  counted cond := by
    rw [WaitHistory.pending_release]
    exact invariant.counted cond
  orderly := invariant.orderly.release (invariant.orderly.unserved_of_current own)
  ahead cond := WaitHistory.ahead_mark (fun _ _ _ => Iff.rfl)
    (fun _ => ⟨rfl, rfl⟩) (invariant.ahead cond)
  unreleased other entry isCurrent unreleased := by
    rcases eq_or_ne other thread with rfl | same
    · simp only [WaitHistory.current_release, own, map_cons, map_nil, mem_singleton] at isCurrent
      subst isCurrent
      simp at unreleased
    · have old : entry ∈ memory.history.current other := by
        rw [← WaitHistory.current_release_of_ne same]
        exact isCurrent
      exact absurd unreleased (others other same entry old)

theorem Invariant.finish {released : Option Nat}
    (own : memory.history.current thread = [(cond, released)])
    (heardAll : memory.history.HeardAll thread) :
    Invariant mutexes locks { memory with history := memory.history.finish thread } := by
  have served := WaitHistory.served_of_heardAll (invariant.ahead cond) own heardAll
  refine ⟨?_, invariant.orderly.finish served, ?_, ?_, invariant.cv_eq, invariant.cv_free⟩
  · intro other
    rw [WaitHistory.pending_finish other served]
    exact invariant.counted other
  · intro other
    exact WaitHistory.ahead_mark (WaitHistory.pending_finish_iff served)
      (fun _ => ⟨rfl, rfl⟩) (invariant.ahead other)
  · intro other entry isCurrent
    rcases eq_or_ne other thread with rfl | same
    · simp [WaitHistory.current_finish] at isCurrent
    · rw [WaitHistory.current_finish_of_ne same] at isCurrent
      exact invariant.unreleased other entry isCurrent

end

omit [DecidableEq Cond] in
/-- The return of a wait does not change what another thread knows. -/
theorem knows_finish (differs : other ≠ thread) (knows : Knows other memory point) :
    Knows other { memory with history := memory.history.finish thread }
      point := by
  have same : (memory.history.finish thread).current other =
      memory.history.current other :=
    WaitHistory.current_finish_of_ne differs
  cases point with
  | outside | inside | returned value => exact same.trans knows
  | waiting cond inner =>
    cases inner with
    | waitLoad | waitUnlock => exact same.trans knows
    | waitStore count => exact ⟨same.trans knows.1, knows.2⟩
    | waitLock =>
      obtain ⟨time, isCurrent⟩ := knows
      exact ⟨time, same.trans isCurrent⟩
    | _ => exact knows.elim
  | signalling cond called inner =>
    cases inner with
    | signalTest => exact ⟨same.trans knows.1, knows.2.finish thread⟩
    | signalLoad | signalStore count =>
      exact ⟨same.trans knows.1, knows.2.1.finish thread, knows.2.2⟩
    | signalUnlockWaiter | signalUnlock => exact same.trans knows
    | _ => exact knows.elim

theorem keeps_finish {old new : Activity (Point Cond)} (invariant : Invariant mutexes locks
      { memory with history := memory.history.finish thread })
    (holds : (assertions mutexes).holds thread
      { memory with history := memory.history.finish thread } new) :
    (assertions mutexes).Keeps thread memory old locks
      { memory with history := memory.history.finish thread } new where
  invariant := invariant
  holds := holds
  frame other activity differs _ known := by
    cases activity with
    | user point => exact knows_finish differs known
    | calling point progress => exact ⟨knows_finish differs known.1, known.2⟩

/-- A section of a lock that leaves its caller in the queue. -/
theorem queuedSection_keeps (invariant : Invariant mutexes model.mutex model.memory)
    (knows : Knows thread model.memory point)
    (calls : Calls mutexes point (.lockQueued mutexes.monitor))
    (locks : Locks mutexes.monitor progress)
    (result : outcome.result = .continues (.lockQueued mutexes.monitor))
    (same : (outcome.mutex mutexes.monitor).owner = (model.mutex mutexes.monitor).owner)
    (performs : lockSection model.mutex thread progress = some outcome) :
    SectionKeeps mutexes model thread point progress outcome := by
  unfold SectionKeeps
  rw [result]
  refine ⟨keeps_memory (invariant.monitorSection (Or.inr locks) performs ?_)
    ⟨knows, calls⟩, by simp [Program.resume, Owns, Progress.holding],
    Or.inl same⟩
  rw [same]
  exact invariant.unreleased

section

variable (valid : (assertions mutexes).Valid mutexes.monitor model)

include valid

theorem signalSection_keeps {called : Nat} (current : model.activity thread =
      .calling (.signalling cond called inner) (.unlock (mutexes.cv cond)))
    (returns : Knows thread model.memory (followSignal cond called (code.afterCall inner (-1))))
    (performs : lockSection model.mutex thread (.unlock (mutexes.cv cond)) = some outcome) :
    SectionKeeps mutexes model thread (.signalling cond called inner)
      (.unlock (mutexes.cv cond)) outcome := by
  have invariant : Invariant mutexes model.mutex model.memory := valid.invariant
  cases performs
  rw [releaseSection_of_free (invariant.cv_free cond)]
  refine ⟨keeps_memory invariant returns, fun _ => ?_, Or.inl rfl⟩
  apply valid.owned thread
  rw [current]
  rfl

variable (performs : lockSection model.mutex thread progress = some outcome)

include performs

theorem outsideSection_keeps (current : model.activity thread = .calling .outside progress) :
    SectionKeeps mutexes model thread .outside progress outcome := by
  have invariant : Invariant mutexes model.mutex model.memory := valid.invariant
  obtain ⟨knows, calls⟩ := valid.holds_at current
  have locks : Locks mutexes.monitor progress := calls
  cases valid.lockStep current id (Or.inr locks) performs with
  | acquires result gets owner others =>
    unfold SectionKeeps
    rw [result]
    exact ⟨keeps_memory (invariant.acquire locks performs (by grind) owner) knows,
      fun _ => owner, others⟩
  | waits locks result same =>
    exact queuedSection_keeps invariant knows (Or.inr (Or.inl rfl)) locks result same performs
  | releases unlocks _ _ _ =>
    subst unlocks
    simp [Locks] at locks

theorem insideSection_keeps (current : model.activity thread = .calling .inside progress) :
    SectionKeeps mutexes model thread .inside progress outcome := by
  have invariant : Invariant mutexes model.mutex model.memory := valid.invariant
  obtain ⟨knows, calls⟩ := valid.holds_at current
  obtain rfl : progress = .unlock mutexes.monitor := calls
  cases valid.lockStep current id (Or.inl rfl) performs with
  | acquires _ gets _ _ => simp at gets
  | waits locks _ _ => simp [Locks] at locks
  | releases _ owner result others =>
    unfold SectionKeeps
    rw [result]
    refine ⟨keeps_memory (invariant.monitorSection (Or.inl rfl) performs
      ?_) knows, False.elim, Or.inr others⟩
    intro other entry isCurrent unreleased
    rcases eq_or_ne other thread with rfl | same
    · have free : model.memory.history.current other = [] := knows
      simp [free] at isCurrent
    · exact absurd unreleased (invariant.others_released owner other same entry isCurrent)

theorem waitUnlockSection_keeps
    (current : model.activity thread = .calling (.waiting cond .waitUnlock) progress) :
    SectionKeeps mutexes model thread (.waiting cond .waitUnlock) progress outcome := by
  have invariant : Invariant mutexes model.mutex model.memory := valid.invariant
  obtain ⟨knows, calls⟩ := valid.holds_at current
  have own : model.memory.history.current thread = [(cond, none)] := knows
  obtain rfl : progress = .unlock mutexes.monitor := calls
  cases valid.lockStep current id (Or.inl rfl) performs with
  | acquires _ gets _ _ => simp at gets
  | waits locks _ _ => simp [Locks] at locks
  | releases _ owner result others =>
    have othersReleased := invariant.others_released owner
    have ownReleased : (model.memory.history.release thread).current
        thread = [(cond, some model.memory.history.clock)] := by
      rw [WaitHistory.current_release, own]
      rfl
    unfold SectionKeeps
    rw [result]
    refine ⟨keeps_of_owns rfl ?_ ⟨_, ownReleased⟩ ?_, False.elim, Or.inr others⟩
    · refine (invariant.release own othersReleased).monitorSection (Or.inl rfl) performs ?_
      intro other entry isCurrent unreleased
      rcases eq_or_ne other thread with rfl | same
      · rw [ownReleased, mem_singleton] at isCurrent
        subst isCurrent
        simp at unreleased
      · rw [WaitHistory.current_release_of_ne same] at isCurrent
        exact absurd unreleased (othersReleased other same entry isCurrent)
    · exact fun other differs =>
        WaitHistory.current_release_of_ne differs

theorem waitLockSection_keeps (inTurn : ModelReturnsInTurn mutexes.monitor model (thread, choice))
    (current : model.activity thread = .calling (.waiting cond .waitLock) progress) :
    SectionKeeps mutexes model thread (.waiting cond .waitLock) progress outcome := by
  have invariant : Invariant mutexes model.mutex model.memory := valid.invariant
  obtain ⟨knows, calls⟩ := valid.holds_at current
  obtain ⟨time, own⟩ := knows
  have locks : Locks mutexes.monitor progress := calls
  cases valid.lockStep current id (Or.inr locks) performs with
  | acquires result gets owner others =>
    have heardAll := inTurn cond progress current (gets.imp_left And.left)
    unfold SectionKeeps
    rw [result]
    refine ⟨keeps_finish ?_ WaitHistory.current_finish, fun _ => owner, others⟩
    exact (invariant.finish own heardAll).acquire locks performs (by grind) owner
  | waits locks result same =>
    exact queuedSection_keeps invariant ⟨time, own⟩ (Or.inr (Or.inl rfl)) locks result same performs
  | releases unlocks _ _ _ =>
    subst unlocks
    simp [Locks] at locks

theorem section_keeps (inTurn : ModelReturnsInTurn mutexes.monitor model (thread, choice))
    (current : model.activity thread = .calling point progress) :
    SectionKeeps mutexes model thread point progress outcome := by
  obtain ⟨knows, calls⟩ := valid.holds_at current
  cases point with
  | outside => exact outsideSection_keeps valid performs current
  | inside => exact insideSection_keeps valid performs current
  | waiting cond inner =>
    cases inner with
    | waitUnlock => exact waitUnlockSection_keeps valid performs current
    | waitLock => exact waitLockSection_keeps valid performs inTurn current
    | _ => exact calls.elim
  | signalling cond called inner =>
    cases inner with
    | signalUnlockWaiter | signalUnlock =>
      obtain rfl : progress = .unlock (mutexes.cv cond) := calls
      exact signalSection_keeps valid current knows performs
    | _ => exact calls.elim
  | returned value => exact calls.elim

end

theorem rules : (assertions mutexes).Rules
    (program mutexes.monitor : Program Thread (Memory Thread Cond) _ _)
    mutexes.monitor (ModelReturnsInTurn mutexes.monitor) where
  woken _ memory thread index _ point progress _ waits holds := by
    obtain ⟨knows, calls⟩ := holds
    have sections := calls.lock_or_unlock
    have queued := queue_of_lock_or_unlock (sections.imp_left And.left) waits
    refine ⟨⟨knows, ?_⟩, fun _ => queued.1⟩
    rcases sections with ⟨-, following, -⟩ | ⟨unlocked, -, rfl⟩
    · exact following _ queued.2.2
    · simp [Progress.queue] at waits
  access model thread choice point memory next valid _ current accessed :=
    access_keeps valid current accessed
  performs model thread choice point progress outcome valid inTurn current
      performs := section_keeps valid performs inTurn current

end Rules

/-- Before any call: every thread is outside, the mutexes are allocated and
free, and nobody waits. -/
structure Fresh (mutexes : Mutexes Cond)
    (machine : Machine (KthreadMutex Thread) Thread (Memory Thread Cond) (Point Cond)) : Prop where
  outside : ∀ thread, machine.activity thread = .user .outside
  free : ∀ index, mutexes.Allocated index → (machine.mutex index).Refines FifoLock.free
  id_eq : ∀ index, mutexes.Allocated index → (machine.mutex index).id = index.val
  conds : ∀ cond, machine.memory.conds cond = { mutexCV := mutexes.cv cond, waitinCount := 0 }
  history : machine.memory.history = WaitHistory.empty

theorem Fresh.valid [DecidableEq Thread] [DecidableEq Cond]
    {machine : Machine (KthreadMutex Thread) Thread (Memory Thread Cond)
      (Point Cond)} (fresh : Fresh mutexes machine) :
    (assertions mutexes).Valid mutexes.monitor machine.withFreeLocks := by
  apply Assertions.valid_withFreeLocks
  · intro thread
    rw [fresh.outside]
    exact id
  · refine ⟨fun cond => ?_, ?_, fun cond => ?_, fun thread entry isCurrent => ?_,
      fun cond => ?_, fun _ => rfl⟩
    · rw [fresh.conds, fresh.history]
      rfl
    · rw [fresh.history]
      exact WaitHistory.orderly_empty
    · rw [fresh.history]
      exact trivial
    · rw [fresh.history] at isCurrent
      simp [WaitHistory.current, WaitHistory.empty] at isCurrent
    · rw [fresh.conds]
  · intro thread
    rw [fresh.outside]
    change machine.memory.history.current thread = []
    rw [fresh.history]
    rfl

/-- A wait that gets the mutex back in this step has heard as many signals on its
condition variable as there were waits when it began. -/
def ReturnsInTurn
    (machine : Machine (KthreadMutex Thread) Thread (Memory Thread Cond) (Point Cond))
    (label : Thread × Choice Cond) : Prop :=
  match machine.activity label.1 with
  | .calling (.waiting _ .waitLock) (.lockPopped _) => machine.memory.history.HeardAll label.1
  | .calling (.waiting _ .waitLock) (.lockEnter index) =>
    (machine.mutex index).locked = false → machine.memory.history.HeardAll label.1
  | _ => True

instance [DecidableEq Thread]
    (machine : Machine (KthreadMutex Thread) Thread (Memory Thread Cond)
      (Point Cond)) : DecidablePred (ReturnsInTurn machine) := by
  intro label
  unfold ReturnsInTurn
  split <;> infer_instance

section Runs

variable [DecidableEq Thread] [DecidableEq Cond] {mutexes : Mutexes Cond}
variable {machine after : Machine (KthreadMutex Thread) Thread (Memory Thread Cond) (Point Cond)}

omit [DecidableEq Thread] [DecidableEq Cond] in
theorem ReturnsInTurn.model {model : Model Thread (Memory Thread Cond) (Point Cond)}
    {label : Thread × Choice Cond} (simulates : Simulates mutexes.Allocated machine model)
    (inTurn : ReturnsInTurn machine label) :
    ModelReturnsInTurn mutexes.monitor model label := by
  intro cond progress current gets
  simp only [ReturnsInTurn, simulates.activity, simulates.memory, current] at inTurn
  rcases gets with rfl | ⟨rfl, free⟩
  · exact inTurn
  · have refines := simulates.implements.refines mutexes.monitor (Or.inl rfl)
    refine inTurn ?_
    rw [refines.locked_eq, free]
    rfl

end Runs

def pairMutexes : Mutexes Unit where
  monitor := ⟨0, maxMutexes_pos⟩
  cv _ := ⟨1, one_lt_maxMutexes⟩
  cv_ne _ := by decide

/-- Two threads, allocated mutexes and one condition variable on which nobody
waits. -/
def pair : Machine (KthreadMutex (Fin 2)) (Fin 2) (Memory (Fin 2) Unit) (Point Unit) where
  mutex index := KthreadMutex.zeroed.allocate index.val
  activity _ := .user .outside
  memory :=
    { conds := fun _ => { mutexCV := pairMutexes.cv (), waitinCount := 0 }
      history := WaitHistory.empty }

theorem pair_fresh : Fresh pairMutexes pair where
  outside _ := rfl
  free _ _ := KthreadMutex.refines_free_allocate KthreadMutex.zeroed_waiting rfl _
  id_eq _ _ := rfl
  conds _ := rfl
  history := rfl

end MesaSignals

end Xv6Kthreads
