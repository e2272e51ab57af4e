import Mathlib.Data.List.Nodup
import Mathlib.Data.List.Pairwise

/-!
# Histories of waits and signals

A history of the waits and signals on some condition variables.  A wait is
recorded when its thread begins to be counted, and it learns in turn when the
thread released the monitor, which signal was meant for it, and when it
returned.  A signal is meant for the oldest pending wait, so the waits that have
had their signal are always older than those that have not, and a wait has had
its signal at the latest when there were as many signals as waits up to it.
-/

namespace Xv6Kthreads

open List

/-- A wait, with the times at which it released the monitor, at which the
signal meant for it was called, and at which it returned. -/
structure Wait (Thread Cond : Type*) where
  thread : Thread
  cond : Cond
  released : Option Nat
  signal : Option Nat
  returned : Option Nat
  /-- The number of waits on `cond` that had not returned when this one began,
  itself included. -/
  inside : Nat
  /-- The number of signals on `cond` since then. -/
  heard : Nat

namespace Wait

variable {Thread Cond : Type*}

/-- The wait is on `cond`, has not returned and has had no signal. -/
def Pending (cond : Cond) (wait : Wait Thread Cond) : Prop :=
  wait.cond = cond ∧ wait.returned = none ∧ wait.signal = none

def OpenOn (cond : Cond) (wait : Wait Thread Cond) : Prop :=
  wait.cond = cond ∧ wait.returned = none

def OpenBy (thread : Thread) (wait : Wait Thread Cond) : Prop :=
  wait.thread = thread ∧ wait.returned = none

instance [DecidableEq Cond] (cond : Cond) :
    DecidablePred (Pending cond : Wait Thread Cond → Prop) := by
  intro wait
  unfold Pending
  infer_instance

instance [DecidableEq Cond] (cond : Cond) :
    DecidablePred (OpenOn cond : Wait Thread Cond → Prop) := by
  intro wait
  unfold OpenOn
  infer_instance

instance [DecidableEq Thread] (thread : Thread) :
    DecidablePred (OpenBy thread : Wait Thread Cond → Prop) := by
  intro wait
  unfold OpenBy
  infer_instance

def hear [DecidableEq Cond] (cond : Cond) (wait : Wait Thread Cond) : Wait Thread Cond :=
  { wait with heard := if wait.OpenOn cond then wait.heard + 1 else wait.heard }

/-- An older pending wait keeps a younger one on the same condition variable
pending. -/
def Before (older younger : Wait Thread Cond) : Prop :=
  older.Pending younger.cond → younger.returned = none → younger.signal = none

end Wait

/-- The waits in the order in which they began, the calls of signals with their
times, and the time. -/
structure WaitHistory (Thread Cond : Type*) where
  clock : Nat
  waits : List (Wait Thread Cond)
  signals : List (Cond × Nat)

namespace WaitHistory

open Wait

variable {Thread Cond : Type*}

def empty : WaitHistory Thread Cond where
  clock := 0
  waits := []
  signals := []

section Operations

variable (history : WaitHistory Thread Cond)

def enter [DecidableEq Cond] (thread : Thread) (cond : Cond) : WaitHistory Thread Cond :=
  { history with
    waits := history.waits ++
      [{ thread, cond, released := none, signal := none, returned := none
         inside := history.waits.countP (fun wait => wait.OpenOn cond) + 1, heard := 0 }] }

def call (cond : Cond) : WaitHistory Thread Cond :=
  { history with
    clock := history.clock + 1
    signals := (cond, history.clock) :: history.signals }

def mark [DecidableEq Thread] (thread : Thread) (change : Wait Thread Cond → Wait Thread Cond) :
    WaitHistory Thread Cond :=
  { history with
    clock := history.clock + 1
    waits := history.waits.map fun wait =>
      if wait.OpenBy thread then change wait else wait }

def release [DecidableEq Thread] (thread : Thread) : WaitHistory Thread Cond :=
  history.mark thread fun wait => { wait with released := some history.clock }

def finish [DecidableEq Thread] (thread : Thread) : WaitHistory Thread Cond :=
  history.mark thread fun wait => { wait with returned := some history.clock }

/-- A signal, whether or not it finds a pending wait. -/
def hear [DecidableEq Cond] (cond : Cond) : WaitHistory Thread Cond :=
  { history with waits := history.waits.map (Wait.hear cond) }

def serveFirst [DecidableEq Cond] (cond : Cond) (signal : Nat) :
    List (Wait Thread Cond) → List (Wait Thread Cond)
  | [] => []
  | wait :: waits =>
    if wait.Pending cond then { wait with signal := some signal } :: waits
    else wait :: serveFirst cond signal waits

def serve [DecidableEq Cond] (cond : Cond) (signal : Nat) : WaitHistory Thread Cond :=
  { history with waits := serveFirst cond signal history.waits }

/-- The number of waits on a condition variable that have had no signal. -/
def pending [DecidableEq Cond] (cond : Cond) : Nat :=
  history.waits.countP (fun wait => wait.Pending cond)

/-- The open wait of a thread has heard as many signals as there were waits when
it began. -/
def HeardAll (thread : Thread) : Prop :=
  ∀ wait ∈ history.waits, wait.OpenBy thread → wait.inside ≤ wait.heard

instance [DecidableEq Thread] (thread : Thread) : Decidable (history.HeardAll thread) := by
  unfold HeardAll
  infer_instance

end Operations

/-- What is true of every history in which a wait returns only after its
signal. -/
structure Orderly (history : WaitHistory Thread Cond) : Prop where
  ordered : history.waits.Pairwise Before
  distinct : (history.waits.filterMap Wait.signal).Nodup
  signalled : ∀ wait ∈ history.waits, ∀ signal, wait.signal = some signal →
    (wait.cond, signal) ∈ history.signals ∧
      ∃ released, wait.released = some released ∧ released < signal
  returned : ∀ wait ∈ history.waits, ∀ time, wait.returned = some time →
    ∃ signal, wait.signal = some signal ∧ signal < time
  signals_lt : ∀ signal ∈ history.signals, signal.2 < history.clock
  released_lt : ∀ wait ∈ history.waits, ∀ released,
    wait.released = some released → released < history.clock

theorem orderly_empty : (empty : WaitHistory Thread Cond).Orderly where
  ordered := List.Pairwise.nil
  distinct := nodup_nil
  signalled _ isWait := by simp [empty] at isWait
  returned _ isWait := by simp [empty] at isWait
  signals_lt _ isSignal := by simp [empty] at isSignal
  released_lt _ isWait := by simp [empty] at isWait

variable {history : WaitHistory Thread Cond}

theorem Orderly.enter [DecidableEq Cond] (orderly : history.Orderly) (thread : Thread)
    (cond : Cond) : (history.enter thread cond).Orderly where
  ordered := by
    refine pairwise_append.mpr ⟨orderly.ordered, pairwise_singleton _ _, ?_⟩
    intro older _ younger isNew
    obtain rfl := mem_singleton.mp isNew
    exact fun _ _ => rfl
  distinct := by
    simpa [WaitHistory.enter] using orderly.distinct
  signalled wait isWait signal := by
    rcases mem_append.mp isWait with old | isNew
    · exact orderly.signalled wait old signal
    · obtain rfl := mem_singleton.mp isNew
      exact nofun
  returned wait isWait time := by
    rcases mem_append.mp isWait with old | isNew
    · exact orderly.returned wait old time
    · obtain rfl := mem_singleton.mp isNew
      exact nofun
  signals_lt := orderly.signals_lt
  released_lt wait isWait released := by
    rcases mem_append.mp isWait with old | isNew
    · exact orderly.released_lt wait old released
    · obtain rfl := mem_singleton.mp isNew
      exact nofun

theorem Orderly.call (orderly : history.Orderly) (cond : Cond) : (history.call cond).Orderly :=
  { orderly with
    signalled wait isWait signal served := by
      obtain ⟨isSignal, released⟩ := orderly.signalled wait isWait signal served
      exact ⟨mem_cons_of_mem _ isSignal, released⟩
    signals_lt signal isSignal := by
      rcases mem_cons.mp isSignal with rfl | old
      · exact Nat.lt_succ_self _
      · exact Nat.lt_succ_of_lt (orderly.signals_lt signal old)
    released_lt wait isWait released isReleased :=
      Nat.lt_succ_of_lt (orderly.released_lt wait isWait released isReleased) }

theorem Orderly.hear [DecidableEq Cond] (orderly : history.Orderly) (cond : Cond) :
    (history.hear cond).Orderly where
  ordered := pairwise_map.mpr orderly.ordered
  distinct := by
    simp only [WaitHistory.hear, filterMap_map]
    exact orderly.distinct
  signalled wait isWait := by
    obtain ⟨old, isOld, rfl⟩ := mem_map.mp isWait
    exact orderly.signalled old isOld
  returned wait isWait := by
    obtain ⟨old, isOld, rfl⟩ := mem_map.mp isWait
    exact orderly.returned old isOld
  signals_lt := orderly.signals_lt
  released_lt wait isWait := by
    obtain ⟨old, isOld, rfl⟩ := mem_map.mp isWait
    exact orderly.released_lt old isOld

variable {change : Wait Thread Cond → Wait Thread Cond}
variable {wait : Wait Thread Cond}

section Mark

variable [DecidableEq Thread] {thread : Thread}
variable {change : Wait Thread Cond → Wait Thread Cond}

theorem mem_mark : wait ∈ (history.mark thread change).waits ↔
      (wait ∈ history.waits ∧ ¬ wait.OpenBy thread) ∨
        ∃ old ∈ history.waits, old.OpenBy thread ∧ change old = wait := by
  simp only [mark, mem_map]
  constructor
  · rintro ⟨old, isOld, rfl⟩
    split
    next isOpen => exact Or.inr ⟨old, isOld, isOpen, rfl⟩
    next closed => exact Or.inl ⟨isOld, closed⟩
  · rintro (⟨isOld, closed⟩ | ⟨old, isOld, isOpen, rfl⟩)
    · exact ⟨wait, isOld, if_neg closed⟩
    · exact ⟨old, isOld, if_pos isOpen⟩

/-- A change of one wait that keeps its signal and reopens nothing keeps the
order of waits. -/
theorem Orderly.mark (orderly : history.Orderly) (thread : Thread)
    (keepsCond : ∀ wait, (change wait).cond = wait.cond)
    (keepsSignal : ∀ wait, (change wait).signal = wait.signal)
    (reopens : ∀ wait, (change wait).returned = none → wait.returned = none)
    (signalled : ∀ wait ∈ history.waits, wait.OpenBy thread → ∀ signal,
      wait.signal = some signal → (change wait).released = wait.released)
    (returned : ∀ wait ∈ history.waits, wait.OpenBy thread → ∀ time,
      (change wait).returned = some time → ∃ signal, wait.signal = some signal ∧ signal < time)
    (released : ∀ wait ∈ history.waits, wait.OpenBy thread → ∀ time,
      (change wait).released = some time → time ≤ history.clock) :
    (history.mark thread change).Orderly := by
  have marked : ∀ wait : Wait Thread Cond, (if wait.OpenBy thread then change wait else wait).cond =
          wait.cond ∧
        (if wait.OpenBy thread then change wait else wait).signal = wait.signal ∧
        ((if wait.OpenBy thread then change wait else wait).returned = none →
          wait.returned = none) := by
    intro wait
    split
    · exact ⟨keepsCond wait, keepsSignal wait, reopens wait⟩
    · exact ⟨rfl, rfl, id⟩
  refine ⟨?_, ?_, ?_, ?_, ?_, ?_⟩
  · refine pairwise_map.mpr (orderly.ordered.imp ?_)
    intro older younger before isPending isOpen
    rw [Pending, (marked older).1, (marked younger).1, (marked older).2.1] at isPending
    rw [(marked younger).2.1]
    exact before ⟨isPending.1, (marked older).2.2 isPending.2.1,
      isPending.2.2⟩ ((marked younger).2.2 isOpen)
  · have sameSignals : (history.mark thread change).waits.filterMap
        Wait.signal = history.waits.filterMap Wait.signal := by
      simp only [WaitHistory.mark, filterMap_map]
      exact filterMap_congr fun wait _ => (marked wait).2.1
    rw [sameSignals]
    exact orderly.distinct
  · intro wait isWait signal served
    rcases mem_mark.mp isWait with ⟨old, -⟩ | ⟨old, isOld, isOpen, rfl⟩
    · exact orderly.signalled wait old signal served
    · rw [keepsSignal] at served
      rw [keepsCond, signalled old isOld isOpen signal served]
      exact orderly.signalled old isOld signal served
  · intro wait isWait time finished
    rcases mem_mark.mp isWait with ⟨old, -⟩ | ⟨old, isOld, isOpen, rfl⟩
    · exact orderly.returned wait old time finished
    · rw [keepsSignal]
      exact returned old isOld isOpen time finished
  · exact fun signal isSignal =>
      Nat.lt_succ_of_lt (orderly.signals_lt signal isSignal)
  · intro wait isWait time isReleased
    rcases mem_mark.mp isWait with ⟨old, -⟩ | ⟨old, isOld, isOpen, rfl⟩
    · exact Nat.lt_succ_of_lt (orderly.released_lt wait old time isReleased)
    · exact Nat.lt_succ_of_le (released old isOld isOpen time isReleased)

/-- The wait of a thread that has had no signal releases the monitor. -/
theorem Orderly.release (orderly : history.Orderly)
    (unserved : ∀ wait ∈ history.waits, wait.OpenBy thread → wait.signal = none) :
    (history.release thread).Orderly := by
  refine orderly.mark thread (fun _ => rfl) (fun _ => rfl) (fun _ => id) ?_ ?_ ?_
  · intro wait isWait isOpen signal served
    rw [unserved wait isWait isOpen] at served
    cases served
  · exact fun wait isWait _ => orderly.returned wait isWait
  · rintro wait isWait isOpen _ ⟨⟩
    exact Nat.le_refl _

theorem Orderly.finish (orderly : history.Orderly)
    (served : ∀ wait ∈ history.waits, wait.OpenBy thread → wait.signal ≠ none) :
    (history.finish thread).Orderly := by
  refine orderly.mark thread (fun _ => rfl) (fun _ => rfl) nofun (fun _ _ _ _ _ => rfl) ?_ ?_
  · rintro wait isWait isOpen _ ⟨⟩
    obtain ⟨signal, isServed⟩ := Option.ne_none_iff_exists'.mp (served wait isWait isOpen)
    exact ⟨signal, isServed, orderly.signals_lt _ (orderly.signalled wait isWait signal isServed).1⟩
  · exact fun wait isWait _ time isReleased =>
      Nat.le_of_lt (orderly.released_lt wait isWait time isReleased)

end Mark

/-- A signal has been called, after every open wait had released the monitor,
and has not yet been used. -/
structure Ready (history : WaitHistory Thread Cond) (cond : Cond) (signal : Nat) : Prop where
  called : (cond, signal) ∈ history.signals
  unused : ∀ wait ∈ history.waits, wait.signal ≠ some signal
  released : ∀ wait ∈ history.waits, wait.returned = none →
    ∃ time, wait.released = some time ∧ time < signal

theorem Orderly.ready_call (orderly : history.Orderly)
    (released : ∀ wait ∈ history.waits, wait.returned = none → wait.released ≠ none) (cond : Cond) :
    (history.call cond).Ready cond history.clock where
  called := mem_cons_self
  unused wait isWait isUsed := by
    have isSignal := (orderly.signalled wait isWait _ isUsed).1
    exact absurd (orderly.signals_lt _ isSignal) (Nat.lt_irrefl _)
  released wait isWait isOpen := by
    obtain ⟨time, isReleased⟩ := Option.ne_none_iff_exists'.mp (released wait isWait isOpen)
    exact ⟨time, isReleased, orderly.released_lt wait isWait time isReleased⟩

variable {cond : Cond}

theorem Ready.finish [DecidableEq Thread] {signal : Nat}
    (ready : history.Ready cond signal) (thread : Thread) :
    (history.finish thread).Ready cond signal where
  called := ready.called
  unused wait isWait := by
    rcases mem_mark.mp isWait with ⟨old, -⟩ | ⟨old, isOld, -, rfl⟩
    · exact ready.unused wait old
    · exact ready.unused old isOld
  released wait isWait isOpen := by
    rcases mem_mark.mp isWait with ⟨old, -⟩ | ⟨old, isOld, -, rfl⟩
    · exact ready.released wait old isOpen
    · simp at isOpen

theorem Ready.hear [DecidableEq Cond] {signal : Nat} (ready : history.Ready cond signal) :
    (history.hear cond).Ready cond signal where
  called := ready.called
  unused wait isWait := by
    obtain ⟨old, isOld, rfl⟩ := mem_map.mp isWait
    exact ready.unused old isOld
  released wait isWait := by
    obtain ⟨old, isOld, rfl⟩ := mem_map.mp isWait
    exact ready.released old isOld

section Serve

variable [DecidableEq Cond] {cond : Cond} {signal : Nat}

theorem mem_serveFirst {waits : List (Wait Thread Cond)}
    (isWait : wait ∈ serveFirst cond signal waits) :
    wait ∈ waits ∨ ∃ old ∈ waits, old.Pending cond ∧ wait = { old with signal := some signal } := by
  induction waits with
  | nil => exact Or.inl isWait
  | cons head tail ih =>
    unfold serveFirst at isWait
    split at isWait
    next isPending =>
      rcases mem_cons.mp isWait with rfl | inTail
      · exact Or.inr ⟨head, mem_cons_self, isPending, rfl⟩
      · exact Or.inl (mem_cons_of_mem head inTail)
    next =>
      rcases mem_cons.mp isWait with rfl | inTail
      · exact Or.inl mem_cons_self
      · rcases ih inTail with old | ⟨old, isOld, served⟩
        · exact Or.inl (mem_cons_of_mem head old)
        · exact Or.inr ⟨old, mem_cons_of_mem head isOld, served⟩

theorem serveFirst_ordered {waits : List (Wait Thread Cond)} (ordered : waits.Pairwise Before) :
    (serveFirst cond signal waits).Pairwise Before := by
  induction waits with
  | nil => exact List.Pairwise.nil
  | cons head tail ih =>
    obtain ⟨first, rest⟩ := pairwise_cons.mp ordered
    unfold serveFirst
    split
    next =>
      refine pairwise_cons.mpr ⟨?_, rest⟩
      intro younger _ isPending
      simp [Pending] at isPending
    next notPending =>
      refine pairwise_cons.mpr ⟨?_, ih rest⟩
      intro younger isYounger isPending isOpen
      rcases mem_serveFirst isYounger with old | ⟨old, -, oldPending, rfl⟩
      · exact first younger old isPending isOpen
      · exact absurd (oldPending.1 ▸ isPending) notPending

/-- Serving a wait adds one signal to those that waits have had. -/
theorem serveFirst_signals (waits : List (Wait Thread Cond)) :
    (serveFirst cond signal waits).filterMap Wait.signal = waits.filterMap Wait.signal ∨
      ((serveFirst cond signal waits).filterMap Wait.signal).Perm
        (signal :: waits.filterMap Wait.signal) := by
  induction waits with
  | nil => exact Or.inl rfl
  | cons head tail ih =>
    unfold serveFirst
    split
    next isPending =>
      right
      simp [isPending.2.2]
    next =>
      cases served : head.signal with
      | none => simpa [served] using ih
      | some earlier =>
        rcases ih with same | perm
        · left
          simp [served, same]
        · right
          simp only [filterMap_cons, served]
          exact (perm.cons earlier).trans (List.Perm.swap signal earlier _)

theorem serveFirst_pending (waits : List (Wait Thread Cond))
    (positive : 0 < waits.countP fun wait => wait.Pending cond) :
    (serveFirst cond signal waits).countP (fun wait => wait.Pending cond) + 1 =
      waits.countP fun wait => wait.Pending cond := by
  induction waits with
  | nil => simp at positive
  | cons head tail ih =>
    unfold serveFirst
    split
    next isPending =>
      simp only [countP_cons, isPending, decide_true, if_true]
      simp [Pending]
    next notPending =>
      simp only [countP_cons, notPending, decide_false] at positive ⊢
      simpa using ih (by simpa using positive)

theorem serveFirst_pending_of_ne {other : Cond} (differs : other ≠ cond)
    (waits : List (Wait Thread Cond)) :
    (serveFirst cond signal waits).countP (fun wait => wait.Pending other) =
      waits.countP fun wait => wait.Pending other := by
  induction waits with
  | nil => rfl
  | cons head tail ih =>
    unfold serveFirst
    split
    next isPending =>
      have notOther : ¬ head.cond = other := by
        rw [isPending.1]
        exact differs.symm
      simp [Pending, notOther]
    next => simp only [countP_cons, ih]

theorem Orderly.serve (orderly : history.Orderly) (ready : history.Ready cond signal) :
    (history.serve cond signal).Orderly where
  ordered := serveFirst_ordered orderly.ordered
  distinct := by
    rcases serveFirst_signals history.waits with same | perm
    · exact same ▸ orderly.distinct
    · refine perm.nodup_iff.mpr (nodup_cons.mpr ⟨?_, orderly.distinct⟩)
      intro isUsed
      obtain ⟨wait, isWait, served⟩ := mem_filterMap.mp isUsed
      exact ready.unused wait isWait served
  signalled wait isWait time served := by
    rcases mem_serveFirst isWait with old | ⟨old, isOld, isPending, rfl⟩
    · exact orderly.signalled wait old time served
    · cases served
      have onCond : old.cond = cond := isPending.1
      exact ⟨onCond ▸ ready.called, ready.released old isOld isPending.2.1⟩
  returned wait isWait time finished := by
    rcases mem_serveFirst isWait with old | ⟨old, isOld, isPending, rfl⟩
    · exact orderly.returned wait old time finished
    · change old.returned = some time at finished
      simp [isPending.2.1] at finished
  signals_lt := orderly.signals_lt
  released_lt wait isWait time isReleased := by
    rcases mem_serveFirst isWait with old | ⟨old, isOld, -, rfl⟩
    · exact orderly.released_lt wait old time isReleased
    · exact orderly.released_lt old isOld time isReleased

end Serve

section Pending

variable [DecidableEq Cond]

theorem pending_enter (thread : Thread) (entered cond : Cond) :
    (history.enter thread entered).pending cond =
      history.pending cond + if entered = cond then 1 else 0 := by
  simp [pending, enter, Pending, countP_cons]

theorem pending_hear (heard cond : Cond) : (history.hear heard).pending cond =
      history.pending cond := by
  simp only [pending, hear, countP_map]
  rfl

theorem pending_serve (signal : Nat) (positive : 0 < history.pending cond) :
    (history.serve cond signal).pending cond + 1 = history.pending cond :=
  serveFirst_pending history.waits positive

theorem pending_serve_of_ne {other : Cond} (differs : other ≠ cond) (signal : Nat) :
    (history.serve cond signal).pending other = history.pending other :=
  serveFirst_pending_of_ne differs history.waits

variable [DecidableEq Thread] {thread : Thread}

theorem pending_mark (cond : Cond) (same : ∀ wait ∈ history.waits, wait.OpenBy thread →
      ((change wait).Pending cond ↔ wait.Pending cond)) :
    (history.mark thread change).pending cond = history.pending cond := by
  simp only [pending, mark, countP_map]
  refine countP_congr fun wait isWait => ?_
  simp only [Function.comp_apply, decide_eq_true_eq]
  split
  next isOpen => exact same wait isWait isOpen
  next => rfl

theorem pending_release (cond : Cond) :
    (history.release thread).pending cond = history.pending cond :=
  pending_mark cond fun _ _ _ => Iff.rfl

omit [DecidableEq Cond] [DecidableEq Thread] in
/-- A wait that has had its signal is not pending before or after its return. -/
theorem pending_finish_iff {time : Nat} (served : ∀ wait ∈ history.waits, wait.OpenBy thread →
      wait.signal ≠ none) :
    ∀ wait ∈ history.waits, wait.OpenBy thread →
      (Pending cond { wait with returned := some time } ↔ wait.Pending cond) := by
  intro wait isWait isOpen
  exact ⟨fun closed => by simp [Pending] at closed,
    fun isPending => absurd isPending.2.2 (served wait isWait isOpen)⟩

theorem pending_finish (cond : Cond) (served : ∀ wait ∈ history.waits, wait.OpenBy thread →
      wait.signal ≠ none) :
    (history.finish thread).pending cond = history.pending cond :=
  pending_mark cond (pending_finish_iff served)

end Pending

section Ahead

variable [DecidableEq Cond] {cond other : Cond} {older : Nat} {waits : List (Wait Thread Cond)}

/-- With `older` pending waits before the list, a pending wait has heard fewer
signals than there were waits when it began, less the pending ones before it. -/
def Ahead (cond : Cond) : Nat → List (Wait Thread Cond) → Prop
  | _, [] => True
  | older, wait :: waits => (wait.Pending cond → wait.heard + older < wait.inside) ∧
    Ahead cond (older + if wait.Pending cond then 1 else 0) waits

theorem ahead_append {rest : List (Wait Thread Cond)} : Ahead cond older (waits ++ rest) ↔
      Ahead cond older waits ∧
        Ahead cond (older + waits.countP fun wait => wait.Pending cond) rest := by
  induction waits generalizing older with
  | nil => simp [Ahead]
  | cons head tail ih =>
    simp only [cons_append, Ahead, ih, countP_cons, decide_eq_true_eq, and_assoc]
    rw [Nat.add_right_comm, Nat.add_assoc older]

theorem ahead_map (same : ∀ wait ∈ waits, (change wait).Pending cond ↔ wait.Pending cond)
    (counts : ∀ wait ∈ waits, wait.Pending cond →
      (change wait).heard = wait.heard ∧ (change wait).inside = wait.inside) :
    Ahead cond older (waits.map change) ↔ Ahead cond older waits := by
  induction waits generalizing older with
  | nil => rfl
  | cons head tail ih =>
    simp only [map_cons, Ahead, same head mem_cons_self]
    refine and_congr (forall_congr' fun isPending => ?_)
      (ih (fun wait isWait => same wait (mem_cons_of_mem _ isWait))
        fun wait isWait => counts wait (mem_cons_of_mem _ isWait))
    rw [(counts head mem_cons_self isPending).1, (counts head mem_cons_self isPending).2]

theorem ahead_mark [DecidableEq Thread] {thread : Thread}
    (same : ∀ wait ∈ history.waits, wait.OpenBy thread →
      ((change wait).Pending cond ↔ wait.Pending cond))
    (counts : ∀ wait, (change wait).heard = wait.heard ∧ (change wait).inside = wait.inside)
    (ahead : Ahead cond older history.waits) :
    Ahead cond older (history.mark thread change).waits := by
  refine (ahead_map (fun wait isWait => ?_) fun wait _ _ => ?_).mpr ahead
  · split
    next isOpen => exact same wait isWait isOpen
    next => rfl
  · split
    next => exact counts wait
    next => exact ⟨rfl, rfl⟩

/-- A wait that has heard as many signals as there were waits has had its own. -/
theorem not_pending_of_heard (ahead : Ahead cond older waits) (isWait : wait ∈ waits)
    (heard : wait.inside ≤ wait.heard) : ¬ wait.Pending cond := by
  induction waits generalizing older with
  | nil => cases isWait
  | cons head tail ih =>
    rcases mem_cons.mp isWait with rfl | later
    · intro isPending
      have := ahead.1 isPending
      omega
    · exact ih ahead.2 later

theorem ahead_enter (ahead : ∀ cond, Ahead cond 0 history.waits) (thread : Thread) :
    Ahead other 0 (history.enter thread cond).waits := by
  refine ahead_append.mpr ⟨ahead other, ?_, trivial⟩
  intro isPending
  obtain rfl : cond = other := isPending.1
  have fewer : history.waits.countP (fun wait => wait.Pending cond) ≤
      history.waits.countP fun wait => wait.OpenOn cond := by
    refine countP_mono_left fun wait _ isPending => ?_
    simp only [decide_eq_true_eq] at isPending ⊢
    exact ⟨isPending.1, isPending.2.1⟩
  change 0 + (0 + _) < history.waits.countP (fun wait => wait.OpenOn cond) + 1
  omega

/-- A signal on a condition variable with one pending wait before the list. -/
theorem ahead_hear (ahead : Ahead cond (older + 1) waits) :
    Ahead cond older (waits.map (Wait.hear cond)) := by
  induction waits generalizing older with
  | nil => trivial
  | cons head tail ih =>
    have same : (head.hear cond).Pending cond ↔ head.Pending cond := Iff.rfl
    refine ⟨fun isPending => ?_, ih ?_⟩
    · have isOpen : head.OpenOn cond := ⟨isPending.1, isPending.2.1⟩
      have := ahead.1 isPending
      simp only [Wait.hear, if_pos isOpen]
      omega
    · simp only [same]
      rw [Nat.add_right_comm]
      exact ahead.2

theorem ahead_hear_of_ne (differs : other ≠ cond) :
    Ahead other older (waits.map (Wait.hear cond)) ↔ Ahead other older waits := by
  refine ahead_map (fun _ _ => Iff.rfl) fun wait _ isPending => ⟨if_neg ?_, rfl⟩
  intro isOpen
  exact differs (isPending.1.symm.trans isOpen.1)

/-- A signal that finds no pending wait. -/
theorem ahead_hear_of_none (none : waits.countP (fun wait => wait.Pending cond) = 0)
    (ahead : Ahead other older waits) : Ahead other older (waits.map (Wait.hear cond)) := by
  rcases eq_or_ne other cond with rfl | differs
  · have same : ∀ wait ∈ waits, (wait.hear other).Pending other ↔ wait.Pending other :=
      fun _ _ => Iff.rfl
    refine (ahead_map same fun wait isWait isPending => ?_).mpr ahead
    exact absurd (decide_eq_true isPending) (countP_eq_zero.mp none wait isWait)
  · exact (ahead_hear_of_ne differs).mpr ahead

/-- A signal that serves the oldest pending wait. -/
theorem ahead_serveFirst {signal : Nat} (ahead : Ahead other older waits) :
    Ahead other older (serveFirst cond signal (waits.map (Wait.hear cond))) := by
  induction waits generalizing older with
  | nil => trivial
  | cons head tail ih =>
    have same : ∀ cond, (head.hear cond).Pending other ↔ head.Pending other := fun _ => Iff.rfl
    rw [map_cons, serveFirst]
    split
    next isPending =>
      have served : ¬ Pending other { head.hear cond with signal := some signal } := by
        rintro ⟨-, -, ⟨⟩⟩
      refine ⟨fun isPending => absurd isPending served, ?_⟩
      rw [if_neg served]
      rcases eq_or_ne other cond with rfl | differs
      · have later := ahead.2
        rw [if_pos ((same _).mp isPending)] at later
        exact ahead_hear later
      · have notOther : ¬ head.Pending other := fun isOther =>
          differs (isOther.1.symm.trans isPending.1)
        have later := ahead.2
        rw [if_neg notOther] at later
        exact (ahead_hear_of_ne differs).mpr later
    next notPending =>
      refine ⟨fun isPending => ?_, ?_⟩
      · have apart : ¬ head.OpenOn cond := fun isOpen =>
          notPending ⟨isOpen.1, isOpen.2, isPending.2.2⟩
        simp only [Wait.hear, if_neg apart]
        exact ahead.1 isPending
      · simp only [same]
        exact ih ahead.2

end Ahead

section Current

variable [DecidableEq Thread] {thread : Thread}

/-- The open waits of a thread, each with its condition variable and with the
time at which it released the monitor. -/
def current (history : WaitHistory Thread Cond) (thread : Thread) : List (Cond × Option Nat) :=
  (history.waits.filter fun wait => wait.OpenBy thread).map fun wait =>
    (wait.cond, wait.released)

theorem mem_current {entry : Cond × Option Nat} :
    entry ∈ history.current thread ↔ ∃ wait ∈ history.waits,
      wait.OpenBy thread ∧ (wait.cond, wait.released) = entry := by
  simp only [current, mem_map, mem_filter, decide_eq_true_eq, and_assoc]

theorem current_enter [DecidableEq Cond] (entering : Thread) (cond : Cond) :
    (history.enter entering cond).current thread = history.current thread ++
        if entering = thread then [(cond, none)] else [] := by
  by_cases same : entering = thread
  · simp [current, enter, OpenBy, same]
  · simp [current, enter, OpenBy, same]

theorem current_hear [DecidableEq Cond] (cond : Cond) :
    (history.hear cond).current thread = history.current thread := by
  simp only [current, hear, filter_map, map_map]
  rfl

theorem current_mark_of_ne {marked : Thread} (differs : thread ≠ marked)
    (keepsThread : ∀ wait, (change wait).thread = wait.thread) :
    (history.mark marked change).current thread =
      history.current thread := by
  unfold current mark
  induction history.waits with
  | nil => rfl
  | cons head tail ih =>
    by_cases isMarked : head.OpenBy marked
    · have notOwn : ¬ head.OpenBy thread := fun isOwn =>
        differs (isOwn.1.symm.trans isMarked.1)
      have changedNotOwn : ¬ (change head).OpenBy thread := fun isOwn =>
        differs (isOwn.1.symm.trans ((keepsThread head).trans isMarked.1))
      simpa [isMarked, notOwn, changedNotOwn] using ih
    · by_cases isOwn : head.OpenBy thread
      · simpa [isMarked, isOwn] using ih
      · simpa [isMarked, isOwn] using ih

theorem current_release_of_ne {released : Thread} (differs : thread ≠ released) :
    (history.release released).current thread = history.current thread :=
  current_mark_of_ne differs fun _ => rfl

theorem current_finish_of_ne {finished : Thread} (differs : thread ≠ finished) :
    (history.finish finished).current thread = history.current thread :=
  current_mark_of_ne differs fun _ => rfl

theorem current_release : (history.release thread).current thread =
      (history.current thread).map fun entry =>
        (entry.1, some history.clock) := by
  unfold current release mark
  induction history.waits with
  | nil => rfl
  | cons head tail ih =>
    by_cases isOwn : head.OpenBy thread
    · have stillOwn : Wait.OpenBy thread { head with released := some history.clock } := isOwn
      simpa [isOwn, stillOwn] using ih
    · simpa [isOwn] using ih

theorem current_finish : (history.finish thread).current thread = [] := by
  unfold current finish
  rw [map_eq_nil_iff, filter_eq_nil_iff]
  intro wait isWait
  rcases mem_mark.mp isWait with ⟨-, closed⟩ | ⟨old, -, -, rfl⟩
  · simpa using closed
  · simp [OpenBy]

theorem current_serve [DecidableEq Cond] (cond : Cond) (signal : Nat) :
    (history.serve cond signal).current thread = history.current thread := by
  unfold current serve
  induction history.waits with
  | nil => rfl
  | cons head tail ih =>
    unfold serveFirst
    split
    · by_cases isOwn : head.OpenBy thread
      · have stillOwn : Wait.OpenBy thread { head with signal := some signal } := isOwn
        simp [isOwn, stillOwn]
      · have stillNotOwn : ¬ Wait.OpenBy thread { head with signal := some signal } := isOwn
        simp [isOwn, stillNotOwn]
    · by_cases isOwn : head.OpenBy thread
      · simpa [isOwn] using ih
      · simpa [isOwn] using ih

/-- A wait that has not released the monitor has had no signal. -/
theorem Orderly.unserved_of_current (orderly : history.Orderly)
    (own : history.current thread = [(cond, none)]) :
    ∀ wait ∈ history.waits, wait.OpenBy thread → wait.signal = none := by
  intro wait isWait isOpen
  have isOwn := mem_current.mpr ⟨wait, isWait, isOpen, rfl⟩
  rw [own, mem_singleton, Prod.mk.injEq] at isOwn
  cases served : wait.signal with
  | none => rfl
  | some signal =>
    obtain ⟨-, released, isReleased, -⟩ := orderly.signalled wait isWait signal served
    simp [isOwn.2] at isReleased

/-- The wait of a thread that has heard as many signals as there were waits has
had its own. -/
theorem served_of_heardAll [DecidableEq Cond] {released : Option Nat}
    (ahead : Ahead cond 0 history.waits) (own : history.current thread = [(cond, released)])
    (heardAll : history.HeardAll thread) :
    ∀ wait ∈ history.waits, wait.OpenBy thread → wait.signal ≠ none := by
  intro wait isWait isOpen unserved
  have isOwn := mem_current.mpr ⟨wait, isWait, isOpen, rfl⟩
  rw [own, mem_singleton, Prod.mk.injEq] at isOwn
  exact not_pending_of_heard ahead isWait (heardAll wait isWait isOpen)
    ⟨isOwn.1, isOpen.2, unserved⟩

end Current

end WaitHistory

end Xv6Kthreads
