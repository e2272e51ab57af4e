import Mathlib.Data.Fintype.Pi
import Xv6Kthreads.KernelState
import Xv6Kthreads.LabelledRun

/-!
# Allocating mutexes without a lock

`kthread_mutex_alloc` and `kthread_mutex_dealloc` hold no lock and can be
preempted anywhere.  Here every test that they make on the mutex table is a step
of its own, and so is every store to a mutex's state; the three stores that fill
a new mutex are one step, since the calls test only its id among them.  Two
calls that act on one entry at the same time can return the same id; calls that
keep out of each other's entries cannot.
-/

namespace Xv6Kthreads

namespace MutexAllocation

open LabelledRun Function

/-- What a call has returned: the id of a new mutex, or the success of
`kthread_mutex_dealloc` on an id. -/
inductive Event where
  | allocated (id : Int)
  | deallocated (id : Int)
  deriving DecidableEq, Repr

/-- The last event with the id was its allocation.  The latest event comes
first. -/
def live (id : Int) : List Event → Bool
  | [] => false
  | .allocated other :: earlier => decide (other = id) || live id earlier
  | .deallocated other :: earlier => decide (other ≠ id) && live id earlier

def Fresh : List Event → Prop
  | [] => True
  | .allocated id :: earlier => live id earlier = false ∧ Fresh earlier
  | .deallocated _ :: earlier => Fresh earlier

theorem deallocated_mem {id : Int} {between earlier : List Event}
    (dead : live id (between ++ .allocated id :: earlier) = false) :
    .deallocated id ∈ between := by
  induction between with
  | nil => simp [live] at dead
  | cons event between ih =>
    cases event with
    | allocated other =>
      rw [List.cons_append, live, Bool.or_eq_false_iff] at dead
      exact List.mem_cons_of_mem _ (ih dead.2)
    | deallocated other =>
      by_cases same : other = id
      · rw [same]
        exact List.mem_cons_self
      · rw [List.cons_append, live, decide_eq_true same, Bool.true_and] at dead
        exact List.mem_cons_of_mem _ (ih dead)

theorem Fresh.of_append {later earlier : List Event} (fresh : Fresh (later ++ earlier)) :
    Fresh earlier := by
  induction later with
  | nil => exact fresh
  | cons event later ih =>
    cases event with
    | allocated id => exact ih fresh.2
    | deallocated id => exact ih fresh

/-- Where a thread is: in the loop of one of the two calls, or about to access
the entry that it has chosen. -/
inductive Place where
  | outside
  | scan (index : Nat)
  | claim (index : MutexId)
  | fill (index : MutexId)
  | answer (index : MutexId)
  | search (id : Int) (index : Nat)
  | checkState (id : Int) (index : MutexId)
  | checkLocked (id : Int) (index : MutexId)
  | free (id : Int) (index : MutexId)
  | clear (id : Int) (index : MutexId)
  deriving DecidableEq, Repr

def Place.entry : Place → Option MutexId
  | .outside | .scan _ | .search _ _ => none
  | .claim index | .fill index | .answer index => some index
  | .checkState _ index | .checkLocked _ index => some index
  | .free _ index | .clear _ index => some index

structure State (Thread : Type*) where
  mutex : MutexId → KthreadMutex Thread
  place : Thread → Place
  history : List Event

inductive Label (Thread : Type*) where
  | alloc (thread : Thread)
  | dealloc (thread : Thread) (id : Int)
  /-- The next access of a call. -/
  | access (thread : Thread)
  /-- The other mutex calls lock and unlock mutexes. -/
  | setLocked (index : MutexId) (locked : Bool)

variable {Thread : Type*} [DecidableEq Thread]

namespace State

variable (state : State Thread)

def goTo (thread : Thread) (place : Place) : State Thread :=
  { state with place := update state.place thread place }

def setMutex (index : MutexId) (mutex : KthreadMutex Thread) : State Thread :=
  { state with mutex := update state.mutex index mutex }

def record (event : Event) : State Thread :=
  { state with history := event :: state.history }

/-- One access of `kthread_mutex_alloc` or `kthread_mutex_dealloc`. -/
def access (thread : Thread) : Place → State Thread
  | .outside => state
  | .scan index =>
    if inside : index < MAX_MUTEXES then
      if (state.mutex ⟨index, inside⟩).state = .unusedMutex then
        state.goTo thread (.claim ⟨index, inside⟩)
      else
        state.goTo thread (.scan (index + 1))
    else
      state.goTo thread .outside
  | .claim index =>
    (state.setMutex index { state.mutex index with state := .usedMutex }).goTo thread (.fill index)
  | .fill index =>
    (state.setMutex index
      { state.mutex index with
        id := index.val
        last := 0
        first := ⟨0, nthread_pos⟩ }).goTo thread (.answer index)
  | .answer index =>
    if (state.mutex index).id = -1 then state.goTo thread .outside
    else (state.record (.allocated (state.mutex index).id)).goTo thread .outside
  | .search id index =>
    if inside : index < MAX_MUTEXES then
      if (state.mutex ⟨index, inside⟩).id = id then
        state.goTo thread (.checkState id ⟨index, inside⟩)
      else
        state.goTo thread (.search id (index + 1))
    else
      state.goTo thread .outside
  | .checkState id index =>
    if (state.mutex index).state = .usedMutex then
      state.goTo thread (.checkLocked id index)
    else
      state.goTo thread .outside
  | .checkLocked id index =>
    if (state.mutex index).locked then state.goTo thread .outside
    else state.goTo thread (.free id index)
  | .free id index =>
    (state.setMutex index { state.mutex index with state := .unusedMutex }).goTo thread
        (.clear id index)
  | .clear id index =>
    ((state.setMutex index { state.mutex index with id := -1 }).record
      (.deallocated id)).goTo thread .outside

def step : Label Thread → Option (State Thread)
  | .alloc thread =>
    if state.place thread = .outside then
      some (state.goTo thread (.scan 0))
    else
      none
  | .dealloc thread id =>
    if state.place thread = .outside then
      some (state.goTo thread (.search id 0))
    else
      none
  | .access thread => some (state.access thread (state.place thread))
  | .setLocked index locked =>
    some (state.setMutex index { state.mutex index with locked := locked })

/-- The thread is in one of the loops, looks at an entry and chooses it. -/
def Chooses (thread : Thread) (index : MutexId) : Prop :=
  match state.place thread with
  | .scan position => position = index.val ∧
      (state.mutex index).state = .unusedMutex
  | .search id position => position = index.val ∧ (state.mutex index).id = id
  | _ => False

instance (thread : Thread) (index : MutexId) : Decidable (state.Chooses thread index) := by
  unfold Chooses
  split <;> infer_instance

/-- Nobody chooses an entry that another thread has chosen. -/
def Exclusive (label : Label Thread) : Prop :=
  match label with
  | .access thread => ∀ other index, state.Chooses thread index →
      (state.place other).entry ≠ some index
  | _ => True

instance [Fintype Thread] (label : Label Thread) : Decidable (state.Exclusive label) := by
  unfold Exclusive
  split <;> infer_instance

end State

def Settled (index : MutexId) (mutex : KthreadMutex Thread) (isLive : Bool) : Prop :=
  match mutex.state with
  | .unusedMutex => isLive = false
  | .usedMutex => mutex.id = index.val ∧ isLive = true

/-- An entry and the place of the thread that has chosen it. -/
def Place.Fits (index : MutexId) (mutex : KthreadMutex Thread) (isLive : Bool) : Place → Prop
  | .outside | .scan _ | .search _ _ => Settled index mutex isLive
  | .claim _ => mutex.state = .unusedMutex ∧ isLive = false
  | .fill _ => mutex.state = .usedMutex ∧ isLive = false
  | .answer _ => mutex.state = .usedMutex ∧ mutex.id = index.val ∧ isLive = false
  | .checkState id _ => mutex.id = id ∧ Settled index mutex isLive
  | .checkLocked id _ | .free id _ => id = index.val ∧
      mutex.state = .usedMutex ∧ mutex.id = index.val ∧ isLive = true
  | .clear id _ => id = index.val ∧ mutex.state = .unusedMutex ∧ isLive = true

/-- What holds as long as nobody chooses a chosen entry; `holder` is the thread
that has chosen an entry. -/
structure Sound (state : State Thread) (holder : MutexId → Option Thread) : Prop where
  holds : ∀ thread index, (state.place thread).entry = some index ↔ holder index = some thread
  fits : ∀ index, ((holder index).elim .outside state.place).Fits index
    (state.mutex index) (live index.val state.history)
  fresh : Fresh state.history

variable {state after : State Thread} {holder : MutexId → Option Thread}
  {thread : Thread} {index : MutexId} {place : Place}

theorem Sound.pass (sound : Sound state holder)
    (before : (state.place thread).entry = none) (next : place.entry = none) :
    Sound (state.goTo thread place) holder := by
  have absent : ∀ index, holder index ≠ some thread := by
    intro index isHolder
    rw [← sound.holds, before] at isHolder
    cases isHolder
  refine ⟨?_, ?_, sound.fresh⟩
  · intro other index
    simp only [State.goTo, ← sound.holds, update_apply]
    grind
  · intro index
    have fits := sound.fits index
    cases isHolder : holder index with
    | none => simpa [isHolder, State.goTo] using fits
    | some other =>
      have differs : other ≠ thread := fun same =>
        absent index (same ▸ isHolder)
      simpa [isHolder, State.goTo, differs] using fits

/-- The thread that holds an entry, or one that chooses an entry which nobody
holds, makes an access to it and keeps the entry or gives it up. -/
theorem Sound.act (sound : Sound state holder)
    (own : ∀ other, holder index = some other → other = thread)
    (only : ∀ entry, holder entry = some thread → entry = index)
    (goes : after.place = update state.place thread place)
    (next : ∀ entry, place.entry = some entry → entry = index)
    (rest : ∀ other, other ≠ index → after.mutex other = state.mutex other ∧
        live other.val after.history = live other.val state.history)
    (fits : place.Fits index (after.mutex index) (live index.val after.history))
    (fresh : Fresh after.history) : ∃ holder, Sound after holder := by
  refine ⟨update holder index (place.entry.map fun _ => thread), ?_, ?_, fresh⟩
  · intro other entry
    have holds := sound.holds other entry
    rw [goes, update_apply, update_apply]
    cases isEntry : place.entry <;> grind
  · intro entry
    rcases eq_or_ne entry index with rfl | same
    · rw [update_self, goes]
      cases place <;> simpa [Place.entry, Place.Fits] using fits
    · have kept := sound.fits entry
      rw [update_of_ne same, (rest entry same).1, (rest entry same).2, goes]
      cases isHolder : holder entry with
      | none => simpa [isHolder] using kept
      | some other =>
        have differs : other ≠ thread := fun isThread =>
          same (only entry (isThread ▸ isHolder))
        simpa [isHolder, differs] using kept

theorem live_other {event : Event} {id : Int} {history : List Event}
    (differs : event ≠ .allocated id ∧ event ≠ .deallocated id) :
    live id (event :: history) = live id history := by
  cases event <;> grind [live]

section

variable (sound : Sound state holder)

include sound

theorem Sound.accessChosen (chosen : (state.place thread).entry = some index) :
    ∃ holder, Sound (state.access thread (state.place thread)) holder := by
  have isHolder := (sound.holds thread index).mp chosen
  have fits := sound.fits index
  rw [isHolder, Option.elim_some] at fits
  have own : ∀ other, holder index = some other → other = thread :=
    fun other holds => Option.some.inj (holds.symm.trans isHolder)
  have only : ∀ entry, holder entry = some thread → entry = index := by
    intro entry holds
    rw [← sound.holds, chosen] at holds
    exact (Option.some.inj holds).symm
  have differs : ∀ {other : MutexId}, other ≠ index → (index.val : Int) ≠ other.val := by
    intro other apart same
    exact apart (Fin.ext (by omega))
  cases isAt : state.place thread with
  | outside | scan | search =>
    rw [isAt] at chosen
    cases chosen
  | claim entry | fill entry | free _ entry =>
    rw [isAt] at chosen fits
    cases chosen
    refine sound.act own only rfl ?_ (fun other apart =>
      ⟨update_of_ne apart _ _, rfl⟩) ?_ sound.fresh
    · simp [Place.entry]
    · simp_all [State.access, State.setMutex, State.goTo, Place.Fits]
  | answer entry =>
    rw [isAt] at chosen fits
    cases chosen
    obtain ⟨used, isId, notLive⟩ := fits
    simp only [State.access, isId]
    refine sound.act own only rfl ?_ (fun other apart =>
      ⟨rfl, live_other ?_⟩) ?_ ⟨notLive, sound.fresh⟩
    · simp [Place.entry]
    · simp [differs apart]
    · simp [Place.Fits, Settled, State.record, State.goTo, live, used, isId]
  | clear id entry =>
    rw [isAt] at chosen fits
    cases chosen
    obtain ⟨rfl, unused, isLive⟩ := fits
    simp only [State.access]
    refine sound.act own only rfl ?_ (fun other apart =>
      ⟨update_of_ne apart _ _, live_other ?_⟩) ?_ sound.fresh
    · simp [Place.entry]
    · simp [differs apart]
    · simp [Place.Fits, Settled, State.setMutex, State.record, State.goTo, live, unused]
  | checkState id entry | checkLocked id entry =>
    rw [isAt] at chosen fits
    cases chosen
    simp only [State.access]
    split
    all_goals
      refine sound.act own only rfl ?_ (fun _ _ => ⟨rfl, rfl⟩) ?_ sound.fresh
      · simp [Place.entry]
      · simp only [State.goTo]
        grind [Place.Fits, Settled]

theorem Sound.choose (exclusive : state.Exclusive (.access thread))
    (chooses : state.Chooses thread index) (next : place.entry = some index)
    (before : (state.place thread).entry = none)
    (fits : Settled index (state.mutex index) (live index.val state.history) →
      place.Fits index (state.mutex index) (live index.val state.history)) :
    ∃ holder, Sound (state.goTo thread place) holder := by
  have nobody : holder index = none := by
    cases isHolder : holder index with
    | none => rfl
    | some other =>
      have held := (sound.holds other index).mpr isHolder
      exact absurd held (exclusive other index chooses)
  have settled := sound.fits index
  rw [nobody, Option.elim_none] at settled
  refine sound.act ?_ ?_ rfl ?_ (fun _ _ => ⟨rfl, rfl⟩) (fits settled) sound.fresh
  · simp [nobody]
  · simp [← sound.holds, before]
  · simp [next]

theorem Sound.access (exclusive : state.Exclusive (.access thread)) :
    ∃ holder, Sound (state.access thread (state.place thread)) holder := by
  cases chosen : (state.place thread).entry with
  | some index => exact sound.accessChosen chosen
  | none =>
    cases isAt : state.place thread with
    | outside => exact ⟨holder, sound⟩
    | scan position =>
      simp only [State.access]
      split
      next inside =>
        split
        next unused =>
          have chooses : state.Chooses thread ⟨position, inside⟩ := by
            simp [State.Chooses, isAt, unused]
          refine sound.choose exclusive chooses rfl chosen fun settled => ⟨unused, ?_⟩
          simpa [Settled, unused] using settled
        next => exact ⟨holder, sound.pass chosen rfl⟩
      next => exact ⟨holder, sound.pass chosen rfl⟩
    | search id position =>
      simp only [State.access]
      split
      next inside =>
        split
        next isId =>
          have chooses : state.Chooses thread ⟨position, inside⟩ := by
            simp [State.Chooses, isAt, isId]
          exact sound.choose exclusive chooses rfl chosen fun settled => ⟨isId, settled⟩
        next => exact ⟨holder, sound.pass chosen rfl⟩
      next => exact ⟨holder, sound.pass chosen rfl⟩
    | _ =>
      rw [isAt] at chosen
      cases chosen

omit [DecidableEq Thread] in
theorem Sound.setLocked (index : MutexId) (locked : Bool) : Sound (state.setMutex index
      { state.mutex index with locked }) holder := by
  refine ⟨sound.holds, ?_, sound.fresh⟩
  intro entry
  have fits := sound.fits entry
  simp only [State.setMutex, update_apply]
  split
  next same =>
    subst same
    generalize (holder entry).elim .outside state.place = place at fits ⊢
    cases place <;> exact fits
  next => exact fits

theorem Sound.step {label : Label Thread} (exclusive : state.Exclusive label)
    (stepTo : state.step label = some after) :
    ∃ holder, Sound after holder := by
  cases label with
  | alloc thread | dealloc thread _ =>
    simp only [State.step] at stepTo
    split at stepTo <;> cases stepTo
    next outside => exact ⟨holder, sound.pass (by rw [outside]; rfl) rfl⟩
  | access thread =>
    cases stepTo
    exact sound.access exclusive
  | setLocked index locked =>
    cases stepTo
    exact ⟨holder, sound.setLocked index locked⟩

end

/-- In a run in which no thread chooses an entry that another one has chosen,
an id that two calls return has been deallocated in between. -/
theorem mutex_ids_not_shared (start : State Thread) (reaches : GuardedReaches State.step
      State.Exclusive start state)
    (unused : ∀ index, (start.mutex index).state = .unusedMutex)
    (outside : ∀ thread, start.place thread = .outside)
    (first : start.history = []) {id : Int}
    {later between earlier : List Event}
    (twice : state.history = later ++ .allocated id :: (between ++ .allocated id :: earlier)) :
    .deallocated id ∈ between := by
  have initially : Sound start fun _ => none := by
    refine ⟨?_, ?_, ?_⟩
    · simp [outside, Place.entry]
    · simp [Place.Fits, Settled, unused, first, live]
    · rw [first]
      trivial
  obtain ⟨holder, sound⟩ := reaches.invariant
    (fun state => ∃ holder, Sound state holder) ⟨_, initially⟩
    fun before label next sound exclusive stepTo =>
      sound.elim fun _ sound => sound.step exclusive stepTo
  have fresh := sound.fresh
  rw [twice] at fresh
  exact deallocated_mem fresh.of_append.1

def boot : State (Fin 2) where
  mutex _ := .zeroed
  place _ := .outside
  history := []

/-- The first thread allocates a mutex and gives it back, then the second one
allocates a mutex. -/
def oneAfterTheOther (first second : Fin 2) : List (Label (Fin 2)) :=
  .alloc first :: List.replicate 4 (.access first) ++
    .dealloc first 0 :: List.replicate 5 (.access first) ++
      .alloc second :: List.replicate 4 (.access second)

theorem mutex_ids_not_shared_oneAfterTheOther : ∃ state : State (Fin 2), state.history =
        [] ++ .allocated 0 :: ([.deallocated 0] ++ .allocated 0 :: []) ∧
      .deallocated 0 ∈ [Event.deallocated 0] := by
  obtain ⟨state, run, twice⟩ : ∃ state ∈ runLabels (restrict State.step State.Exclusive) boot
      (oneAfterTheOther 0 1), state.history =
        [] ++ .allocated 0 :: ([.deallocated 0] ++ .allocated 0 :: []) := by
    decide +kernel
  exact ⟨state, twice, mutex_ids_not_shared boot
    (guardedReaches_of_runLabels _ run) (fun _ => rfl) (fun _ => rfl) rfl
    twice⟩

/-- Both threads find the first entry unused before either has stored
`USED_MUTEX`. -/
def bothFindIt (first second : Fin 2) : List (Label (Fin 2)) :=
  [.alloc first, .alloc second, .access first, .access second] ++
    List.replicate 3 (.access first) ++ List.replicate 3 (.access second)

/-- Two threads get the same mutex. -/
theorem mutex_ids_shared : ∃ state : State (Fin 2), Reaches State.step boot state ∧
      state.history = [.allocated 0, .allocated 0] := by
  exact exists_reaches (bothFindIt 0 1) (by decide +kernel)

end MutexAllocation

end Xv6Kthreads
