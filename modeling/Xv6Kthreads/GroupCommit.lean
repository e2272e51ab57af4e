import Mathlib.Algebra.Order.BigOperators.Group.Finset
import Mathlib.Data.Fintype.Basic
import Mathlib.Data.Finset.Card
import Xv6Kthreads.LabelledRun
import Xv6Kthreads.LogCalls

/-!
# Group commit

Any number of threads call `begin_op`, `log_write` and `end_op`.  The thread
that ends the last operation commits for all of them, without the lock and in
several steps, while others may ask for admission and go to sleep.  This file
follows every thread through these calls, without a bound on what an operation
logs, and shows that a commit is isolated: nobody is inside an operation while
it runs, and whoever sleeps in `begin_op` will be woken by it or by an
operation.
-/

namespace Xv6Kthreads

namespace GroupCommit

open BufferCache LogCalls LabelledRun Function

inductive CommitStage where
  | test
  | writeLog
  | writeHead
  | installTrans
  | clear
  | eraseHead
  | finished
  deriving DecidableEq, Repr

/-- Where a thread is: outside the log, waiting in `begin_op`, inside an
operation, or in `commit`. -/
inductive Place where
  | away
  | waiting (asleep : Bool)
  | inOp (writing : Option Nat)
  | commits (stage : CommitStage)
  deriving DecidableEq, Repr

namespace Place

def wake : Place → Place
  | .waiting _ => .waiting false
  | place => place

def inside : Place → Bool
  | .inOp _ => true
  | _ => false

def stage : Place → Option CommitStage
  | .commits stage => some stage
  | _ => none

def asleep : Place → Bool
  | .waiting asleep => asleep
  | _ => false

@[simp]
theorem inside_wake (place : Place) : place.wake.inside = place.inside := by
  cases place <;> rfl

@[simp]
theorem stage_wake (place : Place) : place.wake.stage = place.stage := by
  cases place <;> rfl

@[simp]
theorem asleep_wake (place : Place) : place.wake.asleep = false := by
  cases place <;> rfl

end Place

structure State (Thread : Type*) where
  log : Log
  place : Thread → Place
  panic : Option Panic

inductive Label (Thread : Type*) where
  /-- A thread calls `begin_op`, or it has been woken in it. -/
  | beginOp (thread : Thread)
  /-- The checks of `log_write`. -/
  | logWrite (thread : Thread) (sector : Nat)
  /-- The section of `log_write`. -/
  | append (thread : Thread)
  /-- The first section of `end_op`. -/
  | endOp (thread : Thread)
  /-- A step of `commit`. -/
  | commit (thread : Thread)
  /-- The second section of `end_op`. -/
  | committed (thread : Thread)

namespace State

variable {Thread : Type*} [DecidableEq Thread] (state : State Thread)

def setPlace (thread : Thread) (place : Place) : State Thread :=
  { state with place := update state.place thread place }

def wakeup : State Thread :=
  { state with place := fun thread => (state.place thread).wake }

def begin (thread : Thread) : State Thread :=
  match state.log.beginOp with
  | none => state.setPlace thread (.waiting true)
  | some log => { state with log := log }.setPlace thread (.inOp none)

/-- The section of `log_write`.  `lh.sector` ends `struct log`, so that an entry
behind it leaves the other fields as they are. -/
def appendSector (log : Log) (sector : Nat) : Log :=
  (log.logWriteAppend sector).getD { log with sectors := log.sectors ++ [sector] }

def commit (thread : Thread) : CommitStage → Option (State Thread)
  | .test =>
    if state.log.sectors.length > 0 then
      some (state.setPlace thread (.commits .writeLog))
    else
      some (state.setPlace thread (.commits .finished))
  | .writeLog => some (state.setPlace thread (.commits .writeHead))
  | .writeHead => some (state.setPlace thread (.commits .installTrans))
  | .installTrans => some (state.setPlace thread (.commits .clear))
  | .clear =>
    some ({ state with log := state.log.clear }.setPlace thread (.commits .eraseHead))
  | .eraseHead => some (state.setPlace thread (.commits .finished))
  | .finished => none

def act : Label Thread → Option (State Thread)
  | .beginOp thread =>
    match state.place thread with
    | .away => some (state.begin thread)
    | .waiting false => some (state.begin thread)
    | _ => none
  | .logWrite thread sector =>
    match state.place thread with
    | .inOp none =>
      match state.log.logWriteCheck with
      | some panic => some { state with panic := some panic }
      | none => some (state.setPlace thread (.inOp (some sector)))
    | _ => none
  | .append thread =>
    match state.place thread with
    | .inOp (some sector) =>
      some ({ state with log := appendSector state.log sector }.setPlace
        thread (.inOp none))
    | _ => none
  | .endOp thread =>
    match state.place thread with
    | .inOp none =>
      match state.log.endOp with
      | .panics panic => some { state with panic := some panic }
      | .leaves log => some ({ state with log := log }.wakeup.setPlace thread .away)
      | .commits log =>
        some ({ state with log := log }.setPlace thread
          (.commits .test))
    | _ => none
  | .commit thread =>
    match state.place thread with
    | .commits stage => state.commit thread stage
    | _ => none
  | .committed thread =>
    match state.place thread with
    | .commits .finished =>
      some ({ state with log := state.log.committed }.wakeup.setPlace
        thread .away)
    | _ => none

def step (label : Label Thread) : Option (State Thread) :=
  if state.panic.isSome then none else state.act label

structure Initial (state : State Thread) : Prop where
  outstanding : state.log.outstanding = 0
  committing : state.log.committing = false
  sectors : state.log.sectors = []
  place : ∀ thread, state.place thread = .away
  panic : state.panic = none

end State

section Isolation

variable {Thread : Type*} [DecidableEq Thread] [Fintype Thread]

/-- The threads that are between `begin_op` and `end_op`. -/
def operations (state : State Thread) : Finset Thread :=
  Finset.univ.filter fun thread => (state.place thread).inside = true

structure Isolated (state : State Thread) : Prop where
  outstanding : state.log.outstanding = (operations state).card
  committing : state.log.committing = true ↔ ∃ thread, (state.place thread).stage ≠ none
  quiet : state.log.committing = true → operations state = ∅
  single : ∀ first second, (state.place first).stage ≠ none →
    (state.place second).stage ≠ none → first = second
  cleared : ∀ thread, (state.place thread).stage = some .eraseHead ∨
    (state.place thread).stage = some .finished → state.log.sectors = []
  nodup : state.log.sectors.Nodup
  pending : state.log.sectors ≠ [] → state.log.committing = true ∨ 0 < state.log.outstanding
  waiting : ∀ thread, (state.place thread).asleep = true →
    state.log.committing = true ∨ 0 < state.log.outstanding
  panic : state.panic = none ∨ state.panic = some .tooBigTransaction

variable {state next : State Thread} {thread : Thread}

omit [DecidableEq Thread] in
@[simp]
theorem mem_operations : thread ∈ operations state ↔ (state.place thread).inside = true := by
  simp [operations]

structure Moves (thread : Thread) (state next : State Thread) : Prop where
  inside : ∀ other, other ≠ thread → (next.place other).inside = (state.place other).inside
  stage : ∀ other, other ≠ thread → (next.place other).stage = (state.place other).stage
  asleep : ∀ other, other ≠ thread → (next.place other).asleep = true →
    (state.place other).asleep = true

section

variable (state : State Thread) (thread : Thread) (log : Log) (place : Place)

omit [Fintype Thread]

theorem moves_setPlace :
    Moves thread state ({ state with log }.setPlace thread place) := by
  have same : ∀ other, other ≠ thread →
      ({ state with log }.setPlace thread place).place other =
        state.place other :=
    fun other differs => update_of_ne differs _ _
  refine ⟨?_, ?_, ?_⟩
  · intro other differs
    rw [same other differs]
  · intro other differs
    rw [same other differs]
  · intro other differs
    rw [same other differs]
    exact id

theorem moves_wakeup :
    Moves thread state ({ state with log }.wakeup.setPlace thread place) := by
  have same : ∀ other, other ≠ thread →
      ({ state with log }.wakeup.setPlace thread place).place other =
        (state.place other).wake :=
    fun other differs => update_of_ne differs _ _
  refine ⟨?_, ?_, ?_⟩
  · intro other differs
    rw [same other differs, Place.inside_wake]
  · intro other differs
    rw [same other differs, Place.stage_wake]
  · intro other differs
    rw [same other differs, Place.asleep_wake]
    simp

theorem exists_setPlace :
    ∃ next, ({ state with log } : State Thread).setPlace thread place = next ∧
      Moves thread state next ∧ next.log = log ∧ next.place thread = place ∧
      next.panic = state.panic :=
  ⟨_, rfl, moves_setPlace state thread log place, rfl, update_self _ _ _, rfl⟩

theorem exists_wakeup :
    ∃ next, ({ state with log } : State Thread).wakeup.setPlace thread place = next ∧
      Moves thread state next ∧ next.log = log ∧ next.place thread = place ∧
      next.panic = state.panic :=
  ⟨_, rfl, moves_wakeup state thread log place, rfl, update_self _ _ _, rfl⟩

end

section

variable (moves : Moves thread state next)

include moves

omit [DecidableEq Thread] [Fintype Thread] in
theorem Moves.committer (own : (next.place thread).stage = none) {other : Thread}
    (commits : (next.place other).stage ≠ none) :
    other ≠ thread ∧ (state.place other).stage ≠ none := by
  have differs : other ≠ thread := by
    rintro rfl
    exact commits own
  rw [moves.stage other differs] at commits
  exact ⟨differs, commits⟩

/-- The operations do not change if the thread stays inside or outside. -/
theorem Moves.operations_eq (own : (next.place thread).inside = (state.place thread).inside) :
    operations next = operations state := by
  ext other
  rw [mem_operations, mem_operations]
  by_cases same : other = thread
  · rw [same, own]
  · rw [moves.inside other same]

theorem Moves.operations_insert (own : (next.place thread).inside = true) :
    operations next = insert thread (operations state) := by
  ext other
  by_cases same : other = thread
  · simp [same, own]
  · simp [same, moves.inside other same]

theorem Moves.operations_erase (own : (next.place thread).inside = false) :
    operations next = (operations state).erase thread := by
  ext other
  by_cases same : other = thread
  · simp [same, own]
  · simp [same, moves.inside other same]

omit [Fintype Thread] in
/-- A thread that is inside an operation or outside the log does not commit;
its step changes no stage. -/
theorem Moves.stages (before : (state.place thread).stage = none)
    (after : (next.place thread).stage = none) (other : Thread) :
    (next.place other).stage = (state.place other).stage := by
  by_cases same : other = thread
  · rw [same, before, after]
  · exact moves.stage other same

end

omit [DecidableEq Thread] in
theorem isolated_of_idle (nobody : ∀ thread, (state.place thread).stage = none)
    (awake : ∀ thread, (state.place thread).asleep = false)
    (committing : state.log.committing = false) (sectors : state.log.sectors = [])
    (outstanding : state.log.outstanding = (operations state).card)
    (panic : state.panic = none ∨ state.panic = some .tooBigTransaction) : Isolated state := by
  refine ⟨outstanding, ?_, ?_, ?_, fun _ _ => sectors, ?_, fun used => absurd sectors used, ?_,
    panic⟩
  · rw [committing]
    refine ⟨fun impossible => (Bool.false_ne_true impossible).elim, ?_⟩
    rintro ⟨thread, isCommitting⟩
    exact absurd (nobody thread) isCommitting
  · rw [committing]
    intro impossible
    cases impossible
  · intro first second isFirst
    exact absurd (nobody first) isFirst
  · rw [sectors]
    exact List.nodup_nil
  · intro thread asleep
    rw [awake] at asleep
    cases asleep

omit [DecidableEq Thread] in
theorem isolated_of_committer {stage : CommitStage} (own : state.place thread = .commits stage)
    (others : ∀ other, (state.place other).stage ≠ none → other = thread)
    (committing : state.log.committing = true)
    (outstanding : state.log.outstanding = (operations state).card) (quiet : operations state = ∅)
    (cleared : stage = .eraseHead ∨ stage = .finished → state.log.sectors = [])
    (nodup : state.log.sectors.Nodup)
    (panic : state.panic = none ∨ state.panic = some .tooBigTransaction) : Isolated state := by
  have ownStage : (state.place thread).stage = some stage := by
    rw [own]
    rfl
  refine ⟨outstanding, ?_, fun _ => quiet, ?_, ?_, nodup, fun _ => Or.inl committing,
    fun _ _ => Or.inl committing, panic⟩
  · exact ⟨fun _ => ⟨thread, by simp [ownStage]⟩, fun _ => committing⟩
  · intro first second isFirst isSecond
    rw [others first isFirst, others second isSecond]
  · intro other late
    have isOwn : other = thread := by
      apply others
      rcases late with late | late
      · simp [late]
      · simp [late]
    rw [isOwn, ownStage] at late
    apply cleared
    rcases late with late | late
    · exact Or.inl (Option.some.inj late)
    · exact Or.inr (Option.some.inj late)

section

variable (isolated : Isolated state)

include isolated

theorem Isolated.of_moves (moves : Moves thread state next)
    (before : (state.place thread).stage = none)
    (after : (next.place thread).stage = none)
    (committing : next.log.committing = state.log.committing)
    (outstanding : next.log.outstanding = (operations next).card)
    (quiet : next.log.committing = true → operations next = ∅)
    (sectors : state.log.committing = true →
      next.log.sectors = state.log.sectors)
    (nodup : next.log.sectors.Nodup)
    (pending : next.log.sectors ≠ [] →
      next.log.committing = true ∨ 0 < next.log.outstanding)
    (waiting : ∀ other, (next.place other).asleep = true →
      next.log.committing = true ∨ 0 < next.log.outstanding)
    (panic : next.panic = none ∨ next.panic = some .tooBigTransaction) :
    Isolated next := by
  have stages := moves.stages before after
  refine ⟨outstanding, ?_, quiet, ?_, ?_, nodup, pending, waiting, panic⟩
  · rw [committing, isolated.committing]
    simp only [stages]
  · intro first second
    rw [stages, stages]
    exact isolated.single first second
  · intro other late
    rw [stages] at late
    have commits : state.log.committing = true := by
      apply isolated.committing.mpr
      refine ⟨other, ?_⟩
      rcases late with late | late
      · simp [late]
      · simp [late]
    rw [sectors commits]
    exact isolated.cleared other late

/-- A commit that has not begun to clear the log, or has cleared it. -/
theorem Isolated.of_commit (moves : Moves thread state next) {stage : CommitStage}
    (before : (state.place thread).stage ≠ none)
    (after : next.place thread = .commits stage)
    (committing : next.log.committing = state.log.committing)
    (outstanding : next.log.outstanding = state.log.outstanding)
    (sectors : next.log.sectors = state.log.sectors ∨ next.log.sectors = [])
    (cleared : stage = .eraseHead ∨ stage = .finished →
      next.log.sectors = [])
    (panic : next.panic = state.panic) : Isolated next := by
  have commits : state.log.committing = true := isolated.committing.mpr ⟨thread, before⟩
  have outside : (state.place thread).inside = false := by
    cases place : state.place thread with
    | away => rfl
    | waiting asleep => rfl
    | inOp writing => simp [place, Place.stage] at before
    | commits stage => rfl
  have same : operations next = operations state := by
    apply moves.operations_eq
    rw [after, outside]
    rfl
  have others : ∀ other, (next.place other).stage ≠ none → other = thread := by
    intro other isCommitting
    by_contra differs
    rw [moves.stage other differs] at isCommitting
    exact differs (isolated.single other thread isCommitting before)
  refine isolated_of_committer after others (committing.trans commits) ?_ ?_ cleared ?_ ?_
  · rw [outstanding, same]
    exact isolated.outstanding
  · rw [same]
    exact isolated.quiet commits
  · rcases sectors with kept | empty
    · rw [kept]
      exact isolated.nodup
    · rw [empty]
      exact List.nodup_nil
  · rw [panic]
    exact isolated.panic

omit [DecidableEq Thread] in
/-- A caller that `begin_op` puts to sleep waits for a commit or an
operation. -/
theorem Isolated.refused (refused : state.log.beginOp = none) :
    state.log.committing = true ∨ 0 < state.log.outstanding := by
  by_cases used : state.log.sectors = []
  · unfold Log.beginOp at refused
    split at refused
    next commits => exact Or.inl commits
    next =>
      split at refused
      next tooMany =>
        right
        rw [used] at tooMany
        by_contra none
        have zero : state.log.outstanding = 0 := by omega
        rw [zero] at tooMany
        simp [maxOpBlocks, logSize] at tooMany
      next => cases refused
  · exact isolated.pending used

theorem Isolated.begin (outside : (state.place thread).inside = false)
    (idle : (state.place thread).stage = none) :
    Isolated (state.begin thread) := by
  unfold State.begin
  cases begun : state.log.beginOp with
  | none =>
    have moves := moves_setPlace state thread state.log (.waiting true)
    have own : (state.setPlace thread (.waiting true)).place thread =
        .waiting true := update_self _ _ _
    have same : operations (state.setPlace thread (.waiting true)) =
        operations state := by
      apply moves.operations_eq
      rw [outside]
      change ((state.setPlace thread (.waiting true)).place thread).inside = _
      rw [own]
      rfl
    refine isolated.of_moves moves idle ?_ rfl ?_ ?_ (fun _ => rfl)
      isolated.nodup isolated.pending ?_ isolated.panic
    · rw [own]
      rfl
    · rw [same]
      exact isolated.outstanding
    · rw [same]
      exact isolated.quiet
    · intro other asleep
      by_cases isOwn : other = thread
      · exact isolated.refused begun
      · exact isolated.waiting other (moves.asleep other isOwn asleep)
  | some log =>
    obtain ⟨notCommitting, -, rfl⟩ := Log.beginOp_eq_some_iff.mp begun
    dsimp only
    obtain ⟨next, isNext, moves, log, own, panic⟩ := exists_setPlace state thread
      { state.log with outstanding := state.log.outstanding + 1 } (.inOp none)
    rw [isNext]
    have more : operations next = insert thread (operations state) :=
      moves.operations_insert (by rw [own]; rfl)
    refine isolated.of_moves moves idle (by rw [own]; rfl) (by rw [log])
      ?_ ?_ ?_ ?_ ?_ ?_ (by rw [panic]; exact isolated.panic)
    · rw [more, log, Finset.card_insert_of_notMem]
      · exact congrArg (· + 1) isolated.outstanding
      · rw [mem_operations, outside]
        simp
    · rw [log]
      intro commits
      rw [notCommitting] at commits
      cases commits
    · intro _
      rw [log]
    · rw [log]
      exact isolated.nodup
    · intro _
      rw [log]
      exact Or.inr (Nat.succ_pos _)
    · intro _ _
      rw [log]
      exact Or.inr (Nat.succ_pos _)

omit [DecidableEq Thread] in
theorem Isolated.running {writing : Option Nat} (place : state.place thread = .inOp writing) :
    state.log.committing = false ∧ 0 < state.log.outstanding := by
  have member : thread ∈ operations state := by
    rw [mem_operations, place]
    rfl
  refine ⟨?_, ?_⟩
  · cases commits : state.log.committing with
    | false => rfl
    | true =>
      rw [isolated.quiet commits] at member
      simp at member
  · rw [isolated.outstanding]
    exact Finset.card_pos.mpr ⟨thread, member⟩

theorem Isolated.logWrite {sector : Nat} (running : state.panic = none)
    (stepTo : state.act (.logWrite thread sector) = some next) :
    Isolated next := by
  simp only [State.act] at stepTo
  split at stepTo
  swap
  · simp at stepTo
  rename_i place
  obtain ⟨notCommitting, positive⟩ := isolated.running place
  split at stepTo <;> cases stepTo
  next panic failed =>
    have isTooBig : panic = .tooBigTransaction := by
      unfold Log.logWriteCheck at failed
      split at failed
      next => exact (Option.some.inj failed).symm
      next =>
        rw [if_neg (by omega)] at failed
        cases failed
    exact { isolated with panic := Or.inr (by rw [isTooBig]) }
  next =>
    have moves := moves_setPlace state thread state.log (.inOp (some sector))
    have own : (state.setPlace thread (.inOp (some sector))).place thread =
        .inOp (some sector) := update_self _ _ _
    have same : operations (state.setPlace thread (.inOp (some sector))) =
        operations state := by
      apply moves.operations_eq
      rw [place]
      exact (congrArg Place.inside own).trans rfl
    refine isolated.of_moves moves (by rw [place]; rfl)
      (congrArg Place.stage own) rfl ?_ ?_ (fun _ => rfl) isolated.nodup
      isolated.pending (fun _ _ => Or.inr positive) (Or.inl running)
    · rw [same]
      exact isolated.outstanding
    · rw [same]
      exact isolated.quiet

end

omit [DecidableEq Thread] [Fintype Thread] in
theorem appendSector_keeps (log : Log) (sector : Nat) (nodup : log.sectors.Nodup) :
    (State.appendSector log sector).outstanding = log.outstanding ∧
      (State.appendSector log sector).committing = log.committing ∧
      (State.appendSector log sector).sectors.Nodup := by
  have longer (fresh : sector ∉ log.sectors) : (log.sectors ++ [sector]).Nodup :=
    nodup.append (List.nodup_singleton sector) (List.disjoint_singleton.mpr fresh)
  unfold State.appendSector
  cases appended : log.logWriteAppend sector with
  | none =>
    have fresh : sector ∉ log.sectors := by
      intro member
      simp [Log.logWriteAppend, member] at appended
    exact ⟨rfl, rfl, longer fresh⟩
  | some next =>
    rcases Log.logWriteAppend_eq appended with ⟨rfl, -⟩ | ⟨rfl, fresh, -⟩
    · exact ⟨rfl, rfl, nodup⟩
    · exact ⟨rfl, rfl, longer fresh⟩

section

variable (isolated : Isolated state)

include isolated

theorem Isolated.append (stepTo : state.act (.append thread) = some next) : Isolated next := by
  simp only [State.act] at stepTo
  split at stepTo
  swap
  · simp at stepTo
  rename_i sector place
  obtain ⟨notCommitting, positive⟩ := isolated.running place
  obtain ⟨outstanding, committing, nodup⟩ := appendSector_keeps state.log sector isolated.nodup
  generalize State.appendSector state.log sector = log at *
  cases stepTo
  obtain ⟨next, isNext, moves, nextLog, own, panic⟩ := exists_setPlace state thread log (.inOp none)
  rw [isNext]
  have same : operations next = operations state := by
    apply moves.operations_eq
    rw [place, own]
    rfl
  refine isolated.of_moves moves (by rw [place]; rfl) (by rw [own]; rfl)
    (by rw [nextLog, committing]) ?_ ?_ ?_ (by rw [nextLog]; exact nodup)
    ?_ ?_ (by rw [panic]; exact isolated.panic)
  · rw [nextLog, outstanding, same]
    exact isolated.outstanding
  · rw [nextLog, committing, notCommitting]
    intro impossible
    cases impossible
  · rw [notCommitting]
    intro impossible
    cases impossible
  · rw [nextLog, outstanding]
    exact fun _ => Or.inr positive
  · rw [nextLog, outstanding]
    exact fun _ _ => Or.inr positive

/-- An operation that is not the last one ends, and everyone is woken. -/
theorem Isolated.leaves (place : state.place thread = .inOp none)
    (more : state.log.outstanding - 1 ≠ 0) :
    Isolated (({ state with log := { state.log with
      outstanding := state.log.outstanding - 1 } } :
        State Thread).wakeup.setPlace thread .away) := by
  obtain ⟨notCommitting, positive⟩ := isolated.running place
  obtain ⟨next, isNext, moves, log, own, panic⟩ := exists_wakeup state thread
    { state.log with outstanding := state.log.outstanding - 1 } .away
  rw [isNext]
  have fewer : operations next = (operations state).erase thread :=
    moves.operations_erase (by rw [own]; rfl)
  have member : thread ∈ operations state := by
    rw [mem_operations, place]
    rfl
  have still : 0 < next.log.outstanding := by
    rw [log]
    exact Nat.pos_of_ne_zero more
  refine isolated.of_moves moves (by rw [place]; rfl) (by rw [own]; rfl)
    (by rw [log]) ?_ ?_ ?_ (by rw [log]; exact isolated.nodup)
    (fun _ => Or.inr still) (fun _ _ => Or.inr still)
    (by rw [panic]; exact isolated.panic)
  · rw [fewer, log, Finset.card_erase_of_mem member]
    exact congrArg (· - 1) isolated.outstanding
  · rw [log]
    intro commits
    rw [notCommitting] at commits
    cases commits
  · intro _
    rw [log]

/-- The last operation ends and its thread begins to commit. -/
theorem Isolated.commits (place : state.place thread = .inOp none)
    (last : state.log.outstanding - 1 = 0) :
    Isolated (({ state with log := { state.log with
      outstanding := state.log.outstanding - 1
      committing := true } } : State Thread).setPlace thread (.commits .test)) := by
  obtain ⟨notCommitting, positive⟩ := isolated.running place
  obtain ⟨next, isNext, moves, log, own, panic⟩ := exists_setPlace state thread { state.log with
    outstanding := state.log.outstanding - 1
    committing := true } (.commits .test)
  rw [isNext]
  have fewer : operations next = (operations state).erase thread :=
    moves.operations_erase (by rw [own]; rfl)
  have member : thread ∈ operations state := by
    rw [mem_operations, place]
    rfl
  have count : (operations next).card = 0 := by
    rw [fewer, Finset.card_erase_of_mem member, ← isolated.outstanding]
    exact last
  have nobody : ∀ other, (state.place other).stage = none := by
    intro other
    by_contra isCommitting
    rw [isolated.committing.mpr ⟨other, isCommitting⟩] at notCommitting
    cases notCommitting
  have others : ∀ other, (next.place other).stage ≠ none → other = thread := by
    intro other isCommitting
    by_contra differs
    rw [moves.stage other differs, nobody other] at isCommitting
    exact isCommitting rfl
  refine isolated_of_committer own others (by rw [log]) ?_ (Finset.card_eq_zero.mp count) (by simp)
    ?_ ?_
  · rw [count, log]
    exact last
  · rw [log]
    exact isolated.nodup
  · rw [panic]
    exact isolated.panic

theorem Isolated.endOp (stepTo : state.act (.endOp thread) = some next) : Isolated next := by
  simp only [State.act] at stepTo
  split at stepTo
  swap
  · simp at stepTo
  rename_i place
  obtain ⟨notCommitting, -⟩ := isolated.running place
  rcases Log.endOp_of_not_committing notCommitting with ⟨last, ends⟩ | ⟨more, ends⟩
  · rw [ends] at stepTo
    cases stepTo
    exact isolated.commits place last
  · rw [ends] at stepTo
    cases stepTo
    exact isolated.leaves place more

theorem Isolated.advance {stage : CommitStage} (before : (state.place thread).stage ≠ none)
    (cleared : stage = .eraseHead ∨ stage = .finished → state.log.sectors = []) :
    Isolated (state.setPlace thread (.commits stage)) :=
  isolated.of_commit (moves_setPlace state thread state.log (.commits stage))
    before (update_self _ _ _) rfl rfl (Or.inl rfl) cleared rfl

theorem Isolated.commit (stepTo : state.act (.commit thread) = some next) : Isolated next := by
  simp only [State.act] at stepTo
  split at stepTo
  swap
  · simp at stepTo
  rename_i stage place
  have before : (state.place thread).stage ≠ none := by
    rw [place]
    simp [Place.stage]
  cases stage with
  | test =>
    simp only [State.commit] at stepTo
    split at stepTo <;> cases stepTo
    next => exact isolated.advance before (by simp)
    next empty =>
      refine isolated.advance before fun _ => ?_
      exact List.length_eq_zero_iff.mp (by omega)
  | writeLog | writeHead | installTrans =>
    cases stepTo
    exact isolated.advance before (by simp)
  | clear =>
    cases stepTo
    exact isolated.of_commit (moves_setPlace state thread state.log.clear (.commits .eraseHead))
      before (update_self _ _ _) rfl rfl (Or.inr rfl)
      (fun _ => rfl) rfl
  | eraseHead =>
    cases stepTo
    refine isolated.advance before fun _ => ?_
    apply isolated.cleared thread
    rw [place]
    exact Or.inl rfl
  | finished => cases stepTo

theorem Isolated.committed (stepTo : state.act (.committed thread) = some next) :
    Isolated next := by
  simp only [State.act] at stepTo
  split at stepTo <;> cases stepTo
  rename_i place
  have before : (state.place thread).stage ≠ none := by
    rw [place]
    simp [Place.stage]
  have empty : state.log.sectors = [] := by
    apply isolated.cleared thread
    rw [place]
    exact Or.inr rfl
  obtain ⟨next, isNext, moves, log, own, panic⟩ :=
    exists_wakeup state thread state.log.committed .away
  have asleep : ∀ other, (next.place other).asleep = false := by
    intro other
    by_cases same : other = thread
    · rw [same, own]
      rfl
    · rw [← isNext]
      refine (congrArg Place.asleep (update_of_ne same _ _)).trans ?_
      exact Place.asleep_wake _
  rw [isNext]
  have same : operations next = operations state := by
    apply moves.operations_eq
    rw [own, place]
    rfl
  have nobody : ∀ other, (next.place other).stage = none := by
    intro other
    by_contra isCommitting
    obtain ⟨differs, wasCommitting⟩ := moves.committer (by rw [own]; rfl) isCommitting
    exact differs (isolated.single other thread wasCommitting before)
  refine isolated_of_idle nobody asleep (by rw [log]; rfl) (by rw [log]; exact empty) ?_ ?_
  · rw [log, same]
    exact isolated.outstanding
  · rw [panic]
    exact isolated.panic

end

theorem Isolated.step {label : Label Thread} (isolated : Isolated state)
    (stepTo : state.step label = some next) : Isolated next := by
  have running : state.panic = none := by
    unfold State.step at stepTo
    split at stepTo
    next => cases stepTo
    next none => simpa using none
  have acts : state.act label = some next := by
    simpa [State.step, running] using stepTo
  cases label with
  | beginOp thread =>
    simp only [State.act] at acts
    split at acts <;> cases acts
    next place => exact isolated.begin (by rw [place]; rfl) (by rw [place]; rfl)
    next place => exact isolated.begin (by rw [place]; rfl) (by rw [place]; rfl)
  | logWrite thread sector => exact isolated.logWrite running acts
  | append thread => exact isolated.append acts
  | endOp thread => exact isolated.endOp acts
  | commit thread => exact isolated.commit acts
  | committed thread => exact isolated.committed acts

omit [DecidableEq Thread] in
theorem isolated_of_initial (initial : state.Initial) : Isolated state := by
  have empty : operations state = ∅ := by
    ext thread
    rw [mem_operations, initial.place]
    simp [Place.inside]
  refine isolated_of_idle ?_ ?_ initial.committing initial.sectors ?_ (Or.inl initial.panic)
  · intro thread
    rw [initial.place]
    rfl
  · intro thread
    rw [initial.place]
    rfl
  · rw [empty, initial.outstanding]
    rfl

/-- Group commit isolation: a commit excludes operations and other commits, no
sector is logged twice, and whoever sleeps in `begin_op` waits for one of them.
-/
theorem group_commit_isolation (initial : state.Initial) (reaches : Reaches State.step state next) :
    next.log.outstanding = (operations next).card ∧
    (next.log.committing = true →
      next.log.outstanding = 0 ∧ ∀ thread writing, next.place thread ≠ .inOp writing) ∧
    next.panic ≠ some .logCommitting ∧
    (∀ first second firstStage secondStage,
      next.place first = .commits firstStage →
        next.place second = .commits secondStage → first = second) ∧
    (∀ thread stage, next.place thread = .commits stage →
      next.log.committing = true) ∧
    next.log.sectors.Nodup ∧
    (∀ thread, next.place thread = .waiting true →
      next.log.committing = true ∨ 0 < next.log.outstanding) := by
  have isolated : Isolated next :=
    Reaches.invariant reaches Isolated (isolated_of_initial initial)
      fun _ _ _ holds stepTo => holds.step stepTo
  have stage : ∀ thread stage, next.place thread = .commits stage →
      (next.place thread).stage ≠ none := by
    intro thread stage place
    rw [place]
    simp [Place.stage]
  refine ⟨isolated.outstanding, ?_, ?_, ?_, ?_, isolated.nodup, ?_⟩
  · intro commits
    have empty := isolated.quiet commits
    refine ⟨?_, ?_⟩
    · rw [isolated.outstanding, empty]
      rfl
    · intro thread writing place
      have member : thread ∈ operations next := by
        rw [mem_operations, place]
        rfl
      rw [empty] at member
      simp at member
  · rcases isolated.panic with none | tooBig
    · simp [none]
    · simp [tooBig]
  · intro first second firstStage secondStage isFirst isSecond
    exact isolated.single first second (stage first firstStage isFirst)
      (stage second secondStage isSecond)
  · intro thread isStage place
    exact isolated.committing.mpr ⟨thread, stage thread isStage place⟩
  · intro thread place
    apply isolated.waiting thread
    rw [place]
    rfl

end Isolation

/-- Two threads and the log of a disk that `mkfs` has written. -/
def twoThreads : State Bool where
  log := Log.initlog 1024 logSize
  place := fun _ => .away
  panic := none

/-- One thread commits while the other one sleeps in `begin_op`. -/
theorem group_commit_isolation_twoThreads : ∃ next, Reaches State.step twoThreads next ∧
      next.place true = .commits .eraseHead ∧
      next.place false = .waiting true ∧
      next.log.outstanding = (operations next).card ∧
      (next.log.committing = true →
        next.log.outstanding = 0 ∧ ∀ thread writing, next.place thread ≠ .inOp writing) := by
  obtain ⟨next, run, commits, waits⟩ : ∃ next ∈ runLabels State.step twoThreads
      [.beginOp true, .logWrite true 40, .append true, .endOp true,
        .commit true, .beginOp false, .commit true, .commit true,
        .commit true, .commit true],
      next.place true = .commits .eraseHead ∧
        next.place false = .waiting true := by
    decide +kernel
  have reaches := reaches_of_runLabels _ run
  have initial : twoThreads.Initial := ⟨rfl, rfl, rfl, fun _ => rfl, rfl⟩
  obtain ⟨count, quiet, -⟩ := group_commit_isolation initial reaches
  exact ⟨next, reaches, commits, waits, count, quiet⟩

section Admission

variable {Thread : Type*} [DecidableEq Thread] [Fintype Thread]
variable {state next : State Thread} {thread : Thread}

/-- The steps that take a thread out of its operation and the commit behind it. -/
def Place.remaining : Place → Nat
  | .inOp writing => 8 + writing.toList.length
  | .commits stage => 7 - stage.ctorIdx
  | _ => 0

end Admission

end GroupCommit

end Xv6Kthreads
