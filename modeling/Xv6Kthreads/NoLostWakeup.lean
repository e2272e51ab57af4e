import Xv6Kthreads.SleepWakeup

/-!
# No wakeup is lost

A sleeper that has found the condition false holds the caller's lock until it
holds `ptable.lock`, and it keeps `ptable.lock` until it is marked `SLEEPING`
and switched out.  A waker makes the condition true under the caller's lock and
looks at the threads under `ptable.lock`, so that it comes to the sleeper after
it has been marked.  Every step of a thread or of a scheduler keeps this
invariant.
-/

namespace Xv6Kthreads

namespace SleepWakeup

open Function (update update_eq_self update_of_ne update_self)

open LabelledRun

section Invariant

variable {Cpu Thread : Type*}
variable {lk : Lock} {table : List Thread}
variable {state next : State Cpu Thread} {cpu : Cpu} {thread : Thread}

/-! ## Steps of a thread -/

structure Moves (lk : Lock) (cpu : Cpu) (thread : Thread)
    (state next : State Cpu Thread) : Prop where
  pcs : ∀ other, other ≠ thread → next.pc other = state.pc other
  statuses : ∀ other, other ≠ thread → next.status other = state.status other
  chans : ∀ other, other ≠ thread → next.chan other = state.chan other
  cpus : ∀ other, other ≠ cpu → next.cpu other = state.cpu other
  place : next.cpu cpu = .runs thread ∨ next.cpu cpu = .scheduling ∧ (next.pc thread).switchedOut
  locks : Locks lk cpu state next
  status : next.cpu cpu = .runs thread → next.status thread = (next.pc thread).status
  asleep : next.status thread = .sleeping → next.chan thread = true
  chan : next.pc thread = .setSleeping → next.chan thread = true
  plain : lk = .ptable → ¬ (next.pc thread).twoLocks
  unset : (next.pc thread).decided → next.cond = false
  panic : next.panic = false

section

variable (sound : Sound lk state) (on : state.cpu cpu = .runs thread)
  (moves : Moves lk cpu thread state next)
include sound on moves

/-- A step of a thread keeps the invariant if it keeps what is said about the
condition. -/
theorem Sound.of_moves (unset : ∀ thread, (next.pc thread).decided → next.cond = false)
    (wakes : ∀ thread, Sleeps next thread → next.cond = true →
      ∃ waker, (next.pc waker).wakes thread) : Sound lk next := by
  have elsewhere : ∀ other, other ≠ cpu → ∀ second,
      next.cpu other = .runs second → second ≠ thread ∧ state.cpu other = .runs second := by
    intro other differs second runs
    rw [moves.cpus other differs] at runs
    refine ⟨?_, runs⟩
    rintro rfl
    exact differs (sound.once other cpu second runs on)
  have here : ∀ second, next.cpu cpu = .runs second → second = thread := by
    intro second runs
    rcases moves.place with stays | ⟨leaves, -⟩
    · exact OnCpu.runs.inj (runs.symm.trans stays)
    · rw [leaves] at runs
      cases runs
  refine ⟨?_, ?_, ?_, ?_, ?_, ?_, ?_, unset, wakes, moves.panic⟩
  · intro other lock
    by_cases same : other = cpu
    · rw [same]
      exact moves.locks.own lock
    · rw [moves.locks.others other same lock, sound.locks other lock, moves.cpus other same]
      cases place : state.cpu other with
      | idle => rfl
      | scheduling => rfl
      | runs second =>
        have differs : second ≠ thread := by
          rintro rfl
          exact same (sound.once other cpu second place on)
        simp only [Owns, moves.pcs second differs]
  · intro first second other isFirst isSecond
    rcases eq_or_ne other thread with rfl | same
    · have firstHere : first = cpu := by
        by_contra differs
        exact (elsewhere first differs other isFirst).1 rfl
      have secondHere : second = cpu := by
        by_contra differs
        exact (elsewhere second differs other isSecond).1 rfl
      rw [firstHere, secondHere]
    · have firstElse : first ≠ cpu := by
        rintro rfl
        exact same (here other isFirst)
      have secondElse : second ≠ cpu := by
        rintro rfl
        exact same (here other isSecond)
      exact sound.once first second other (elsewhere first firstElse other isFirst).2
        (elsewhere second secondElse other isSecond).2
  · intro other nowhere
    rcases eq_or_ne other thread with rfl | same
    · rcases moves.place with stays | ⟨-, out⟩
      · exact absurd stays (nowhere cpu)
      · exact out
    · rw [moves.pcs other same]
      apply sound.out
      intro second runs
      rcases eq_or_ne second cpu with rfl | sameCpu
      · exact same (OnCpu.runs.inj (runs.symm.trans on))
      · apply nowhere second
        rw [moves.cpus second sameCpu]
        exact runs
  · intro other second runs
    rcases eq_or_ne other cpu with rfl | same
    · obtain rfl := here second runs
      exact moves.status runs
    · obtain ⟨differs, ran⟩ := elsewhere other same second runs
      rw [moves.statuses second differs, moves.pcs second differs]
      exact sound.status other second ran
  · intro other asleep
    rcases eq_or_ne other thread with rfl | same
    · exact moves.asleep asleep
    · rw [moves.statuses other same] at asleep
      rw [moves.chans other same]
      exact sound.asleep other asleep
  · intro other setSleeping
    rcases eq_or_ne other thread with rfl | same
    · exact moves.chan setSleeping
    · rw [moves.pcs other same] at setSleeping
      rw [moves.chans other same]
      exact sound.chan other setSleeping
  · intro isTable other
    rcases eq_or_ne other thread with rfl | same
    · exact moves.plain isTable
    · rw [moves.pcs other same]
      exact sound.plain isTable other

/-- A step that leaves the condition alone.  A thread that begins to fall
asleep does so while the condition is false. -/
theorem Sound.of_quiet (cond : next.cond = state.cond)
    (waker : ∀ other, (state.pc thread).wakes other → (next.pc thread).wakes other)
    (sleeps : Sleeps next thread → next.cond = true → Sleeps state thread) :
    Sound lk next := by
  refine sound.of_moves on moves ?_ ?_
  · intro other decided
    rcases eq_or_ne other thread with rfl | same
    · exact moves.unset decided
    · rw [moves.pcs other same] at decided
      rw [cond]
      exact sound.unset other decided
  · intro other asleep holds
    have before : Sleeps state other := by
      rcases eq_or_ne other thread with rfl | same
      · exact sleeps asleep holds
      · unfold Sleeps at asleep ⊢
        rwa [moves.pcs other same, moves.statuses other same] at asleep
    rw [cond] at holds
    obtain ⟨by_, isWaker⟩ := sound.wakes other before holds
    refine ⟨by_, ?_⟩
    rcases eq_or_ne by_ thread with rfl | same
    · exact waker other isWaker
    · rw [moves.pcs by_ same]
      exact isWaker

/-- The step that makes the condition true: no thread has just found it false,
and all sleepers are before the waker. -/
theorem Sound.of_setCond (before : state.pc thread = .setCond)
    (waker : ∀ other, (next.pc thread).wakes other) : Sound lk next := by
  refine sound.of_moves on moves ?_ ?_
  · intro other decided
    rcases eq_or_ne other thread with rfl | same
    · exact moves.unset decided
    · exfalso
      rw [moves.pcs other same] at decided
      have inside := Pc.holds_of_decided decided lk
      obtain ⟨second, runs⟩ := sound.runs inside.1
      refine same (sound.exclusive on runs ?_ inside.2)
      rw [before]
      rfl
  · intro other _ _
    exact ⟨thread, waker other⟩

end

/-- What the steps that change nothing but locks and the place of a thread have
in common: `before` and `pc` are the places, `cond` the condition. -/
structure Follows (lk : Lock) (before pc : Pc Thread) (cond : Bool) : Prop where
  status : before.status = pc.status
  awake : pc.status = .running
  notSet : pc ≠ .setSleeping
  plain : lk = .ptable → ¬ pc.twoLocks
  unset : pc.decided → cond = false
  falls : pc.fallsAsleep → cond = false
  wakes : ∀ other, before.wakes other → pc.wakes other

variable [DecidableEq Thread]

section

variable (sound : Sound lk state) (on : state.cpu cpu = .runs thread)
include sound on

theorem Sound.goTo {pc : Pc Thread} {holder : Lock → Option Cpu}
    (follows : Follows lk (state.pc thread) pc state.cond) (locks : Locks lk cpu state { state with
        holder, pc := update state.pc thread pc }) :
    Sound lk { state with holder, pc := update state.pc thread pc } := by
  have own : update state.pc thread pc thread = pc := update_self _ _ _
  have running : state.status thread = .running := by
    rw [sound.status cpu thread on, follows.status, follows.awake]
  have moves : Moves lk cpu thread state { state with
      holder, pc := update state.pc thread pc } := by
    refine ⟨fun other differs => update_of_ne differs _ _,
      fun _ _ => rfl, fun _ _ => rfl, fun _ _ => rfl, Or.inl on, locks, ?_,
      sound.asleep thread, ?_, ?_, ?_, sound.panic⟩
    · intro _
      dsimp only
      rw [own, running, follows.awake]
    · dsimp only
      rw [own]
      intro isSet
      exact absurd isSet follows.notSet
    · dsimp only
      rw [own]
      exact follows.plain
    · dsimp only
      rw [own]
      exact follows.unset
  refine sound.of_quiet on moves rfl ?_ ?_
  · dsimp only
    rw [own]
    exact follows.wakes
  · intro sleeps holds
    unfold Sleeps at sleeps
    dsimp only at sleeps holds
    rw [own, running] at sleeps
    rcases sleeps with falls | asleep
    · rw [follows.falls falls] at holds
      cases holds
    · cases asleep

section

variable {old pc : Pc Thread} (before : state.pc thread = old)
  (follows : Follows lk old pc state.cond)
include before follows

theorem Sound.advance (holds : ∀ lock, pc.holds lk lock ↔ old.holds lk lock) :
    Sound lk (state.setPc thread pc) := by
  subst before
  refine sound.goTo on follows (sound.locks_keep on rfl ?_)
  intro lock
  simp only [on, Owns, update_self]
  exact holds lock

theorem Sound.advance_acquire [DecidableEq Cpu] {lock : Lock} (free : ¬ old.holds lk lock)
    (holds : ∀ other, pc.holds lk other ↔ other = lock ∨ old.holds lk other)
    (taken : (state.acquire cpu lock).map (fun middle => middle.setPc thread pc) = some next) :
    Sound lk next := by
  subst before
  obtain ⟨middle, isMiddle, rfl⟩ := Option.map_eq_some_iff.mp taken
  obtain ⟨isFree, rfl⟩ := sound.acquire on free isMiddle
  refine sound.goTo on follows (sound.locks_acquire on isFree rfl ?_)
  intro other
  simp only [on, Owns, update_self]
  exact holds other

theorem Sound.advance_release [DecidableEq Cpu] {lock : Lock} (held : old.holds lk lock)
    (holds : ∀ other, pc.holds lk other ↔ other ≠ lock ∧ old.holds lk other) :
    Sound lk ((state.release cpu lock).setPc thread pc) := by
  subst before
  rw [sound.release on held]
  refine sound.goTo on follows (sound.locks_release on held rfl ?_)
  intro other
  simp only [on, Owns, update_self]
  exact holds other

end

/-- A step under `ptable.lock` that writes the thread's own fields. -/
theorem Sound.write (pc : Pc Thread) (status : Status) (chan : Bool)
    (holds : ∀ lock, pc.holds lk lock ↔ (state.pc thread).holds lk lock)
    (isStatus : status = pc.status) (asleep : status = .sleeping → chan = true)
    (isChan : pc = .setSleeping → chan = true) (plain : lk = .ptable → ¬ pc.twoLocks)
    (undecided : ¬ pc.decided) (waker : ∀ other, ¬ (state.pc thread).wakes other)
    (sleeps : pc.fallsAsleep ∨ status = .sleeping → Sleeps state thread) :
    Sound lk { state with
      pc := update state.pc thread pc
      status := update state.status thread status
      chan := update state.chan thread chan } := by
  have moves : Moves lk cpu thread state { state with
      pc := update state.pc thread pc
      status := update state.status thread status
      chan := update state.chan thread chan } := by
    refine ⟨fun other differs => update_of_ne differs _ _,
      fun other differs => update_of_ne differs _ _,
      fun other differs => update_of_ne differs _ _,
      fun _ _ => rfl, Or.inl on, ?_, ?_, ?_, ?_, ?_, ?_, sound.panic⟩
    · refine sound.locks_keep on rfl ?_
      intro lock
      simp only [on, Owns, update_self]
      exact holds lock
    · simp only [update_self]
      exact fun _ => isStatus
    · simp only [update_self]
      exact asleep
    · simp only [update_self]
      exact isChan
    · simp only [update_self]
      exact plain
    · simp only [update_self]
      exact fun decided => absurd decided undecided
  refine sound.of_quiet on moves rfl ?_ ?_
  · intro other isWaker
    exact absurd isWaker (waker other)
  · intro asleep _
    simp only [Sleeps, update_self] at asleep
    exact sleeps asleep

theorem Sound.switch [DecidableEq Cpu] {pc : Pc Thread}
    (held : ∀ lock, (state.pc thread).holds lk lock ↔ lock = .ptable)
    (switches : (state.pc thread).status ≠ .running) (out : pc.switchedOut)
    (waker : ∀ other, ¬ (state.pc thread).wakes other) :
    Sound lk (state.sched cpu thread pc) := by
  rw [sound.sched on held switches pc]
  have own : update state.pc thread pc thread = pc := update_self _ _ _
  have place : update state.cpu cpu OnCpu.scheduling cpu =
      OnCpu.scheduling := update_self _ _ _
  have moves : Moves lk cpu thread state ((state.setPc thread pc).setCpu cpu .scheduling) := by
    refine ⟨fun other differs => update_of_ne differs _ _, fun _ _ => rfl, fun _ _ => rfl,
      fun other differs => update_of_ne differs _ _,
      Or.inr ⟨place, ?_⟩, ?_, ?_, sound.asleep thread, ?_, ?_, ?_,
      sound.panic⟩
    · change (update state.pc thread pc thread).switchedOut
      rw [own]
      exact out
    · refine sound.locks_keep on rfl ?_
      intro lock
      change Owns lk _ (update state.cpu cpu OnCpu.scheduling cpu) lock ↔ _
      rw [place, held lock]
      rfl
    · intro runs
      cases place.symm.trans runs
    · intro isSet
      rw [own.symm.trans isSet] at out
      exact out.elim
    · intro _ twoLocks
      change (update state.pc thread pc thread).twoLocks at twoLocks
      rw [own] at twoLocks
      exact Pc.not_twoLocks_of_switchedOut out twoLocks
    · intro decided
      change (update state.pc thread pc thread).decided at decided
      rw [own] at decided
      exact absurd out (Pc.holds_of_decided decided lk).1
  refine sound.of_quiet on moves rfl ?_ ?_
  · intro other isWaker
    exact absurd isWaker (waker other)
  · rintro (falls | asleep) _
    · change (update state.pc thread pc thread).fallsAsleep at falls
      rw [own] at falls
      exact absurd out (Pc.holds_of_fallsAsleep falls lk).1
    · exact Or.inr asleep

theorem Sound.raise (before : state.pc thread = .setCond) (complete : ∀ thread, thread ∈ table) :
    Sound lk ({ state with cond := true }.setPc thread
      (if lk ≠ Lock.ptable then .wakeTable else .scan table)) := by
  generalize isPc : (if lk ≠ Lock.ptable then Pc.wakeTable
    else .scan table : Pc Thread) = pc
  have own : update state.pc thread pc thread = pc := update_self _ _ _
  have waker : ∀ other, pc.wakes other := by
    intro other
    rw [← isPc]
    split
    next => trivial
    next => exact complete other
  have facts : (∀ lock, pc.holds lk lock ↔ lock = lk) ∧ pc.status = .running ∧ pc ≠ .setSleeping ∧
      (lk = .ptable → ¬ pc.twoLocks) ∧ ¬ pc.decided := by
    rw [← isPc]
    split
    next notTable => simp [Pc.holds, Pc.status, Pc.twoLocks, Pc.decided, notTable]
    next isTable =>
      have isTable : lk = .ptable := by simpa using isTable
      simp [Pc.holds, Pc.status, Pc.twoLocks, Pc.decided, isTable]
  obtain ⟨holds, running, notSet, plain, undecided⟩ := facts
  have moves : Moves lk cpu thread state ({ state with cond := true }.setPc thread pc) := by
    refine ⟨fun other differs => update_of_ne differs _ _,
      fun _ _ => rfl, fun _ _ => rfl, fun _ _ => rfl, Or.inl on, ?_, ?_,
      sound.asleep thread, ?_, ?_, ?_, sound.panic⟩
    · refine sound.locks_keep on rfl ?_
      intro lock
      change Owns lk (update state.pc thread pc) (state.cpu cpu) lock ↔ _
      simp only [on, Owns, update_self]
      rw [holds lock, before]
      rfl
    · intro _
      change state.status thread = (update state.pc thread pc thread).status
      rw [own, running, sound.status cpu thread on, before]
      rfl
    · intro isSet
      exact absurd (own.symm.trans isSet) notSet
    · intro isTable
      change ¬ (update state.pc thread pc thread).twoLocks
      rw [own]
      exact plain isTable
    · intro decided
      change (update state.pc thread pc thread).decided at decided
      rw [own] at decided
      exact absurd decided undecided
  refine sound.of_setCond on moves before ?_
  intro other
  change (update state.pc thread pc thread).wakes other
  rw [own]
  exact waker other

end

omit [DecidableEq Thread] in
/-- A thread that falls asleep on a CPU holds `ptable.lock`, so that no waker
is in the loop of `wakeup1`. -/
theorem Sound.scan_alone (sound : Sound lk state) (on : state.cpu cpu = .runs thread)
    {rest : List Thread} (before : state.pc thread = .scan rest) {other : Thread}
    (inside : ¬ (state.pc other).switchedOut) (holds : (state.pc other).holds lk .ptable) :
    other = thread := by
  obtain ⟨second, runs⟩ := sound.runs inside
  refine sound.exclusive on runs ?_ holds
  rw [before]
  exact Or.inr rfl

section

variable (sound : Sound lk state) (on : state.cpu cpu = .runs thread)
include sound on

theorem Sound.scan {first : Thread} {rest : List Thread}
    (before : state.pc thread = .scan (first :: rest)) :
    Sound lk ((state.wake first).setPc thread (.scan rest)) := by
  -- Only the status of `first` can change, and only from `SLEEPING`.
  have fields : (state.wake first).holder = state.holder ∧ (state.wake first).cpu = state.cpu ∧
      (state.wake first).pc = state.pc ∧
      (state.wake first).chan = state.chan ∧
      (state.wake first).cond = state.cond ∧
      (state.wake first).panic = state.panic := by
    unfold State.wake
    split
    · exact ⟨rfl, rfl, rfl, rfl, rfl, rfl⟩
    · exact ⟨rfl, rfl, rfl, rfl, rfl, rfl⟩
  have awake : (state.wake first).status first ≠ .sleeping := by
    unfold State.wake
    split
    next => simp [State.setStatus]
    next stays =>
      intro asleep
      exact stays ⟨asleep, sound.asleep first asleep⟩
  have statuses : ∀ other, (state.wake first).status other = state.status other ∨ other = first ∧
        state.status other = .sleeping := by
    intro other
    unfold State.wake
    split
    next woken =>
      by_cases same : other = first
      · exact Or.inr ⟨same, by rw [same]; exact woken.1⟩
      · exact Or.inl (update_of_ne same _ _)
    next => exact Or.inl rfl
  generalize state.wake first = woken at fields awake statuses
  obtain ⟨holder, cpus, pcs, chans, cond, panic⟩ := fields
  have pc : ∀ other, other ≠ thread →
      (woken.setPc thread (.scan rest)).pc other = state.pc other := by
    intro other differs
    rw [← pcs]
    exact update_of_ne differs _ _
  have own : (woken.setPc thread (.scan rest)).pc thread = .scan rest := update_self _ _ _
  generalize isNext : woken.setPc thread (.scan rest) = next at pc own ⊢
  have same : next.holder = state.holder ∧ next.cpu = state.cpu ∧
      next.chan = state.chan ∧ next.cond = state.cond ∧
      next.panic = state.panic ∧ next.status = woken.status := by
    rw [← isNext]
    exact ⟨holder, cpus, chans, cond, panic, rfl⟩
  obtain ⟨holder, cpus, chans, cond, panic, status⟩ := same
  refine ⟨?_, ?_, ?_, ?_, ?_, ?_, ?_, ?_, ?_, panic.trans sound.panic⟩
  · intro second lock
    rw [holder, cpus, sound.locks second lock]
    cases place : state.cpu second with
    | idle => rfl
    | scheduling => rfl
    | runs other =>
      by_cases isOwn : other = thread
      · simp only [Owns, isOwn, own, before, Pc.holds]
      · simp only [Owns, pc other isOwn]
  · rw [cpus]
    exact sound.once
  · rw [cpus]
    intro other nowhere
    have differs : other ≠ thread := by
      rintro rfl
      exact nowhere cpu on
    rw [pc other differs]
    exact sound.out other nowhere
  · rw [cpus, status]
    intro second other runs
    have was := sound.status second other runs
    rcases eq_or_ne other thread with rfl | isOwn
    · rw [before] at was
      rcases statuses other with kept | ⟨-, asleep⟩
      · rw [kept, was, own]
        rfl
      · rw [asleep] at was
        cases was
    · rw [pc other isOwn]
      rcases statuses other with kept | ⟨-, asleep⟩
      · rw [kept, was]
      · -- It would be in `sched` and hold `ptable.lock`.
        exfalso
        rw [asleep] at was
        have inSched := Pc.eq_schedSleep_of_status was.symm
        refine isOwn (sound.scan_alone on before ?_ ?_)
        · rw [inSched]
          exact id
        · rw [inSched]
          rfl
  · rw [status, chans]
    intro other asleep
    rcases statuses other with kept | ⟨-, wasAsleep⟩
    · rw [kept] at asleep
      exact sound.asleep other asleep
    · exact sound.asleep other wasAsleep
  · rw [chans]
    intro other isSet
    by_cases isOwn : other = thread
    · rw [isOwn, own] at isSet
      cases isSet
    · rw [pc other isOwn] at isSet
      exact sound.chan other isSet
  · intro isTable other
    by_cases isOwn : other = thread
    · rw [isOwn, own]
      exact id
    · rw [pc other isOwn]
      exact sound.plain isTable other
  · rw [cond]
    intro other decided
    by_cases isOwn : other = thread
    · rw [isOwn, own] at decided
      exact decided.elim
    · rw [pc other isOwn] at decided
      exact sound.unset other decided
  · rw [cond]
    intro other sleeps holds
    -- The one that the waker comes to now is not asleep afterwards.
    have differs : other ≠ first := by
      rintro rfl
      rcases sleeps with falls | asleep
      · by_cases isOwn : other = thread
        · rw [isOwn, own] at falls
          exact falls
        · rw [pc other isOwn] at falls
          obtain ⟨inside, holds⟩ := Pc.holds_of_fallsAsleep falls lk
          exact isOwn (sound.scan_alone on before inside holds)
      · rw [status] at asleep
        exact awake asleep
    have wasAsleep : Sleeps state other := by
      rcases sleeps with falls | asleep
      · left
        by_cases isOwn : other = thread
        · rw [isOwn, own] at falls
          exact falls.elim
        · rwa [pc other isOwn] at falls
      · right
        rcases statuses other with kept | ⟨isFirst, -⟩
        · rw [← kept, ← status]
          exact asleep
        · exact absurd isFirst differs
    obtain ⟨waker, isWaker⟩ := sound.wakes other wasAsleep holds
    refine ⟨waker, ?_⟩
    by_cases isOwn : waker = thread
    · rw [isOwn, before] at isWaker
      rw [isOwn, own]
      exact (List.mem_cons.mp isWaker).resolve_left differs
    · rw [pc waker isOwn]
      exact isWaker

theorem Sound.enter [DecidableEq Cpu] {rest : Rest} (before : state.pc thread = .free rest)
    (stepTo : state.run lk table cpu thread = some next) : Sound lk next := by
  simp only [State.run, before] at stepTo
  cases rest with
  | outside => cases stepTo
  | enter role =>
    cases role with
    | sleeper | waker =>
      refine sound.advance_acquire on before ?_ ?_ ?_ stepTo
      · exact ⟨rfl, rfl, nofun, fun _ => id, nofun, nofun, nofun⟩
      · exact id
      · simp [Pc.holds]

theorem Sound.test (before : state.pc thread = .test) :
    Sound lk (if state.cond then state.setPc thread .leave
      else if lk ≠ Lock.ptable then state.setPc thread .takeTable
      else state.setPc thread .setChan) := by
  split
  next =>
    refine sound.advance on before ⟨rfl, rfl, nofun, fun _ => id, nofun, nofun, nofun⟩ ?_
    simp [Pc.holds]
  next isFalse =>
    have isFalse : state.cond = false := by simpa using isFalse
    split
    next notTable =>
      refine sound.advance on before ⟨rfl, rfl, nofun, fun isTable => absurd isTable notTable,
        fun _ => isFalse, nofun, nofun⟩ ?_
      simp [Pc.holds]
    next isTable =>
      have isTable : lk = .ptable := by simpa using isTable
      refine sound.advance on before
        ⟨rfl, rfl, nofun, fun _ => id, nofun, fun _ => isFalse, nofun⟩ ?_
      simp [Pc.holds, isTable]

/-- The end of `sleep` clears the channel of a thread that is awake. -/
theorem Sound.tidy (before : state.pc thread = .tidy) {pc : Pc Thread}
    (holds : ∀ lock, pc.holds lk lock ↔ (state.pc thread).holds lk lock)
    (running : pc.status = .running) (notSet : pc ≠ .setSleeping)
    (plain : lk = .ptable → ¬ pc.twoLocks) (undecided : ¬ pc.decided) (awake : ¬ pc.fallsAsleep) :
    Sound lk ((state.setChan thread false).setPc thread pc) := by
  have status := sound.status cpu thread on
  rw [before] at status
  have written := sound.write on pc (state.status thread) false holds (status.trans running.symm)
    (fun asleep => by rw [status] at asleep; cases asleep)
    (fun isSet => absurd isSet notSet) plain undecided
    (by simp [before, Pc.wakes])
    (fun sleeps => by
      rw [status] at sleeps
      rcases sleeps with falls | asleep
      · exact absurd falls awake
      · cases asleep)
  rwa [update_eq_self] at written

end

variable [DecidableEq Cpu]

section

variable (sound : Sound lk state)

include sound

theorem Sound.run (complete : ∀ thread, thread ∈ table) (on : state.cpu cpu = .runs thread)
    (stepTo : state.run lk table cpu thread = some next) : Sound lk next := by
  have notTable (two : (state.pc thread).twoLocks) : lk ≠ .ptable :=
    fun isTable => sound.plain isTable thread two
  have status := sound.status cpu thread on
  have ran := stepTo
  cases before : state.pc thread with simp only [State.run, before] at stepTo
  | free rest => exact sound.enter on before ran
  | test =>
    have tested := sound.test on before
    split at stepTo
    next isTrue =>
      cases stepTo
      rwa [if_pos isTrue] at tested
    next isFalse =>
      rw [if_neg isFalse] at tested
      split at stepTo <;> cases stepTo
      next two => rwa [if_pos two] at tested
      next one => rwa [if_neg one] at tested
  | leave | dropTable | wakeLeave | yieldDone rest =>
    cases stepTo
    refine sound.advance_release on before ?_ ?_ ?_
    · exact ⟨rfl, rfl, nofun, fun _ => id, nofun, nofun, nofun⟩
    · simp [Pc.holds]
    · simp [Pc.holds]
  | takeTable =>
    have two : lk ≠ .ptable := notTable (by rw [before]; trivial)
    refine sound.advance_acquire on before ?_ ?_ ?_ stepTo
    · exact ⟨rfl, rfl, nofun, fun isTable => absurd isTable two,
        fun _ => sound.unset thread (by rw [before]; trivial), nofun,
        nofun⟩
    · simpa [Pc.holds] using two.symm
    · simp [Pc.holds, or_comm]
  | dropLock =>
    have two : lk ≠ .ptable := notTable (by rw [before]; trivial)
    cases stepTo
    refine sound.advance_release on before ?_ ?_ ?_
    · exact ⟨rfl, rfl, nofun, fun _ => id, nofun,
        fun _ => sound.unset thread (by rw [before]; trivial), nofun⟩
    · simp [Pc.holds]
    · intro other
      constructor
      · rintro rfl
        exact ⟨two.symm, Or.inr rfl⟩
      · rintro ⟨differs, same | same⟩
        · exact absurd same differs
        · exact same
  | setChan =>
    cases stepTo
    rw [before] at status
    have written := sound.write on .setSleeping (state.status thread) true
      (by simp [before, Pc.holds]) status (fun _ => rfl) (fun _ => rfl)
      (fun _ => id) id (by simp [before, Pc.wakes])
      (fun _ => Or.inl (by rw [before]; trivial))
    rwa [update_eq_self] at written
  | setSleeping =>
    cases stepTo
    have isChan := sound.chan thread before
    have written := sound.write on .schedSleep .sleeping
      (state.chan thread) (by simp [before, Pc.holds]) rfl
      (fun _ => isChan) nofun (fun _ => id) id
      (by simp [before, Pc.wakes])
      (fun _ => Or.inl (by rw [before]; trivial))
    rwa [update_eq_self thread state.chan] at written
  | schedSleep | schedYield rest =>
    cases stepTo
    exact sound.switch on (by simp [before, Pc.holds])
      (by simp [before, Pc.status]) trivial (by simp [before, Pc.wakes])
  | tidy =>
    cases stepTo
    by_cases two : lk ≠ Lock.ptable
    · rw [if_pos two]
      exact sound.tidy on before (by simp [before, Pc.holds]) rfl nofun
        (fun isTable => absurd isTable two) id id
    · rw [if_neg two]
      have isTable : lk = .ptable := by simpa using two
      exact sound.tidy on before (by simp [before, Pc.holds, isTable]) rfl nofun (fun _ => id) id id
  | setCond =>
    cases stepTo
    exact sound.raise on before complete
  | wakeTable =>
    have two : lk ≠ .ptable := notTable (by rw [before]; trivial)
    refine sound.advance_acquire on before ?_ ?_ ?_ stepTo
    · exact ⟨rfl, rfl, nofun, fun _ => id, nofun, nofun, fun other _ => complete other⟩
    · simpa [Pc.holds] using two.symm
    · simp [Pc.holds, or_comm]
  | scan rest =>
    cases rest with
    | cons first rest =>
      cases stepTo
      exact sound.scan on before
    | nil =>
      cases stepTo
      by_cases two : lk ≠ Lock.ptable
      · rw [if_pos two]
        refine sound.advance on before
          ⟨rfl, rfl, nofun, fun isTable => absurd isTable two, nofun, nofun, nofun⟩ ?_
        simp [Pc.holds]
      · rw [if_neg two]
        have isTable : lk = .ptable := by simpa using two
        refine sound.advance on before ⟨rfl, rfl, nofun, fun _ => id, nofun, nofun, nofun⟩ ?_
        simp [Pc.holds, isTable]
  | wakeDone =>
    have two : lk ≠ .ptable := notTable (by rw [before]; trivial)
    cases stepTo
    refine sound.advance_release on before ?_ ?_ ?_
    · exact ⟨rfl, rfl, nofun, fun _ => id, nofun, nofun, nofun⟩
    · simp [Pc.holds]
    · intro other
      constructor
      · rintro rfl
        exact ⟨two, Or.inl rfl⟩
      · rintro ⟨differs, same | same⟩
        · exact same
        · exact absurd same differs
  | yieldTable rest =>
    refine sound.advance_acquire on before ?_ ?_ ?_ stepTo
    · exact ⟨rfl, rfl, nofun, fun _ => id, nofun, nofun, nofun⟩
    · simp [Pc.holds]
    · simp [Pc.holds]
  | setRunnable rest =>
    cases stepTo
    have written := sound.write on (.schedYield rest) .runnable
      (state.chan thread) (by simp [before, Pc.holds]) rfl nofun nofun
      (fun _ => id) id (by simp [before, Pc.wakes]) nofun
    rwa [update_eq_self thread state.chan] at written

/-! ## Steps of a scheduler -/

omit [DecidableEq Thread] in
/-- A step of a scheduler that changes no thread.  It begins and ends with
`ptable.lock` free, or it begins or ends the loop. -/
theorem Sound.of_scheduler {place : OnCpu Thread} {holder : Lock → Option Cpu}
    (before : ∀ thread, state.cpu cpu ≠ .runs thread)
    (after : ∀ thread, place ≠ .runs thread)
    (own : ∀ lock, holder lock = some cpu ↔ Owns lk state.pc place lock)
    (others : ∀ other, other ≠ cpu → ∀ lock,
      holder lock = some other ↔ state.holder lock = some other) :
    Sound lk { state with holder, cpu := update state.cpu cpu place } := by
  have runs : ∀ other thread, update state.cpu cpu place other = .runs thread ↔
        state.cpu other = .runs thread := by
    intro other thread
    rcases eq_or_ne other cpu with rfl | same
    · rw [update_self]
      exact ⟨fun isRunning => absurd isRunning (after thread),
        fun isRunning => absurd isRunning (before thread)⟩
    · rw [update_of_ne same]
  refine { sound with locks := ?_, once := ?_, out := ?_, status := ?_ }
  · intro other lock
    dsimp only
    rcases eq_or_ne other cpu with rfl | same
    · rw [update_self]
      exact own lock
    · rw [update_of_ne same, others other same lock]
      exact sound.locks other lock
  · intro first second thread isFirst isSecond
    exact sound.once first second thread ((runs first thread).mp isFirst)
      ((runs second thread).mp isSecond)
  · intro thread nowhere
    apply sound.out
    intro other isRunning
    exact nowhere other ((runs other thread).mpr isRunning)
  · intro other thread isRunning
    exact sound.status other thread ((runs other thread).mp isRunning)

omit [DecidableEq Thread] in
theorem Sound.schedule (isIdle : state.cpu cpu = .idle) (taken : (state.acquire cpu .ptable).map
      (fun middle => middle.setCpu cpu .scheduling) = some next) :
    Sound lk next := by
  obtain ⟨middle, isMiddle, rfl⟩ := Option.map_eq_some_iff.mp taken
  have nothing : ∀ lock, state.holder lock ≠ some cpu := by
    intro lock isHeld
    rw [sound.locks cpu lock, isIdle] at isHeld
    exact isHeld
  have isFree : state.holder .ptable = none ∧ middle = state.setHolder .ptable (some cpu) := by
    unfold State.acquire at isMiddle
    split at isMiddle
    next isFree => exact ⟨isFree, (Option.some.inj isMiddle).symm⟩
    next holder isHeld =>
      split at isMiddle
      next same =>
        subst same
        exact absurd isHeld (nothing .ptable)
      next => cases isMiddle
  obtain ⟨isFree, rfl⟩ := isFree
  refine sound.of_scheduler (fun thread => by rw [isIdle]; nofun) nofun ?_ ?_
  · intro lock
    rw [State.setHolder_holder]
    by_cases same : lock = .ptable
    · simp [same, Owns]
    · simp [Owns, same, nothing lock]
  · intro other differs lock
    rw [State.setHolder_holder]
    rcases eq_or_ne lock .ptable with rfl | same
    · rw [update_self, isFree]
      simp [Ne.symm differs]
    · rw [update_of_ne same]

section

variable (inside : state.cpu cpu = .scheduling)

include inside

omit [DecidableEq Thread] in
theorem Sound.unschedule : Sound lk ((state.release cpu .ptable).setCpu cpu .idle) := by
  have held : ∀ lock, state.holder lock = some cpu ↔ lock = .ptable := by
    intro lock
    rw [sound.locks cpu lock, inside]
    rfl
  rw [State.release, if_pos ((held .ptable).mpr rfl)]
  refine sound.of_scheduler (fun thread => by simp [inside]) (by simp) ?_ ?_
  · intro lock
    rw [State.setHolder_holder]
    by_cases same : lock = .ptable
    · simp [same, Owns]
    · rw [update_of_ne same, held lock]
      simp [Owns, same]
  · intro other differs lock
    rw [State.setHolder_holder]
    rcases eq_or_ne lock .ptable with rfl | same
    · rw [update_self, (held .ptable).mpr rfl]
      simp [Ne.symm differs]
    · rw [update_of_ne same]

omit [DecidableEq Cpu] [DecidableEq Thread] in
/-- A thread that the scheduler finds `RUNNABLE` is on no CPU: while it goes
through `sched` its CPU holds `ptable.lock`. -/
theorem Sound.runnable_out (runnable : state.status thread = .runnable) (other : Cpu) :
    state.cpu other ≠ .runs thread := by
  intro runs
  have status := sound.status other thread runs
  rw [runnable] at status
  obtain ⟨rest, inSched⟩ := Pc.eq_schedYield_of_status status.symm
  have held : state.holder .ptable = some other := by
    rw [sound.locks, runs]
    change (state.pc thread).holds lk .ptable
    rw [inSched]
    rfl
  have ours : state.holder .ptable = some cpu := by
    rw [sound.locks, inside]
    rfl
  have same : other = cpu := Option.some.inj (held.symm.trans ours)
  rw [same, inside] at runs
  cases runs

theorem Sound.pick (runnable : state.status thread = .runnable) :
    Sound lk ((state.setStatus thread .running).setCpu cpu (.runs thread)) := by
  have nowhere := sound.runnable_out inside runnable
  have out := sound.out thread nowhere
  have cpus : ∀ other, other ≠ cpu → update state.cpu cpu (.runs thread) other = state.cpu other :=
    fun other differs => update_of_ne differs _ _
  have own : update state.cpu cpu (.runs thread) cpu =
      .runs thread := update_self _ _ _
  have statuses : ∀ other, other ≠ thread → update state.status thread .running other =
        state.status other :=
    fun other differs => update_of_ne differs _ _
  have elsewhere : ∀ other second, update state.cpu cpu (.runs thread) other = .runs second →
        other = cpu ∧ second = thread ∨
          other ≠ cpu ∧ second ≠ thread ∧ state.cpu other = .runs second := by
    intro other second runs
    rcases eq_or_ne other cpu with rfl | same
    · rw [own] at runs
      exact Or.inl ⟨rfl, (OnCpu.runs.inj runs).symm⟩
    · rw [cpus other same] at runs
      refine Or.inr ⟨same, ?_, runs⟩
      rintro rfl
      exact nowhere other runs
  have asleep : ∀ other, update state.status thread .running other = .sleeping →
        state.status other = .sleeping := by
    intro other isAsleep
    by_cases same : other = thread
    · rw [same, update_self] at isAsleep
      cases isAsleep
    · rwa [statuses other same] at isAsleep
  refine ⟨?_, ?_, ?_, ?_, ?_, sound.chan, sound.plain, sound.unset, ?_, sound.panic⟩
  · intro other lock
    change state.holder lock = some other ↔ Owns lk state.pc
      (update state.cpu cpu (.runs thread) other) lock
    rw [sound.locks other lock]
    rcases eq_or_ne other cpu with rfl | same
    · rw [own, inside]
      exact (Pc.holds_of_switchedOut out lk lock).symm
    · rw [cpus other same]
  · intro first second other isFirst isSecond
    rcases elsewhere first other isFirst with ⟨firstCpu, isThread⟩ | ⟨-, notThread, ranFirst⟩
    · rcases elsewhere second other isSecond with ⟨secondCpu, -⟩ | ⟨-, notThread, -⟩
      · rw [firstCpu, secondCpu]
      · exact absurd isThread notThread
    · rcases elsewhere second other isSecond with ⟨-, isThread⟩ | ⟨-, -, ranSecond⟩
      · exact absurd isThread notThread
      · exact sound.once first second other ranFirst ranSecond
  · intro other notRunning
    apply sound.out
    intro second runs
    by_cases same : second = cpu
    · rw [same, inside] at runs
      cases runs
    · exact notRunning second ((cpus second same).trans runs)
  · intro other second runs
    change update state.status thread .running second = (state.pc second).status
    rcases elsewhere other second runs with ⟨-, rfl⟩ | ⟨-, differs, ran⟩
    · rw [update_self, Pc.status_of_switchedOut out]
    · rw [statuses second differs]
      exact sound.status other second ran
  · intro other isAsleep
    exact sound.asleep other (asleep other isAsleep)
  · rintro other (falls | isAsleep) holds
    · exact sound.wakes other (Or.inl falls) holds
    · exact sound.wakes other (Or.inr (asleep other isAsleep)) holds

end

theorem Sound.step {label : Label Cpu Thread} (complete : ∀ thread, thread ∈ table)
    (stepTo : state.step lk table label = some next) : Sound lk next := by
  have acts : state.act lk table label = some next := by
    simpa [State.step, sound.panic] using stepTo
  cases label with simp only [State.act] at acts
  | run cpu =>
    split at acts
    next thread on => exact sound.run complete on acts
    next => cases acts
  | begin cpu role =>
    split at acts
    next thread on =>
      split at acts <;> cases acts
      next before =>
        refine sound.advance on before ⟨rfl, rfl, nofun, fun _ => id, nofun, nofun, nofun⟩ ?_
        simp [Pc.holds]
    next => cases acts
  | preempt cpu =>
    split at acts
    next thread on =>
      split at acts <;> cases acts
      next rest before =>
        refine sound.advance on before ⟨rfl, rfl, nofun, fun _ => id, nofun, nofun, nofun⟩ ?_
        simp [Pc.holds]
    next => cases acts
  | schedule cpu =>
    split at acts
    next isIdle => exact sound.schedule isIdle acts
    next => cases acts
  | pick cpu thread =>
    split at acts
    next inside =>
      split at acts <;> cases acts
      next runnable => exact sound.pick inside runnable
    next => cases acts
  | unschedule cpu =>
    split at acts <;> cases acts
    next inside => exact sound.unschedule inside

end

omit [DecidableEq Cpu] [DecidableEq Thread] in
theorem sound_of_initial (initial : state.Initial) (lk : Lock) :
    Sound lk state := by
  refine ⟨?_, ?_, ?_, ?_, ?_, ?_, ?_, ?_, ?_, initial.panic⟩
  · intro cpu lock
    rw [initial.holder, initial.cpu]
    simp [Owns]
  · intro first second thread runs
    rw [initial.cpu] at runs
    cases runs
  · intro thread _
    rw [initial.pc]
    trivial
  · intro cpu thread runs
    rw [initial.cpu] at runs
    cases runs
  · intro thread asleep
    rw [initial.status] at asleep
    cases asleep
  · intro thread isSet
    rw [initial.pc] at isSet
    cases isSet
  · intro _ thread
    rw [initial.pc]
    exact id
  · intro thread decided
    rw [initial.pc] at decided
    exact decided.elim
  · rintro thread (falls | asleep)
    · rw [initial.pc] at falls
      exact falls.elim
    · rw [initial.status] at asleep
      cases asleep

/-- No wakeup is lost: while a thread sleeps although the condition is true, a
waker is still inside its critical section. -/
theorem no_lost_wakeup (complete : ∀ thread, thread ∈ table) (initial : state.Initial)
    (reaches : Reaches (State.step lk table) state next) :
    ¬ ∃ thread, next.status thread = .sleeping ∧ next.chan thread = true ∧
      next.cond = true ∧ ∀ waker, ¬ (next.pc waker).wakerInside := by
  have sound : Sound lk next :=
    Reaches.invariant reaches (Sound lk) (sound_of_initial initial lk)
      fun _ _ _ holds stepTo => holds.step complete stepTo
  rintro ⟨thread, asleep, -, holds, nobody⟩
  obtain ⟨waker, wakes⟩ := sound.wakes thread (Or.inr asleep) holds
  exact nobody waker (Pc.wakerInside_of_wakes wakes)

end Invariant

def twoThreads : State Bool Bool where
  holder := fun _ => none
  cpu := fun _ => .idle
  pc := fun _ => .yieldDone .outside
  status := fun _ => .runnable
  chan := fun _ => false
  cond := false
  panic := false

/-- A waker makes the condition true before the sleeper is marked `SLEEPING`,
and finds it asleep. -/
theorem no_lost_wakeup_twoThreads :
    ∃ next, Reaches (State.step .ordinary [false, true]) twoThreads next ∧
      next.status true = .sleeping ∧ next.chan true = true ∧
      next.cond = true ∧
      ¬ ∃ thread, next.status thread = .sleeping ∧ next.chan thread = true ∧
        next.cond = true ∧ ∀ waker, ¬ (next.pc waker).wakerInside := by
  obtain ⟨next, run, asleep, chan, cond⟩ :
      ∃ next ∈ runLabels (State.step .ordinary [false, true]) twoThreads
      [.schedule true, .pick true true, .run true, .schedule false,
        .pick false false, .run false, .begin true .sleeper,
        .begin false .waker, .run true, .run true, .run true, .run true,
        .run false, .run false, .run true, .run true, .run true,
        .unschedule true, .run false, .run false],
      next.status true = .sleeping ∧ next.chan true = true ∧
        next.cond = true := by
    decide +kernel
  have reaches := reaches_of_runLabels _ run
  have initial : twoThreads.Initial := ⟨fun _ => rfl, fun _ => rfl, fun _ => rfl, fun _ => rfl, rfl⟩
  exact ⟨next, reaches, asleep, chan, cond, no_lost_wakeup (by decide) initial reaches⟩

end SleepWakeup

end Xv6Kthreads
