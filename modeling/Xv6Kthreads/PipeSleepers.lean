import Xv6Kthreads.Pipe

/-!
# Threads that sleep on a pipe

A thread that finds a pipe full or empty sleeps on one of two channels and is
woken by the other side, by `pipeclose` or by `kill`.  This file follows who is
asleep through the sections of `pipewrite`, `piperead` and `pipeclose`, and asks
whether a sleeper still waits for something that has not happened.

A `pipewrite` that fills the pipe and then finds that its process has been
killed, or that the read end is closed, returns without a wakeup for the bytes
it has stored.  In runs without such a return nobody sleeps for nothing.
-/

namespace Xv6Kthreads

namespace Pipe

open LabelledRun Function List

/-- Where a thread is in the calls on a pipe.  A thread that waits is asleep, or
it has been woken and is going to take the lock again. -/
inductive Place where
  | away
  | writing (asleep : Bool) (n : Int) (left : List UInt8)
  | reading (asleep : Bool) (n : Int)
  deriving DecidableEq, Repr

namespace Place

def wakeReader : Place → Place
  | .reading _ n => .reading false n
  | place => place

def wakeWriter : Place → Place
  | .writing _ n left => .writing false n left
  | place => place

def rouse (place : Place) : Place :=
  place.wakeReader.wakeWriter

end Place

structure Sleepers (Thread Process : Type*) where
  pipe : Pipe
  place : Thread → Place
  killed : Process → Bool

namespace Sleepers

inductive Label (Thread Process : Type*) where
  /-- A thread calls `pipewrite` on the `n` bytes at `addr`. -/
  | write (thread : Thread) (addr : Nat → UInt8) (n : Int)
  /-- A thread calls `piperead`. -/
  | read (thread : Thread) (n : Int)
  /-- A thread that has been woken takes the lock again. -/
  | resume (thread : Thread)
  | close (writable : Bool)
  | kill (process : Process)

variable {Thread Process : Type*} [DecidableEq Thread] [DecidableEq Process]
variable (owner : Thread → Process) (sleepers : Sleepers Thread Process)

/-- The part of `pipewrite` from where it takes the lock to where it releases
it. -/
def writeSection (thread : Thread) (n : Int) (left : List UInt8) : Sleepers Thread Process :=
  let result := sleepers.pipe.pipewrite (sleepers.killed (owner thread)) n left
  match result.2.2 with
  | .sleeps rest =>
    { sleepers with
      pipe := result.1
      place := update (fun other =>
        (sleepers.place other).wakeReader) thread (.writing true n rest) }
  | .returns _ =>
    { sleepers with
      pipe := result.1
      -- The return from inside the loop has no `wakeup`.
      place := update (fun other =>
        if result.2.1 = left.length then (sleepers.place other).wakeReader
        else sleepers.place other) thread .away }

/-- The part of `piperead` from where it takes the lock to where it releases
it. -/
def readSection (thread : Thread) (n : Int) : Sleepers Thread Process :=
  let result := sleepers.pipe.piperead (sleepers.killed (owner thread)) n
  match result.2.2 with
  | .sleeps _ =>
    { sleepers with
      place := update sleepers.place thread (.reading true n) }
  | .returns _ =>
    { sleepers with
      pipe := result.1
      place := update (fun other =>
        if sleepers.pipe.empty = true ∧ sleepers.pipe.writeopen = true then
          sleepers.place other
        else (sleepers.place other).wakeWriter) thread .away }

def closeSection (writable : Bool) : Sleepers Thread Process :=
  { sleepers with
    pipe := sleepers.pipe.pipeclose writable
    place := fun other =>
      if writable then (sleepers.place other).wakeReader
      else (sleepers.place other).wakeWriter }

def kill (process : Process) : Sleepers Thread Process :=
  { sleepers with
    killed := update sleepers.killed process true
    place := fun other =>
      if owner other = process then (sleepers.place other).rouse
      else sleepers.place other }

def step : Label Thread Process → Option (Sleepers Thread Process)
  | .write thread addr n =>
    match sleepers.place thread with
    | .away =>
      some (sleepers.writeSection owner thread n ((range n.toNat).map addr))
    | _ => none
  | .read thread n =>
    match sleepers.place thread with
    | .away => some (sleepers.readSection owner thread n)
    | _ => none
  | .resume thread =>
    match sleepers.place thread with
    | .writing false n left => some (sleepers.writeSection owner thread n left)
    | .reading false n => some (sleepers.readSection owner thread n)
    | _ => none
  | .close writable => some (sleepers.closeSection writable)
  | .kill process => some (sleepers.kill owner process)

def room (pipe : Pipe) : Nat :=
  PIPESIZE - (pipe.nwrite - pipe.nread).toNat

/-- A writer that cannot wait, because its process has been killed or the read
end is closed, has room for all its bytes or for none. -/
def WriterFits (thread : Thread) (left : List UInt8) : Prop :=
  sleepers.killed (owner thread) = false ∧ sleepers.pipe.readopen = true ∨
    sleepers.pipe.full = true ∨ left.length ≤ room sleepers.pipe

/-- No section of `pipewrite` returns after it has stored only a part of its
bytes. -/
def Fits : Label Thread Process → Prop
  | .write thread addr n => sleepers.WriterFits owner thread ((range n.toNat).map addr)
  | .resume thread =>
    match sleepers.place thread with
    | .writing _ _ left => sleepers.WriterFits owner thread left
    | _ => True
  | _ => True

instance (sleepers : Sleepers Thread Process) (thread : Thread)
    (left : List UInt8) : Decidable (sleepers.WriterFits owner thread left) :=
  inferInstanceAs (Decidable (_ ∧ _ ∨ _ ∨ _))

instance (sleepers : Sleepers Thread Process) : DecidablePred (sleepers.Fits owner)
  | .write thread addr n =>
    inferInstanceAs (Decidable (sleepers.WriterFits owner thread ((range n.toNat).map addr)))
  | .read _ _ => isTrue trivial
  | .resume thread =>
    match isPlace : sleepers.place thread with
    | .writing asleep n left =>
      decidable_of_iff (sleepers.WriterFits owner thread left) (by simp only [Fits, isPlace])
    | .reading asleep n => isTrue (by simp only [Fits, isPlace])
    | .away => isTrue (by simp only [Fits, isPlace])
  | .close _ => isTrue trivial
  | .kill _ => isTrue trivial

end Sleepers

/-! ## The loops of a section -/

section Loops

variable {pipe : Pipe}

theorem store_of_full (isFull : pipe.full = true) (bytes : List UInt8) :
    pipe.store bytes = (pipe, 0) := by
  cases bytes with
  | nil => rfl
  | cons byte bytes => simp [store, isFull]

theorem store_full {bytes : List UInt8} (early : (pipe.store bytes).2 < bytes.length) :
    (pipe.store bytes).1.full = true := by
  induction bytes generalizing pipe with
  | nil => simp [store] at early
  | cons byte bytes ih =>
    rw [store] at early ⊢
    split at early
    next isFull =>
      rw [if_pos isFull]
      exact isFull
    next notFull =>
      rw [if_neg notFull]
      apply ih
      simp only [length_cons] at early
      omega

theorem store_ends (pipe : Pipe) (bytes : List UInt8) :
    (pipe.store bytes).1.readopen = pipe.readopen ∧
      (pipe.store bytes).1.writeopen = pipe.writeopen := by
  induction bytes generalizing pipe with
  | nil => exact ⟨rfl, rfl⟩
  | cons byte bytes ih =>
    rw [store]
    split
    next => exact ⟨rfl, rfl⟩
    next => exact ih (pipe.put byte)

theorem store_of_room {bytes : List UInt8} (fits : bytes.length ≤ Sleepers.room pipe) :
    (pipe.store bytes).2 = bytes.length := by
  induction bytes generalizing pipe with
  | nil => rfl
  | cons byte bytes ih =>
    have notFull : ¬ pipe.full = true := by
      intro isFull
      rw [full, beq_iff_eq] at isFull
      have difference : pipe.nwrite - pipe.nread = UInt32.ofNat PIPESIZE := by
        rw [isFull, UInt32.add_comm, UInt32.add_sub_cancel]
      rw [Sleepers.room, difference, UInt32.toNat_ofNat_of_lt' pipesize_lt, length_cons] at fits
      omega
    rw [store, if_neg notFull]
    have next : (pipe.put byte).nwrite - (pipe.put byte).nread =
        (pipe.nwrite - pipe.nread) + 1 := by
      simp only [put, UInt32.sub_eq_add_neg]
      rw [UInt32.add_assoc, UInt32.add_assoc, UInt32.add_comm 1]
    have later : bytes.length ≤ Sleepers.room (pipe.put byte) := by
      rw [Sleepers.room, length_cons] at fits
      rw [Sleepers.room, next, UInt32.toNat_add]
      have one : (1 : UInt32).toNat = 1 := rfl
      omega
    simp only [ih later, length_cons]

/-- A section of `pipewrite` stores all its bytes, or it fills the pipe and
returns early or sleeps. -/
theorem pipewrite_cases (pipe : Pipe) (killed : Bool) (n : Int) (left : List UInt8) :
    (pipe.store left).2 = left.length ∧ pipe.pipewrite killed n left =
          ((pipe.store left).1, left.length, .returns n) ∨
      (pipe.store left).2 < left.length ∧ (pipe.readopen = false ∨ killed = true) ∧
          pipe.pipewrite killed n left = ((pipe.store left).1, (pipe.store left).2, .returns (-1)) ∨
        (pipe.store left).2 < left.length ∧ pipe.readopen = true ∧
          ∃ rest, pipe.pipewrite killed n left =
            ((pipe.store left).1, (pipe.store left).2, .sleeps rest) := by
  have bound := store_le pipe left
  have ends := (store_ends pipe left).1
  unfold pipewrite
  dsimp only
  cases rest : left.drop (pipe.store left).2 with
  | nil =>
    have all := drop_eq_nil_iff.mp rest
    have same : (pipe.store left).2 = left.length := by omega
    exact Or.inl ⟨same, by rw [same]⟩
  | cons byte bytes =>
    have early : (pipe.store left).2 < left.length := by
      by_contra whole
      rw [drop_eq_nil_of_le (by omega)] at rest
      cases rest
    dsimp only
    rw [ends]
    by_cases returns : pipe.readopen = false ∨ killed = true
    · rw [if_pos returns]
      exact Or.inr (Or.inl ⟨early, returns, rfl⟩)
    · rw [if_neg returns]
      refine Or.inr (Or.inr ⟨early, ?_, _, rfl⟩)
      simpa using (not_or.mp returns).1

end Loops

namespace Sleepers

variable {Thread Process : Type*}
variable {owner : Thread → Process}
variable {sleepers after : Sleepers Thread Process} {thread : Thread}

/-- Readers sleep while the pipe is empty and its write end open, writers while
it is full and its read end open. -/
structure Justified (sleepers : Sleepers Thread Process) : Prop where
  readers : ∀ thread n, sleepers.place thread = .reading true n →
    sleepers.pipe.empty = true ∧ sleepers.pipe.writeopen = true
  writers : ∀ thread n left, sleepers.place thread = .writing true n left →
    sleepers.pipe.full = true ∧ sleepers.pipe.readopen = true

variable (place : Place)

theorem wakeReader_ne (n : Int) : place.wakeReader ≠ .reading true n := by
  cases place <;> simp [Place.wakeReader]

theorem wakeReader_writing {place : Place} {n : Int} {left : List UInt8}
    (woken : place.wakeReader = .writing true n left) :
    place = .writing true n left := by
  cases place <;> simp_all [Place.wakeReader]

theorem wakeWriter_ne (n : Int) (left : List UInt8) : place.wakeWriter ≠ .writing true n left := by
  cases place <;> simp [Place.wakeWriter]

theorem wakeWriter_reading {place : Place} {n : Int} (woken : place.wakeWriter = .reading true n) :
    place = .reading true n := by
  cases place <;> simp_all [Place.wakeWriter]

theorem rouse_ne_reading (n : Int) : place.rouse ≠ .reading true n := by
  cases place <;> simp [Place.rouse, Place.wakeReader, Place.wakeWriter]

theorem rouse_ne_writing (n : Int) (left : List UInt8) : place.rouse ≠ .writing true n left := by
  cases place <;> simp [Place.rouse, Place.wakeReader, Place.wakeWriter]

/-- A writer that fits stores all its bytes, finds the pipe full, or can
wait. -/
theorem WriterFits.cases {left : List UInt8} (fits : sleepers.WriterFits owner thread left)
    (early : (sleepers.pipe.store left).2 < left.length)
    (returns : sleepers.pipe.readopen = false ∨ sleepers.killed (owner thread) = true) :
    sleepers.pipe.store left = (sleepers.pipe, 0) := by
  rcases fits with ⟨alive, isOpen⟩ | isFull | fits
  · rw [alive, isOpen] at returns
    simp at returns
  · exact store_of_full isFull left
  · have all := store_of_room fits
    omega

/-- After a section `places` says where the other threads are and `own` where
its own thread is. -/
theorem justified_update [DecidableEq Thread] {pipe : Pipe} {places : Thread → Place}
    {own : Place} {killed : Process → Bool}
    (awake : (∀ n, own ≠ .reading true n) ∨ pipe.empty = true ∧ pipe.writeopen = true)
    (ready : (∀ n left, own ≠ .writing true n left) ∨ pipe.full = true ∧ pipe.readopen = true)
    (readers : ∀ other n, places other = .reading true n →
      pipe.empty = true ∧ pipe.writeopen = true)
    (writers : ∀ other n left, places other = .writing true n left →
      pipe.full = true ∧ pipe.readopen = true) :
    Justified (Sleepers.mk pipe (update places thread own) killed) := by
  refine ⟨?_, ?_⟩
  · intro other n isReading
    change update places thread own other = _ at isReading
    by_cases same : other = thread
    · rw [same, update_self] at isReading
      rcases awake with awake | waits
      · exact absurd isReading (awake n)
      · exact waits
    · rw [update_of_ne same] at isReading
      exact readers other n isReading
  · intro other n left isWriting
    change update places thread own other = _ at isWriting
    by_cases same : other = thread
    · rw [same, update_self] at isWriting
      rcases ready with ready | waits
      · exact absurd isWriting (ready n left)
      · exact waits
    · rw [update_of_ne same] at isWriting
      exact writers other n left isWriting

section

variable (justified : sleepers.Justified)
include justified

theorem Justified.writeSection [DecidableEq Thread] {n : Int} {left : List UInt8}
    (fits : sleepers.WriterFits owner thread left) :
    (sleepers.writeSection owner thread n left).Justified := by
  have ends := store_ends sleepers.pipe left
  unfold Sleepers.writeSection
  rcases pipewrite_cases sleepers.pipe (sleepers.killed (owner thread)) n left
    with ⟨all, result⟩ | ⟨early, returns, result⟩ | ⟨early, isOpen, rest, result⟩
  · -- The end of `pipewrite` wakes the readers; a writer that slept found the
    -- pipe full, so that nothing has been stored.
    rw [result]
    refine justified_update (Or.inl (by simp)) (Or.inl (by simp)) ?_ ?_
    · intro other m isReading
      rw [if_pos rfl] at isReading
      exact absurd isReading (wakeReader_ne _ _)
    · intro other m more isWriting
      rw [if_pos rfl] at isWriting
      obtain ⟨isFull, isOpen⟩ := justified.writers other m more (wakeReader_writing isWriting)
      rw [store_of_full isFull]
      exact ⟨isFull, isOpen⟩
  · have unchanged := fits.cases early returns
    rw [unchanged] at early
    rw [result, unchanged]
    have notAll : ¬ 0 = left.length := by
      omega
    refine justified_update (Or.inl (by simp)) (Or.inl (by simp)) ?_ ?_
    · intro other m isReading
      rw [if_neg notAll] at isReading
      exact justified.readers other m isReading
    · intro other m more isWriting
      rw [if_neg notAll] at isWriting
      exact justified.writers other m more isWriting
  · rw [result]
    have waits : (sleepers.pipe.store left).1.full = true ∧
        (sleepers.pipe.store left).1.readopen = true :=
      ⟨store_full early, ends.1.trans isOpen⟩
    refine justified_update (Or.inl (by simp)) (Or.inr waits) ?_ (fun _ _ _ _ => waits)
    intro other m isReading
    exact absurd isReading (wakeReader_ne _ _)

theorem Justified.readSection [DecidableEq Thread] (n : Int) :
    (sleepers.readSection owner thread n).Justified := by
  unfold Sleepers.readSection piperead
  by_cases waits : sleepers.pipe.empty = true ∧ sleepers.pipe.writeopen = true
  · rw [if_pos waits]
    cases sleepers.killed (owner thread) with
    | true =>
      refine justified_update (Or.inl (by simp)) (Or.inl (by simp)) (fun _ _ _ => waits) ?_
      intro other m more isWriting
      rw [if_pos waits] at isWriting
      exact justified.writers other m more isWriting
    | false =>
      exact justified_update (Or.inr waits) (Or.inl (by simp))
        (fun _ _ _ => waits) justified.writers
  · rw [if_neg waits]
    refine justified_update (Or.inl (by simp)) (Or.inl (by simp)) ?_ ?_
    · intro other m isReading
      rw [if_neg waits] at isReading
      exact absurd (justified.readers other m (wakeWriter_reading isReading)) waits
    · intro other m more isWriting
      rw [if_neg waits] at isWriting
      exact absurd isWriting (wakeWriter_ne _ _ _)

theorem Justified.closeSection (writable : Bool) : (sleepers.closeSection writable).Justified := by
  cases writable with
  | true =>
    refine ⟨?_, ?_⟩
    · intro other m isReading
      exact absurd isReading (wakeReader_ne _ _)
    · intro other m more isWriting
      exact justified.writers other m more (wakeReader_writing isWriting)
  | false =>
    refine ⟨?_, ?_⟩
    · intro other m isReading
      exact justified.readers other m (wakeWriter_reading isReading)
    · intro other m more isWriting
      exact absurd isWriting (wakeWriter_ne _ _ _)

theorem Justified.kill [DecidableEq Process] (process : Process) :
    (sleepers.kill owner process).Justified := by
  refine ⟨?_, ?_⟩
  · intro other m isReading
    simp only [Sleepers.kill] at isReading
    split at isReading
    next => exact absurd isReading (rouse_ne_reading _ _)
    next => exact justified.readers other m isReading
  · intro other m more isWriting
    simp only [Sleepers.kill] at isWriting
    split at isWriting
    next => exact absurd isWriting (rouse_ne_writing _ _ _)
    next => exact justified.writers other m more isWriting

end

variable [DecidableEq Thread] [DecidableEq Process]

theorem Justified.step {label : Label Thread Process} (justified : sleepers.Justified)
    (fits : sleepers.Fits owner label) (stepTo : sleepers.step owner label = some after) :
    after.Justified := by
  cases label with
  | write thread addr n =>
    simp only [Sleepers.step] at stepTo
    split at stepTo <;> cases stepTo
    exact justified.writeSection fits
  | read thread n =>
    simp only [Sleepers.step] at stepTo
    split at stepTo <;> cases stepTo
    exact justified.readSection n
  | resume thread =>
    simp only [Sleepers.step] at stepTo
    split at stepTo <;> cases stepTo
    next n left isPlace =>
      simp only [Fits, isPlace] at fits
      exact justified.writeSection fits
    next n isPlace => exact justified.readSection n
  | close writable =>
    cases stepTo
    exact justified.closeSection writable
  | kill process =>
    cases stepTo
    exact justified.kill process

/-- If a writer that cannot wait has room for all its bytes or for none, whoever
sleeps at the pipe has a reason to. -/
theorem no_missed_event (unused : ∀ thread, sleepers.place thread = .away)
    (reaches : GuardedReaches (step owner) (Fits owner) sleepers after) :
    (∀ thread n, after.place thread = .reading true n →
      after.pipe.empty = true ∧ after.pipe.writeopen = true) ∧
    (∀ thread n left, after.place thread = .writing true n left →
      after.pipe.full = true ∧ after.pipe.readopen = true) := by
  have initially : sleepers.Justified := by
    refine ⟨?_, ?_⟩
    · intro thread n isReading
      rw [unused thread] at isReading
      cases isReading
    · intro thread n left isWriting
      rw [unused thread] at isWriting
      cases isWriting
  have justified : after.Justified :=
    GuardedReaches.invariant reaches Justified initially
      fun _ _ _ holds fits stepTo => holds.step fits stepTo
  exact ⟨justified.readers, justified.writers⟩

def twoProcesses : Sleepers Bool Bool where
  pipe := pipealloc fun _ => 0
  place := fun _ => .away
  killed := fun _ => false

/-- A reader sleeps, a writer fills the pipe and sleeps, and both go on. -/
theorem no_missed_event_twoProcesses :
    ∃ after, GuardedReaches (step id) (Fits id) twoProcesses after ∧
      (∃ n left, after.place true = .writing true n left) ∧
      (∀ thread n, after.place thread = .reading true n →
        after.pipe.empty = true ∧ after.pipe.writeopen = true) ∧
      (∀ thread n left, after.place thread = .writing true n left →
        after.pipe.full = true ∧ after.pipe.readopen = true) := by
  obtain ⟨after, run, asleep⟩ : ∃ after ∈ runLabels (restrict (step id) (Fits id)) twoProcesses
      [.read false 5, .write true (fun _ => 7) 600, .resume false,
        .read false 1, .resume true],
      after.place true = .writing true 600 (replicate 82 7) := by
    decide +kernel
  have reaches := guardedReaches_of_runLabels _ run
  obtain ⟨readers, writers⟩ := no_missed_event (fun _ => rfl) reaches
  exact ⟨after, reaches, ⟨600, _, asleep⟩, readers, writers⟩

/-- A killed writer fills the pipe and leaves the reader asleep. -/
theorem killed_writer_leaves_reader_asleep : ∃ after, Reaches (step id) twoProcesses after ∧
      after.place false = .reading true 1 ∧ after.pipe.empty = false := by
  exact exists_reaches [.read false 1, .kill true, .write true (fun _ => 7) 513]
    (by decide +kernel)

end Sleepers

end Pipe

end Xv6Kthreads
