import Xv6Kthreads.LabelledRun
import Xv6Kthreads.RingBuffer

/-!
# Pipes

A pipe is a ring buffer of `PIPESIZE` bytes in a page of its own, with two
free-running 32-bit counters and a flag for each of its two ends.  A writer
stores its bytes one by one and sleeps when the buffer is full; a reader sleeps
while it is empty and the write end is open, and then takes what there is.
Each stretch of `pipewrite` and `piperead` between two sleeps is a section
under the lock of the pipe.

The bytes that readers have removed are a prefix of the bytes that writers have
stored, whatever the sections' order and however often the counters wrap.
-/

namespace Xv6Kthreads

open Function List

def PIPESIZE : Nat := 512

instance : NeZero PIPESIZE :=
  ⟨by decide⟩

structure Pipe where
  data : Fin PIPESIZE → UInt8
  /-- Number of bytes read. -/
  nread : UInt32
  /-- Number of bytes written. -/
  nwrite : UInt32
  /-- The read end is still open. -/
  readopen : Bool
  /-- The write end is still open. -/
  writeopen : Bool

/-- How far a section of `pipewrite` or `piperead` brings the call. -/
inductive PipeProgress (α : Type) where
  | returns (value : Int)
  | sleeps (left : α)

namespace Pipe

open RingBuffer LabelledRun

/-- The fields that `pipealloc` sets; the data are what the page contains. -/
def pipealloc (data : Fin PIPESIZE → UInt8) : Pipe where
  data := data
  nread := 0
  nwrite := 0
  readopen := true
  writeopen := true

variable (pipe : Pipe)

def full : Bool :=
  pipe.nwrite == pipe.nread + UInt32.ofNat PIPESIZE

def empty : Bool :=
  pipe.nread == pipe.nwrite

def put (byte : UInt8) : Pipe :=
  { pipe with
    data := update pipe.data (slot PIPESIZE pipe.nwrite.toNat) byte
    nwrite := pipe.nwrite + 1 }

def front : UInt8 :=
  pipe.data (slot PIPESIZE pipe.nread.toNat)

def drop : Pipe :=
  { pipe with nread := pipe.nread + 1 }

/-- The loop of `pipewrite` until all bytes are stored or the pipe is full: the
pipe and the number of bytes stored. -/
def store (pipe : Pipe) : List UInt8 → Pipe × Nat
  | [] => (pipe, 0)
  | byte :: bytes =>
    if pipe.full then
      (pipe, 0)
    else
      let rest := (pipe.put byte).store bytes
      (rest.1, rest.2 + 1)

theorem store_le (pipe : Pipe) (bytes : List UInt8) : (pipe.store bytes).2 ≤ bytes.length := by
  induction bytes generalizing pipe with
  | nil => simp [store]
  | cons byte bytes ih =>
    rw [store]
    split
    next => simp
    next => simpa using ih (pipe.put byte)

/-- The loop of `piperead` over at most `n` bytes: the pipe and the bytes
copied. -/
def fetch (pipe : Pipe) : Nat → Pipe × List UInt8
  | 0 => (pipe, [])
  | n + 1 =>
    if pipe.empty then
      (pipe, [])
    else
      let rest := pipe.drop.fetch n
      (rest.1, pipe.front :: rest.2)

/-- A section of `pipewrite`: the bytes not yet stored are `left`. -/
def pipewrite (killed : Bool) (n : Int) (left : List UInt8) :
    Pipe × Nat × PipeProgress (List UInt8) :=
  let after := pipe.store left
  match left.drop after.2 with
  | [] => (after.1, after.2, .returns n)
  | byte :: bytes =>
    if after.1.readopen = false ∨ killed = true then
      (after.1, after.2, .returns (-1))
    else
      (after.1, after.2, .sleeps (byte :: bytes))

def piperead (killed : Bool) (n : Int) : Pipe × List UInt8 × PipeProgress Unit :=
  if pipe.empty = true ∧ pipe.writeopen = true then
    if killed then
      (pipe, [], .returns (-1))
    else
      (pipe, [], .sleeps ())
  else
    let after := pipe.fetch n.toNat
    (after.1, after.2, .returns after.2.length)

def pipeclose (writable : Bool) : Pipe :=
  if writable then
    { pipe with writeopen := false }
  else
    { pipe with readopen := false }

/-! ## Threads that share a pipe -/

inductive Activity where
  | idle
  | writing (n : Int) (left : List UInt8)
  | reading (n : Int)

/-- A pipe and its threads.  `stored` and `removed` are all the bytes that
writers have stored and readers have removed, in order. -/
structure System (Thread : Type*) where
  pipe : Pipe
  activity : Thread → Activity
  killed : Thread → Bool
  stored : List UInt8
  removed : List UInt8

inductive Label (Thread : Type*) where
  /-- A thread calls `pipewrite` on the `n` bytes at `addr`. -/
  | write (thread : Thread) (addr : Nat → UInt8) (n : Int)
  /-- A thread calls `piperead`. -/
  | read (thread : Thread) (n : Int)
  /-- A thread that sleeps in one of the two is woken and goes on. -/
  | wake (thread : Thread)
  | kill (thread : Thread)
  | close (writable : Bool)

variable {Thread : Type*} [DecidableEq Thread]

namespace System

variable (system : System Thread)

def writeSection (thread : Thread) (n : Int) (left : List UInt8) : System Thread :=
  let result := system.pipe.pipewrite (system.killed thread) n left
  { system with
    pipe := result.1
    stored := system.stored ++ left.take result.2.1
    activity := update system.activity thread (match result.2.2 with
      | .returns _ => .idle
      | .sleeps rest => .writing n rest) }

def readSection (thread : Thread) (n : Int) : System Thread :=
  let result := system.pipe.piperead (system.killed thread) n
  { system with
    pipe := result.1
    removed := system.removed ++ result.2.1
    activity := update system.activity thread (match result.2.2 with
      | .returns _ => .idle
      | .sleeps _ => .reading n) }

def step : Label Thread → Option (System Thread)
  | .write thread addr n =>
    match system.activity thread with
    | .idle =>
      some (system.writeSection thread n ((range n.toNat).map addr))
    | _ => none
  | .read thread n =>
    match system.activity thread with
    | .idle => some (system.readSection thread n)
    | _ => none
  | .wake thread =>
    match system.activity thread with
    | .idle => none
    | .writing n left => some (system.writeSection thread n left)
    | .reading n => some (system.readSection thread n)
  | .kill thread => some { system with killed := update system.killed thread true }
  | .close writable => some { system with pipe := system.pipe.pipeclose writable }

def Initial : Prop :=
  system.pipe = pipealloc system.pipe.data ∧ system.stored = [] ∧ system.removed = [] ∧
      ∀ thread, system.activity thread = .idle

end System

/-! ## The stream of a pipe -/

/-- The buffer holds `pending`, the part of a stream that begins after `first`
bytes, and the counters are its ends modulo `2 ^ 32`. -/
structure Window (pipe : Pipe) (first : Nat) (pending : List UInt8) : Prop where
  holds : Holds pipe.data first pending
  nread : pipe.nread.toNat = first % 2 ^ 32
  nwrite : pipe.nwrite.toNat = (first + pending.length) % 2 ^ 32

theorem pipesize_dvd : PIPESIZE ∣ 2 ^ 32 := by
  decide

theorem pipesize_lt : PIPESIZE < 2 ^ 32 := by
  decide

variable {pipe : Pipe} {first : Nat} {pending : List UInt8}

section

variable (window : Window pipe first pending)
include window

theorem Window.length_lt : pending.length < 2 ^ 32 :=
  Nat.lt_of_le_of_lt window.holds.1 pipesize_lt

theorem Window.full_iff : pipe.full = true ↔ pending.length = PIPESIZE := by
  rw [full, beq_iff_eq, ← UInt32.toNat_inj, UInt32.toNat_add, window.nread, window.nwrite]
  have size : (UInt32.ofNat PIPESIZE).toNat = PIPESIZE := rfl
  rw [size, Nat.mod_add_mod]
  exact wrapped_eq_iff window.length_lt pipesize_lt

theorem Window.empty_iff : pipe.empty = true ↔ pending = [] := by
  rw [empty, beq_iff_eq, ← UInt32.toNat_inj, window.nread, window.nwrite]
  have distance : (first + 0) % 2 ^ 32 = (first + pending.length) % 2 ^ 32 ↔ 0 = pending.length :=
    wrapped_eq_iff (Nat.two_pow_pos 32) window.length_lt
  rw [Nat.add_zero] at distance
  rw [distance, eq_comm, length_eq_zero_iff]

theorem Window.put (notFull : pipe.full = false) (byte : UInt8) :
    Window (pipe.put byte) first (pending ++ [byte]) := by
  have room : pending.length < PIPESIZE := by
    apply Nat.lt_of_le_of_ne window.holds.1
    intro isFull
    rw [window.full_iff.mpr isFull] at notFull
    cases notFull
  refine ⟨?_, window.nread, ?_⟩
  · have place : slot PIPESIZE pipe.nwrite.toNat = slot PIPESIZE (first + pending.length) := by
      rw [window.nwrite, slot_mod pipesize_dvd]
    simp only [Pipe.put, place]
    exact window.holds.push room byte
  · simp only [Pipe.put, length_append, length_singleton]
    rw [UInt32.toNat_add, window.nwrite, ← Nat.add_assoc]
    exact Nat.mod_add_mod _ _ _

end

theorem Window.drop {byte : UInt8} (window : Window pipe first (byte :: pending)) :
    pipe.front = byte ∧ Window pipe.drop (first + 1) pending := by
  obtain ⟨isFirst, holds⟩ := window.holds.pop
  refine ⟨?_, holds, ?_, ?_⟩
  · rw [front, window.nread, slot_mod pipesize_dvd]
    exact isFirst
  · simp only [Pipe.drop]
    rw [UInt32.toNat_add, window.nread]
    exact Nat.mod_add_mod _ _ _
  · simp only [Pipe.drop]
    rw [window.nwrite, length_cons]
    congr 1
    omega

theorem Window.store (window : Window pipe first pending) (bytes : List UInt8) :
    Window (pipe.store bytes).1 first (pending ++ bytes.take (pipe.store bytes).2) := by
  induction bytes generalizing pipe pending with
  | nil => simpa [Pipe.store] using window
  | cons byte bytes ih =>
    rw [Pipe.store]
    split
    next => simpa using window
    next notFull =>
      have later := ih (window.put (by simpa using notFull) byte)
      simpa using later

/-- The reading loop takes bytes from the front of the window. -/
theorem Window.fetch (window : Window pipe first pending) (n : Nat) :
    ∃ left, pending = (pipe.fetch n).2 ++ left ∧
      Window (pipe.fetch n).1 (first + (pipe.fetch n).2.length) left := by
  induction n generalizing pipe first pending with
  | zero => exact ⟨pending, rfl, window⟩
  | succ n ih =>
    rw [Pipe.fetch]
    split
    next => exact ⟨pending, rfl, window⟩
    next notEmpty =>
      cases pending with
      | nil => exact absurd (window.empty_iff.mpr rfl) notEmpty
      | cons byte pending =>
        obtain ⟨isFirst, rest⟩ := window.drop
        obtain ⟨left, split, later⟩ := ih rest
        refine ⟨left, ?_, ?_⟩
        · simp only [isFirst, cons_append, ← split]
        · rwa [Nat.add_assoc, Nat.add_comm 1] at later

namespace System

variable {system after : System Thread}

/-- Readers have removed the first of the stored bytes, and the pipe contains
the others. -/
def Streams (system : System Thread) : Prop :=
  ∃ pending, system.stored = system.removed ++ pending ∧
    Window system.pipe system.removed.length pending

omit [DecidableEq Thread] in
theorem Initial.streams (initial : system.Initial) : system.Streams := by
  obtain ⟨isNew, noneStored, noneRemoved, -⟩ := initial
  refine ⟨[], by rw [noneStored, noneRemoved]; rfl, ?_⟩
  rw [isNew, noneRemoved]
  exact ⟨holds_nil _ _, rfl, rfl⟩

theorem pipewrite_pipe (pipe : Pipe) (killed : Bool) (n : Int) (left : List UInt8) :
    (pipe.pipewrite killed n left).1 = (pipe.store left).1 ∧
      (pipe.pipewrite killed n left).2.1 = (pipe.store left).2 := by
  unfold pipewrite
  dsimp only
  split
  · exact ⟨rfl, rfl⟩
  · split <;> exact ⟨rfl, rfl⟩

section

variable (streams : system.Streams)

include streams

theorem Streams.writeSection (thread : Thread) (n : Int) (left : List UInt8) :
    (system.writeSection thread n left).Streams := by
  obtain ⟨pending, isStored, window⟩ := streams
  obtain ⟨pipeAfter, count⟩ := pipewrite_pipe system.pipe (system.killed thread) n left
  refine ⟨pending ++ left.take (system.pipe.store left).2, ?_, ?_⟩
  · simp only [System.writeSection, count, isStored, append_assoc]
  · simp only [System.writeSection, pipeAfter]
    exact window.store left

theorem Streams.readSection (thread : Thread) (n : Int) :
    (system.readSection thread n).Streams := by
  obtain ⟨pending, isStored, window⟩ := streams
  simp only [Streams, System.readSection, piperead]
  split
  next =>
    refine ⟨pending, ?_, ?_⟩
    · split <;> simpa using isStored
    · split <;> simpa using window
  next =>
    obtain ⟨left, split, later⟩ := window.fetch n.toNat
    refine ⟨left, ?_, ?_⟩
    · rw [isStored, append_assoc, ← split]
    · rwa [length_append]

omit [DecidableEq Thread] in
theorem Streams.close (writable : Bool) :
    Streams { system with pipe := system.pipe.pipeclose writable } := by
  obtain ⟨pending, isStored, window⟩ := streams
  refine ⟨pending, isStored, ?_⟩
  cases writable <;> exact { window with }

theorem Streams.step {label : Label Thread} (stepTo : system.step label = some after) :
    after.Streams := by
  cases label with
  | write thread addr n =>
    simp only [System.step] at stepTo
    split at stepTo <;> cases stepTo
    exact streams.writeSection thread n _
  | read thread n =>
    simp only [System.step] at stepTo
    split at stepTo <;> cases stepTo
    exact streams.readSection thread n
  | wake thread =>
    simp only [System.step] at stepTo
    split at stepTo <;> cases stepTo
    next n left _ => exact streams.writeSection thread n left
    next n _ => exact streams.readSection thread n
  | kill thread =>
    cases stepTo
    exact streams
  | close writable =>
    cases stepTo
    exact streams.close writable

theorem Streams.reaches (reaches : Reaches System.step system after) : after.Streams :=
  Reaches.invariant reaches Streams streams fun _ _ _ holds stepTo => holds.step stepTo

omit [DecidableEq Thread] in
/-- The difference of the wrapped counters is the number of bytes in the
pipe. -/
theorem Streams.difference : (system.pipe.nwrite - system.pipe.nread).toNat +
      system.removed.length = system.stored.length := by
  obtain ⟨pending, isStored, window⟩ := streams
  have below := window.length_lt
  rw [UInt32.toNat_sub, window.nread, window.nwrite, isStored, length_append]
  omega

end

/-- A pipe is a FIFO byte stream of at most `PIPESIZE` bytes. -/
theorem pipe_fifo (initial : system.Initial) (reaches : Reaches System.step system after) :
    (after.pipe.nwrite - after.pipe.nread).toNat ≤ PIPESIZE ∧ after.removed <+: after.stored ∧
        (after.pipe.nwrite - after.pipe.nread).toNat +
          after.removed.length = after.stored.length := by
  have streams := initial.streams.reaches reaches
  have difference := streams.difference
  obtain ⟨pending, isStored, window⟩ := streams
  refine ⟨?_, ⟨pending, isStored.symm⟩, difference⟩
  have bounded := window.holds.1
  rw [isStored, length_append] at difference
  omega

/-- Two threads share a new pipe: one writes three bytes, the other reads two
of them. -/
def sharedPipe : System Bool where
  pipe := pipealloc fun _ => 0
  activity := fun _ => .idle
  killed := fun _ => false
  stored := []
  removed := []

theorem sharedPipe_fifo : ∃ after, Reaches System.step sharedPipe after ∧
      after.removed = [7, 8] ∧ after.stored = [7, 8, 9] ∧
        (after.pipe.nwrite - after.pipe.nread).toNat ≤ PIPESIZE ∧
          after.removed <+: after.stored := by
  obtain ⟨after, run, removed, stored⟩ : ∃ after ∈ runLabels System.step sharedPipe
      [.read true 2, .write false (fun index => UInt8.ofNat (7 + index)) 3,
        .wake true],
      after.removed = [7, 8] ∧ after.stored = [7, 8, 9] := by
    decide +kernel
  have reaches := reaches_of_runLabels _ run
  have initial : sharedPipe.Initial := ⟨rfl, rfl, rfl, fun _ => rfl⟩
  obtain ⟨bounded, ordered, -⟩ := pipe_fifo initial reaches
  exact ⟨after, reaches, removed, stored, bounded, ordered⟩

end System

end Pipe

end Xv6Kthreads
