import Xv6Kthreads.LabelledRun
import Xv6Kthreads.LinkedQueue

/-!
# The disk driver

`iderw` puts a buffer at the end of a queue and sleeps until the interrupt
handler has served it; the request at the head of the queue is the one that the
disk works on.  The memory disk of `memide.c` serves a request at once.  This
file embeds both, and a disk that completes each command with one interrupt.

`idelock` is held between the steps of the driver, from the call to the sleep
and in the whole interrupt handler.
-/

namespace Xv6Kthreads

namespace Ide

open LabelledRun LinkedQueue Function

structure Buffer (Data : Type*) where
  busy : Bool
  valid : Bool
  dirty : Bool
  dev : Nat
  sector : Nat
  data : Data
  deriving DecidableEq

/-- The request of a buffer has been served: of `B_VALID` and `B_DIRTY` only
the first is set. -/
def Buffer.done {Data : Type*} (buffer : Buffer Data) : Bool :=
  buffer.valid && !buffer.dirty

inductive Panic where
  | notBusy
  | nothingToDo
  | noDisk1
  | notDisk1
  | outOfRange
  deriving DecidableEq, Repr

/-! ## The memory disk -/

def memIderw {Data : Type*} (disksize : Nat) (memdisk : Nat → Data)
    (buffer : Buffer Data) : Except Panic ((Nat → Data) × Buffer Data) :=
  if ¬ buffer.busy then
    .error .notBusy
  else if buffer.done then
    .error .nothingToDo
  else if buffer.dev ≠ 1 then
    .error .notDisk1
  else if buffer.sector ≥ disksize then
    .error .outOfRange
  else if buffer.dirty then
    .ok (update memdisk buffer.sector buffer.data, { buffer with dirty := false, valid := true })
  else
    .ok (memdisk, { buffer with data := memdisk buffer.sector, valid := true })

/-- Calls of `iderw` of `memide.c`, one after the other: the disk and the
buffers that they leave. -/
def memRun {Data : Type*} (disksize : Nat) (memdisk : Nat → Data) :
    List (Buffer Data) → Except Panic ((Nat → Data) × List (Buffer Data))
  | [] => .ok (memdisk, [])
  | buffer :: buffers =>
    match memIderw disksize memdisk buffer with
    | .error panic => .error panic
    | .ok (memdisk, after) =>
      match memRun disksize memdisk buffers with
      | .error panic => .error panic
      | .ok (memdisk, rest) => .ok (memdisk, after :: rest)

/-! ## The driver and its disk -/

/-- What `idestart` writes to the registers of the disk, and the data of a
write. -/
structure Command (Data : Type*) where
  dev : Nat
  sector : Nat
  write : Option Data

/-- The disk works on a command, or it has completed one and raised an
interrupt, with the data of a read. -/
inductive Drive (Data : Type*) where
  | ready
  | working (command : Command Data)
  | raised (data : Option Data)

/-- Where a thread is: in `iderw` it waits for its buffer.  The ticket counts
the calls. -/
inductive Place (Buf : Type*) where
  | away
  | waiting (buf : Buf) (asleep : Bool) (ticket : Nat)
  deriving DecidableEq

def Place.buf {Buf : Type*} : Place Buf → Option Buf
  | .away => none
  | .waiting buf _ _ => some buf

structure Completion (Buf Data : Type*) where
  buf : Buf
  before : Buffer Data
  after : Buffer Data

/-- The driver, the buffers, the disks and the threads.  The last four fields
are the history: the calls in order, the commands in order, the completions in
order, and what each call has returned. -/
structure State (Buf Thread Data : Type*) where
  buffer : Buf → Buffer Data
  qnext : Buf → Option Buf
  idequeue : Option Buf
  havedisk1 : Bool
  drive : Drive Data
  contents : Nat → Nat → Data
  place : Thread → Place Buf
  panic : Option Panic
  requested : List (Buf × Buffer Data)
  started : List Buf
  completed : List (Completion Buf Data)
  returned : List (Nat × Buffer Data)

inductive Label (Buf Thread Data : Type*) where
  /-- A thread calls `iderw`. -/
  | call (thread : Thread) (buf : Buf)
  /-- A thread that has been woken looks at its buffer. -/
  | resume (thread : Thread)
  /-- `kill` wakes a thread. -/
  | rouse (thread : Thread)
  /-- The owner of a buffer changes it. -/
  | change (buf : Buf) (buffer : Buffer Data)
  /-- The disk completes its command. -/
  | complete
  /-- The interrupt is handled. -/
  | interrupt

/-- The command for a buffer; the registers take 28 bits of the sector. -/
def Buffer.command {Data : Type*} (buffer : Buffer Data) : Command Data where
  dev := buffer.dev % 2
  sector := buffer.sector % 2 ^ 28
  write := if buffer.dirty then some buffer.data else none

namespace State

variable {Buf Thread Data : Type*} [DecidableEq Buf] [DecidableEq Thread]

variable (state : State Buf Thread Data)

/-- `idestart`; while the disk works on a command `idewait` does not return. -/
def idestart (buf : Buf) : Option (State Buf Thread Data) :=
  match state.drive with
  | .working _ => none
  | _ =>
    some { state with
      drive := .working (state.buffer buf).command
      started := state.started ++ [buf] }

def append [Fintype Buf] (state : State Buf Thread Data) (buf : Buf) :
    Option (State Buf Thread Data) :=
  let qnext := update state.qnext buf none
  match state.idequeue with
  | none => some { state with qnext := qnext, idequeue := some buf }
  | some head =>
    (last qnext (Fintype.card Buf) head).map fun tail =>
      { state with qnext := update qnext tail (some buf) }

def await (thread : Thread) (buf : Buf) (ticket : Nat) : State Buf Thread Data :=
  if (state.buffer buf).done then
    { state with
      place := update state.place thread .away
      returned := state.returned ++ [(ticket, state.buffer buf)] }
  else
    { state with
      place := update state.place thread (.waiting buf true ticket) }

def iderw [Fintype Buf] (state : State Buf Thread Data) (thread : Thread)
    (buf : Buf) : Option (State Buf Thread Data) :=
  let buffer := state.buffer buf
  if ¬ buffer.busy then
    some { state with panic := some .notBusy }
  else if buffer.done then
    some { state with panic := some .nothingToDo }
  else if buffer.dev ≠ 0 ∧ ¬ state.havedisk1 then
    some { state with panic := some .noDisk1 }
  else do
    let queued ← state.append buf
    let started ←
      if queued.idequeue = some buf then queued.idestart buf
      else some queued
    pure ({ started with
      requested := state.requested ++ [(buf, buffer)] }.await thread buf state.requested.length)

def wakeup (place : Thread → Place Buf) (buf : Buf) : Thread → Place Buf :=
  fun thread =>
    match place thread with
    | .away => .away
    | .waiting own asleep ticket =>
      if own = buf then .waiting own false ticket
      else .waiting own asleep ticket

/-- What `ideintr` makes of the buffer at the head of the queue. -/
def served (data : Option Data) (buffer : Buffer Data) : Buffer Data :=
  { buffer with
    data := if buffer.dirty then buffer.data else data.getD buffer.data
    valid := true
    dirty := false }

def ideintr (data : Option Data) : Option (State Buf Thread Data) :=
  match state.idequeue with
  | none => some { state with drive := .ready }
  | some buf =>
    let after := served data (state.buffer buf)
    let popped : State Buf Thread Data := { state with
      drive := .ready
      idequeue := state.qnext buf
      buffer := update state.buffer buf after
      place := wakeup state.place buf
      completed := state.completed ++ [⟨buf, state.buffer buf, after⟩] }
    match popped.idequeue with
    | none => some popped
    | some head => popped.idestart head

def complete : Option (State Buf Thread Data) :=
  match state.drive with
  | .working command =>
    match command.write with
    | some data =>
      some { state with
        contents := update state.contents command.dev
          (update (state.contents command.dev) command.sector data)
        drive := .raised none }
    | none =>
      some { state with
        drive := .raised (some (state.contents command.dev command.sector)) }
  | _ => none

def act [Fintype Buf] (state : State Buf Thread Data) :
    Label Buf Thread Data → Option (State Buf Thread Data)
  | .call thread buf =>
    match state.place thread with
    | .away => state.iderw thread buf
    | _ => none
  | .resume thread =>
    match state.place thread with
    | .waiting buf false ticket => some (state.await thread buf ticket)
    | _ => none
  | .rouse thread =>
    match state.place thread with
    | .waiting buf _ ticket =>
      some { state with
        place := update state.place thread (.waiting buf false ticket) }
    | _ => none
  | .change buf buffer =>
    some { state with
      buffer := update state.buffer buf buffer }
  | .complete => state.complete
  | .interrupt =>
    match state.drive with
    | .raised data => state.ideintr data
    | _ => none

def step [Fintype Buf] (state : State Buf Thread Data)
    (label : Label Buf Thread Data) : Option (State Buf Thread Data) :=
  if state.panic.isSome then none else state.act label

def NotInUse (buf : Buf) : Prop :=
  ∀ thread, (state.place thread).buf ≠ some buf

/-- The calls are on busy buffers, on different ones and for sectors of disk 1,
and a buffer changes only while no call is in progress on it. -/
def Proper (disksize : Nat) (state : State Buf Thread Data) : Label Buf Thread Data → Prop
  | .call _ buf =>
    (state.buffer buf).busy = true ∧ (state.buffer buf).dev = 1 ∧
      (state.buffer buf).sector < disksize ∧ state.NotInUse buf
  | .change buf _ => state.NotInUse buf
  | _ => True

instance [Fintype Thread] (state : State Buf Thread Data) (buf : Buf) :
    Decidable (state.NotInUse buf) :=
  inferInstanceAs (Decidable (∀ _, _))

instance [Fintype Thread] (disksize : Nat) (state : State Buf Thread Data) :
    DecidablePred (state.Proper disksize)
  | .call _ _ => inferInstanceAs (Decidable (_ ∧ _ ∧ _ ∧ _))
  | .change buf _ => inferInstanceAs (Decidable (state.NotInUse buf))
  | .resume _ => isTrue trivial
  | .rouse _ => isTrue trivial
  | .complete => isTrue trivial
  | .interrupt => isTrue trivial

/-- The driver after `ideinit` has found disk 1, with any buffers and any
contents of the disks. -/
structure Initial (state : State Buf Thread Data) : Prop where
  idequeue : state.idequeue = none
  havedisk1 : state.havedisk1 = true
  drive : state.drive = .ready
  place : ∀ thread, state.place thread = .away
  panic : state.panic = none
  requested : state.requested = []
  started : state.started = []
  completed : state.completed = []
  returned : state.returned = []

end State

end Ide

end Xv6Kthreads
