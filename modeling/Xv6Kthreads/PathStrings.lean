import Xv6Kthreads.FsPaths
import Xv6Kthreads.LabelledRun
import Xv6Kthreads.UserSpace

/-!
# Path strings in user memory

`argstr` looks for the end of a string once and returns the user's own pointer.
The calls sleep before they use it, and `skipelem`, `namex` and `exec` then read
the string byte by byte, while other threads of the process store into their
common memory and call `sbrk`.  This file takes one step for each byte that the
kernel reads.

The reads stay inside the process as long as the zero byte that the check has
found stays where it is.  Nothing in the kernel sees to that.
-/

namespace Xv6Kthreads

namespace PathStrings

open FileSystem LabelledRun

/-- What a call does with the pointer: `namei`, `nameiparent`, or the loop of
`exec` that looks for the program's name. -/
inductive Use where
  | namex (parent : Bool)
  | exec
  deriving DecidableEq, Repr

/-- The kernel thread before its next read; `path` and `s` are pointers as in
the source. -/
inductive Pc where
  /-- Between two uses of the pointer, for example in `begin_op`. -/
  | ready
  /-- `*path == '/'` in `namex`. -/
  | root (parent : Bool)
  /-- The first loop of `skipelem`. -/
  | slashes (parent : Bool) (path : Nat)
  /-- `*path == 0` in `skipelem`. -/
  | empty (parent : Bool) (path : Nat)
  /-- The second loop of `skipelem`. -/
  | element (parent : Bool) (s path : Nat)
  /-- `memmove` to `name`, with `left` bytes left. -/
  | copying (parent : Bool) (s left path : Nat)
  /-- The last loop of `skipelem`. -/
  | trailing (parent : Bool) (path : Nat)
  /-- `ilock` and the test of the type. -/
  | locking (parent : Bool) (path : Nat)
  /-- `*path == '\0'` in `namex`. -/
  | isLast (path : Nat)
  /-- `dirlookup`. -/
  | looking (parent : Bool) (path : Nat)
  /-- `*s` in the loop of `exec`. -/
  | scan (last s : Nat)
  /-- `*s == '/'` in the loop of `exec`. -/
  | scanSlash (last s : Nat)
  /-- `safestrcpy`, with at most `left` bytes left. -/
  | copyName (t left : Nat)
  deriving DecidableEq, Repr

def Pc.reads (pointer : Nat) : Pc → Option Nat
  | .root _ => some pointer
  | .slashes _ path => some path
  | .empty _ path => some path
  | .element _ _ path => some path
  | .copying _ s _ _ => some s
  | .trailing _ path => some path
  | .isLast path => some path
  | .scan _ s => some s
  | .scanSlash _ s => some s
  | .copyName t _ => some t
  | _ => none

/-- The process, and one thread of it in a system call with the string at
`pointer`. -/
structure State where
  sz : Nat
  memory : Nat → UInt8
  pointer : Nat
  pc : Pc

inductive Label where
  /-- The call uses the pointer. -/
  | use (use : Use)
  /-- The kernel thread reads its next byte. -/
  | read
  /-- `ilock` finds a directory or not; `dirlookup` finds the name or not. -/
  | answer (found : Bool)
  /-- Another thread stores a byte. -/
  | store (addr : Nat) (value : UInt8)
  /-- Another thread calls `sbrk`; `rest` is in the memory that it gets. -/
  | sbrk (newsz : Nat) (rest : Nat → UInt8)

def nameSize : Nat := 16

def copyElement (parent : Bool) (s path : Nat) : Pc :=
  if path - s = 0 then .trailing parent path
  else .copying parent s (min (path - s) DIRSIZ) path

def Pc.after (byte : UInt8) (pointer : Nat) : Pc → Pc
  | .root parent => .slashes parent pointer
  | .slashes parent path => if byte = slash then .slashes parent (path + 1) else .empty parent path
  | .empty parent path => if byte = 0 then .ready else .element parent path path
  | .element parent s path =>
    if byte ≠ slash ∧ byte ≠ 0 then .element parent s (path + 1)
    else copyElement parent s path
  | .copying parent s left path =>
    if left ≤ 1 then .trailing parent path
    else .copying parent (s + 1) (left - 1) path
  | .trailing parent path =>
    if byte = slash then .trailing parent (path + 1)
    else .locking parent path
  | .isLast path => if byte = 0 then .ready else .looking true path
  | .scan last s => if byte = 0 then .copyName last (nameSize - 1) else .scanSlash last s
  | .scanSlash last s => if byte = slash then .scan (s + 1) (s + 1) else .scan last (s + 1)
  | .copyName t left => if byte = 0 ∨ left ≤ 1 then .ready else .copyName (t + 1) (left - 1)
  | pc => pc

def step (state : State) : Label → Option State
  | .use use =>
    match state.pc with
    | .ready => some { state with
        pc := match use with
          | .namex parent => .root parent
          | .exec => .scan state.pointer state.pointer }
    | _ => none
  | .read =>
    match state.pc.reads state.pointer with
    | some addr => some { state with
        pc := state.pc.after (state.memory addr) state.pointer }
    | none => none
  | .answer found =>
    match state.pc with
    | .locking parent path => some { state with
        pc := if found = false then .ready
          else if parent then .isLast path else .looking parent path }
    | .looking parent path => some { state with
        pc := if found then .slashes parent path else .ready }
    | _ => none
  | .store addr value =>
    if addr < state.sz then
      some { state with memory := Function.update state.memory addr value }
    else
      none
  | .sbrk newsz rest =>
    some { state with
      sz := newsz
      memory := fun addr =>
        if addr < state.sz ∧ addr < newsz then state.memory addr
        else rest addr }

def start (user : UserSpace) (addr : UInt32) : State where
  sz := user.sz.toNat
  memory := fun addr => user.memory (UInt32.ofNat addr)
  pointer := addr.toNat
  pc := .ready

def strlen (user : UserSpace) (addr : UInt32) : Option Nat :=
  (List.range (user.sz.toNat - addr.toNat)).find? fun length =>
    user.memory (addr + UInt32.ofNat length) == 0

/-- The other threads leave the zero byte at `nul` where it is. -/
def Keeps (nul : Nat) : Label → Prop
  | .store addr value => addr = nul → value = 0
  | .sbrk newsz _ => nul < newsz
  | _ => True

/-- The pointers of the kernel thread are not behind `nul`. -/
def Pc.Before (nul : Nat) : Pc → Prop
  | .ready => True
  | .root _ => True
  | .slashes _ path => path ≤ nul
  | .empty _ path => path ≤ nul
  | .element _ s path => s ≤ path ∧ path ≤ nul
  | .copying _ s left path => s + left ≤ path ∧ 0 < left ∧ path ≤ nul
  | .trailing _ path => path ≤ nul
  | .locking _ path => path ≤ nul
  | .isLast path => path ≤ nul
  | .looking _ path => path ≤ nul
  | .scan last s => last ≤ nul ∧ s ≤ nul
  | .scanSlash last s => last ≤ nul ∧ s < nul
  | .copyName t _ => t ≤ nul

structure Ends (nul : Nat) (state : State) : Prop where
  inside : nul < state.sz
  zero : state.memory nul = 0
  pointer : state.pointer ≤ nul
  before : state.pc.Before nul

variable {nul : Nat} {state next : State}

theorem before_copyElement {parent : Bool} {s path : Nat} (ordered : s ≤ path)
    (before : path ≤ nul) : (copyElement parent s path).Before nul := by
  unfold copyElement
  split
  next => exact before
  next some =>
    refine ⟨?_, ?_, before⟩
    · omega
    · have : 0 < DIRSIZ := by decide
      omega

theorem Pc.Before.after {pc : Pc} {addr pointer : Nat} {byte : UInt8} (before : pc.Before nul)
    (inside : pointer ≤ nul) (reads : pc.reads pointer = some addr) (zero : addr = nul → byte = 0) :
    (pc.after byte pointer).Before nul := by
  have slashNe : slash ≠ 0 := by decide
  cases pc with
  | element parent s path =>
    obtain ⟨ordered, before⟩ := before
    cases reads
    rw [Pc.after]
    split
    next goesOn =>
      have notNul : addr ≠ nul := fun atNul => goesOn.2 (zero atNul)
      exact ⟨Nat.le_succ_of_le ordered, by omega⟩
    next => exact before_copyElement ordered before
  | _ => grind [Pc.reads, Pc.after, Pc.Before]

/-- What a read finds: it is inside the process and in the string. -/
theorem Ends.reads (ends : Ends nul state) {addr : Nat}
    (reads : state.pc.reads state.pointer = some addr) : addr ≤ nul := by
  obtain ⟨-, -, pointer, before⟩ := ends
  cases isPc : state.pc <;> grind [Pc.reads, Pc.Before]

theorem Ends.step {label : Label} (ends : Ends nul state)
    (keeps : Keeps nul label) (stepTo : step state label = some next) :
    Ends nul next := by
  cases label with
  | use use =>
    simp only [PathStrings.step] at stepTo
    split at stepTo <;> cases stepTo
    refine { ends with before := ?_ }
    cases use with
    | namex parent => trivial
    | exec => exact ⟨ends.pointer, ends.pointer⟩
  | read =>
    simp only [PathStrings.step] at stepTo
    split at stepTo <;> cases stepTo
    next addr reads =>
      refine { ends with before := ends.before.after ends.pointer reads ?_ }
      rintro rfl
      exact ends.zero
  | answer found =>
    have before := ends.before
    simp only [PathStrings.step] at stepTo
    split at stepTo <;> cases stepTo
    next parent path isPc =>
      rw [isPc] at before
      refine { ends with before := ?_ }
      cases found <;> cases parent <;> trivial
    next parent path isPc =>
      rw [isPc] at before
      refine { ends with before := ?_ }
      cases found <;> trivial
  | store addr value =>
    simp only [PathStrings.step] at stepTo
    split at stepTo <;> cases stepTo
    refine { ends with zero := ?_ }
    dsimp only
    rcases eq_or_ne nul addr with rfl | same
    · rw [Function.update_self]
      exact keeps rfl
    · rw [Function.update_of_ne same]
      exact ends.zero
  | sbrk newsz rest =>
    cases stepTo
    refine ⟨keeps, ?_, ends.pointer, ends.before⟩
    exact (if_pos ⟨ends.inside, keeps⟩).trans ends.zero

variable {addr : UInt32}

variable {user : UserSpace}

theorem ends_start {length : Nat} (found : strlen user addr = some length) :
    Ends (addr.toNat + length) (start user addr) := by
  have isZero := List.find?_some found
  have below := List.mem_range.mp (List.mem_of_find?_eq_some found)
  refine ⟨?_, ?_, Nat.le_add_right _ _, trivial⟩
  · simp only [start]
    omega
  · have sum : UInt32.ofNat (addr.toNat + length) = addr + UInt32.ofNat length := by
      rw [UInt32.ofNat_add, UInt32.ofNat_toNat]
    simp only [start]
    simpa using isZero

theorem strlen_of_argstr {n : Nat} (checked : user.argstr n = some addr) :
    ∃ length, strlen user addr = some length := by
  obtain ⟨word, -, found⟩ := Option.bind_eq_some_iff.mp checked
  simp only [UserSpace.fetchstr] at found
  split at found
  next => cases found
  next =>
    split at found
    next length isLength =>
      cases found
      exact ⟨length, isLength⟩
    next => cases found

/-- While the last byte of a checked string is left alone, every byte of it that
the kernel reads is inside the process. -/
theorem path_reads_inside {n : Nat} (checked : user.argstr n = some addr) :
    ∃ length, strlen user addr = some length ∧ ∀ after,
      GuardedReaches step (fun _ => Keeps (addr.toNat + length)) (start user addr) after →
      ∀ read, after.pc.reads after.pointer = some read → read < after.sz ∧
          ∃ stop, read ≤ stop ∧ stop < after.sz ∧ after.memory stop = 0 := by
  obtain ⟨length, found⟩ := strlen_of_argstr checked
  refine ⟨length, found, ?_⟩
  intro after reaches read reads
  have ends : Ends (addr.toNat + length) after :=
    GuardedReaches.invariant reaches (Ends (addr.toNat + length))
      (ends_start found) fun _ _ _ holds keeps stepTo => holds.step keeps stepTo
  have before := ends.reads reads
  exact ⟨Nat.lt_of_le_of_lt before ends.inside, _, before, ends.inside, ends.zero⟩

/-- The path `a` at the end of a process of twelve bytes. -/
def shortPath : UserSpace where
  sz := 12
  sz_le := by decide
  esp := 0
  memory := fun addr => if addr = 4 then 10 else if addr = 10 then 97 else 0
  ofile := fun _ => none

theorem path_reads_inside_shortPath : ∃ length, strlen shortPath 10 = some length ∧ ∀ after,
      GuardedReaches step (fun _ => Keeps (10 + length)) (start shortPath 10) after →
      ∀ read, after.pc.reads after.pointer = some read → read < after.sz ∧
          ∃ stop, read ≤ stop ∧ stop < after.sz ∧ after.memory stop = 0 :=
  path_reads_inside (show shortPath.argstr 0 = some 10 by decide +kernel)

/-- After the check another thread overwrites the end of the string, or gives
its memory back; the kernel reads outside the process. -/
theorem path_reads_outside : shortPath.argstr 0 = some 10 ∧
    (∃ after, Reaches step (start shortPath 10) after ∧
      after.pc.reads after.pointer = some 12 ∧ after.sz = 12) ∧
    ∃ after, Reaches step (start shortPath 10) after ∧
      after.pc.reads after.pointer = some 10 ∧ after.sz = 8 := by
  have stores : ∃ after ∈ runLabels step (start shortPath 10)
      [.use (.namex false), .store 11 98, .read, .read, .read, .read, .read],
      after.pc.reads after.pointer = some 12 ∧ after.sz = 12 := by
    decide +kernel
  have shrinks : ∃ after ∈ runLabels step (start shortPath 10) [.use .exec, .sbrk 8 fun _ => 0],
      after.pc.reads after.pointer = some 10 ∧ after.sz = 8 := by
    decide +kernel
  obtain ⟨stored, runStored, isStored⟩ := stores
  obtain ⟨shrunk, runShrunk, isShrunk⟩ := shrinks
  exact ⟨by decide +kernel,
    ⟨stored, reaches_of_runLabels _ runStored, isStored⟩,
    shrunk, reaches_of_runLabels _ runShrunk, isShrunk⟩

end PathStrings

end Xv6Kthreads
