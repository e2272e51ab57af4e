import Xv6Kthreads.KernelState
import Xv6Kthreads.PageTables

/-!
# `exec`

`exec` builds a new address space from a program file and the argument
strings, and commits to it at the end: it replaces the page table and the size
of the process and the trap frame of the calling thread, and frees the old
address space.  On every failure before that it frees the new one.

The path lookup and the locking of the file are left out; the file is `none`
if the lookup fails.
-/

namespace Xv6Kthreads

namespace Exec

open Sections PageTables

def ELF_MAGIC : Nat := 0x464C457F

def ELF_PROG_LOAD : Nat := 1

def elfSize : Nat := 52

def phSize : Nat := 32

variable (file : ProgramFile)

def half (off : Nat) : Nat :=
  (file.byte off).toNat + (file.byte (off + 1)).toNat * 2 ^ 8

def word (off : Nat) : Nat :=
  half file off + half file (off + 2) * 2 ^ 16

structure ElfHeader where
  magic : Nat
  entry : Nat
  phoff : Nat
  phnum : Nat

def elfHeader : ElfHeader where
  magic := word file 0
  entry := word file 24
  phoff := word file 28
  phnum := half file 44

structure ProgramHeader where
  type : Nat
  off : Nat
  vaddr : Nat
  filesz : Nat
  memsz : Nat

def programHeader (off : Nat) : ProgramHeader where
  type := word file off
  off := word file (off + 4)
  vaddr := word file (off + 8)
  filesz := word file (off + 16)
  memsz := word file (off + 20)

/-- What `exec` changes in the process. -/
structure Process where
  pgdir : Space
  sz : Nat
  numOfThreads : Int
  thread : Fin NTHREAD → RunState
  eip : Fin NTHREAD → Nat
  esp : Fin NTHREAD → Nat

/-- The loop over the program headers, `left` of which remain.  The size is
`none` when `exec` gives up. -/
def loadSegments (file : ProgramFile) : (left : Nat) → (off : Nat) → (space : Space) → (sz : Nat) →
      Vm (Space × Option Nat)
  | 0, _, space, sz => pure (space, some sz)
  | left + 1, off, space, sz =>
    if readi file off phSize ≠ phSize then
      pure (space, none)
    else
      let ph := programHeader file off
      if ph.type ≠ ELF_PROG_LOAD then
        loadSegments file left ((off + phSize) % 2 ^ 32) space sz
      else if ph.memsz < ph.filesz then
        pure (space, none)
      else do
        let grown ← allocuvm space sz ((ph.vaddr + ph.memsz) % 2 ^ 32)
        if grown.2 = 0 then
          pure (grown.1, none)
        else do
          let loaded ← loaduvm grown.1 ph.vaddr file ph.off ph.filesz
          if loaded = false then
            pure (grown.1, none)
          else
            loadSegments file left ((off + phSize) % 2 ^ 32) grown.1 grown.2

def wordBytes (value : Nat) : List UInt8 :=
  [UInt8.ofNat value, UInt8.ofNat (value / 2 ^ 8),
    UInt8.ofNat (value / 2 ^ 16), UInt8.ofNat (value / 2 ^ 24)]

/-- The loop that pushes the argument strings: the stack pointer and the
addresses of the strings, or `none` when `exec` gives up. -/
def pushStrings (space : Space) : (argc : Nat) → (sp : Nat) → List (List UInt8) →
      Vm (Option (Nat × List Nat))
  | _, sp, [] => pure (some (sp, []))
  | argc, sp, string :: strings =>
    if argc ≥ MAXARG then
      pure none
    else do
      let sp := (sp + 2 ^ 32 - (string.length + 1) % 2 ^ 32) % 2 ^ 32 / 4 * 4
      let copied ← copyout space sp (string ++ [0])
      if copied = false then
        pure none
      else do
        let rest ← pushStrings space (argc + 1) sp strings
        match rest with
        | none => pure none
        | some (last, addresses) => pure (some (last, sp :: addresses))

/-- The words of `ustack`: the fake return address, `argc`, the pointer to the
argument array, and the array with its null. -/
def ustack (sp : Nat) (addresses : List Nat) : List Nat :=
  [2 ^ 32 - 1, addresses.length,
    (sp + 2 ^ 32 - (addresses.length + 1) * 4) % 2 ^ 32] ++ addresses ++ [0]

/-- The stack: two pages, the lower one inaccessible, the strings and
`ustack`.  Returns the size and the stack pointer. -/
def buildStack (space : Space) (sz : Nat) (argv : List (List UInt8)) :
    Vm (Space × Option (Nat × Nat)) := do
  let sz := pgroundup sz
  let grown ← allocuvm space sz (sz + 2 * PGSIZE)
  if grown.2 = 0 then
    pure (grown.1, none)
  else do
    let space ← clearpteu grown.1 (vpn (grown.2 - 2 * PGSIZE))
    let pushed ← pushStrings space 0 grown.2 argv
    match pushed with
    | none => pure (space, none)
    | some (sp, addresses) => do
      let words := ustack sp addresses
      let sp := (sp + 2 ^ 32 - words.length * 4) % 2 ^ 32
      let copied ← copyout space sp (words.flatMap wordBytes)
      if copied = false then
        pure (space, none)
      else
        pure (space, some (grown.2, sp))

def commit (process : Process) (caller : Fin NTHREAD) (space : Space)
    (sz entry sp : Nat) : Process :=
  { process with
    pgdir := space
    sz := sz
    eip := Function.update process.eip caller entry
    esp := Function.update process.esp caller sp
    numOfThreads := 1 }

def exec (process : Process) (caller : Fin NTHREAD)
    (file : Option ProgramFile) (argv : List (List UInt8)) : Vm (Process × Int) :=
  match file with
  | none => pure (process, -1)
  | some file =>
    let elf := elfHeader file
    if readi file 0 elfSize < elfSize then
      pure (process, -1)
    else if elf.magic ≠ ELF_MAGIC then
      pure (process, -1)
    else do
      let fresh ← setupkvm
      match fresh with
      | none => pure (process, -1)
      | some space => do
        let loaded ← loadSegments file elf.phnum elf.phoff space 0
        match loaded.2 with
        | none => do
          freevm loaded.1
          pure (process, -1)
        | some sz => do
          let built ← buildStack loaded.1 sz argv
          match built.2 with
          | none => do
            freevm built.1
            pure (process, -1)
          | some (sz, sp) => do
            freevm process.pgdir
            pure (commit process caller built.1 sz elf.entry sp, 0)

/-! ## The threads of the process -/

variable {process after : Process} {caller : Fin NTHREAD}
variable {file : Option ProgramFile} {argv : List (List UInt8)}
variable {memory final : Memory} {result : Int}

/-- `exec` fails and leaves the process as it was, or it commits. -/
theorem exec_result (ends : exec process caller file argv memory = .done (after, result) final) :
    after = process ∧ result = -1 ∨ result = 0 ∧ ∃ space sz entry sp,
        after = commit process caller space sz entry sp := by
  have anything : ∀ {α : Type} (act : Vm α) (memory : Memory),
      act.wp memory (fun _ => True) fun _ _ => True := by
    intro α act memory
    unfold Act.wp
    split <;> trivial
  have outcomes : (exec process caller file argv).wp memory (fun _ => True)
      fun outcome _ => outcome.1 = process ∧ outcome.2 = -1 ∨ outcome.2 = 0 ∧ ∃ space sz entry sp,
          outcome.1 = commit process caller space sz entry sp := by
    have failed : (process, (-1 : Int)).1 = process ∧ (process, (-1 : Int)).2 = -1 := ⟨rfl, rfl⟩
    cases file with
    | none => exact Or.inl failed
    | some file =>
      rw [exec]
      split
      next => exact Or.inl failed
      next =>
        split
        next => exact Or.inl failed
        next =>
          rw [Act.wp_bind]
          refine Act.wp_mono (anything setupkvm memory) ?_
          rintro fresh memory -
          cases fresh with
          | none => exact Or.inl failed
          | some space =>
            rw [Act.wp_bind]
            refine Act.wp_mono (anything _ memory) ?_
            rintro ⟨space, size⟩ memory -
            cases size with
            | none =>
              rw [Act.wp_bind]
              refine Act.wp_mono (anything (freevm space) memory) ?_
              intro _ _ _
              exact Or.inl failed
            | some sz =>
              rw [Act.wp_bind]
              generalize buildStack space sz argv = building
              refine Act.wp_mono (anything building memory) ?_
              rintro ⟨space, stack⟩ memory -
              cases stack with
              | none =>
                rw [Act.wp_bind]
                refine Act.wp_mono (anything (freevm space) memory) ?_
                intro _ _ _
                exact Or.inl failed
              | some stack =>
                rw [Act.wp_bind]
                refine Act.wp_mono (anything (freevm process.pgdir) memory) ?_
                intro _ _ _
                exact Or.inr ⟨rfl, _, _, _, _, rfl⟩
  have outcome := Act.wp_of_done outcomes ends
  exact outcome

/-- An `exec` that returns 0 counts one thread and leaves the caller as the only
live one exactly if it was so before; one that returns -1 changes nothing. -/
theorem exec_leaves_one_thread (ends : exec process caller file argv memory =
      .done (after, result) final) :
    (result = 0 → after.numOfThreads = 1 ∧
      ((∀ thread, thread ≠ caller → (after.thread thread).Dead) ↔
        ∀ thread, thread ≠ caller → (process.thread thread).Dead)) ∧
    (result ≠ 0 → result = -1 ∧ after = process) := by
  rcases exec_result ends with ⟨rfl, rfl⟩ | ⟨rfl, space, sz, entry, sp, rfl⟩
  · refine ⟨fun isZero => ?_, fun _ => ⟨rfl, rfl⟩⟩
    cases isZero
  · exact ⟨fun _ => ⟨rfl, Iff.rfl⟩, fun isFailure => absurd rfl isFailure⟩

def emptyProgram : ProgramFile where
  size := 52
  byte := fun off =>
    if off = 0 then 0x7f
    else if off = 1 then 0x45
    else if off = 2 then 0x4c
    else if off = 3 then 0x46
    else 0

def smallProcess (sibling : RunState) : Process where
  pgdir := ⟨90, fun _ => none, fun _ => none⟩
  sz := 0
  numOfThreads := 2
  thread := fun thread =>
    if thread.val = 0 then .running
    else if thread.val = 1 then sibling
    else .unused
  eip := fun _ => 0
  esp := fun _ => 0

def hundredPages : Memory where
  free := (List.range 100).map (100 + ·)
  byte := fun _ _ => 1
  data := 40
  kend := 50
  stored := []

/-- The result of `exec` and the states of the threads. -/
def threadsAfter (outcome : Outcome Memory Panic (Process × Int)) : Option (Int × List RunState) :=
  match outcome with
  | .done (after, result) _ => some (result, (List.finRange NTHREAD).map after.thread)
  | .stopped _ => none

theorem exec_leaves_one_thread_emptyProgram :
    ∃ after final, exec (smallProcess .zombie) ⟨0, by decide⟩
        (some emptyProgram) [] hundredPages = .done (after, 0) final ∧
      after.numOfThreads = 1 ∧ ∀ thread, thread ≠ ⟨0, by decide⟩ → (after.thread thread).Dead := by
  cases ends : exec (smallProcess .zombie) ⟨0, by decide⟩
      (some emptyProgram) [] hundredPages with
  | stopped reason =>
    have run : (threadsAfter (exec (smallProcess .zombie) ⟨0, by decide⟩
        (some emptyProgram) [] hundredPages)).isSome := by decide +kernel
    rw [ends] at run
    cases run
  | done value final =>
    obtain ⟨after, result⟩ := value
    have run : (threadsAfter (exec (smallProcess .zombie) ⟨0, by decide⟩
        (some emptyProgram) [] hundredPages)).map Prod.fst = some 0 := by
      decide +kernel
    rw [ends] at run
    obtain rfl : result = 0 := Option.some.inj run
    refine ⟨after, final, rfl, ?_⟩
    have left := (exec_leaves_one_thread ends).1 rfl
    exact ⟨left.1, left.2.mpr (by decide)⟩

/-- `exec` by thread 0 returns 0 while thread 1 is `RUNNABLE`, and thread 1
stays so. -/
theorem exec_keeps_runnable_sibling : threadsAfter (exec (smallProcess .runnable) ⟨0, by decide⟩
        (some emptyProgram) [] hundredPages) =
      some (0, [.running, .runnable] ++ List.replicate 14 .unused) := by
  decide +kernel

end Exec

end Xv6Kthreads
