import Mathlib.Data.UInt
import Mathlib.Logic.Function.Iterate

/-!
# The multiprocessor configuration table

`mpinit` walks over the entries behind the header of a table that the firmware
has left in memory.  The table is the function of its bytes, and places are
counted from the start of the header.  An iteration of the loop does nothing at
the end of the table: the loop terminates if it ever gets there.
-/

namespace Xv6Kthreads

namespace MpTable

def NCPU : Nat := 8

/-- `sizeof(struct mpconf)`. -/
def headerSize : Nat := 44

inductive EntryType where
  | mpproc
  | mpbus
  | mpioapic
  | mpiointr
  | mplintr
  deriving DecidableEq

def entryType (byte : UInt8) : Option EntryType :=
  match byte.toNat with
  | 0 => some .mpproc
  | 1 => some .mpbus
  | 2 => some .mpioapic
  | 3 => some .mpiointr
  | 4 => some .mplintr
  | _ => none

/-- The bytes by which the loop moves on. -/
def EntryType.size : EntryType → Nat
  | .mpproc => 20
  | _ => 8

section Table

variable (conf : Nat → UInt8)

def length : Nat :=
  (conf 4).toNat + 256 * (conf 5).toNat

def sum (len : Nat) : UInt8 :=
  ((List.range len).map conf).sum

/-- The checks of `mpconfig` on a table that it has found. -/
def mpconfig : Bool :=
  (conf 0, conf 1, conf 2, conf 3) = (0x50, 0x43, 0x4d, 0x50) ∧
    (conf 6 = 1 ∨ conf 6 = 4) ∧ sum conf (length conf) = 0

/-- The variables of `mpinit`, with the places at which it has read the type of
an entry and the entries of `cpus` that it has written. -/
structure State where
  p : Nat
  ismp : Bool
  ncpu : Nat
  bcpu : Nat
  ioapicid : UInt8
  types : List Nat
  written : List Nat

def start : State where
  p := headerSize
  ismp := true
  ncpu := 0
  bcpu := 0
  ioapicid := 0
  types := []
  written := []

/-- The body of the loop. -/
def entry (state : State) : State :=
  let state := { state with types := state.p :: state.types }
  match entryType (conf state.p) with
  | some .mpproc =>
    { state with
      ismp := state.ismp && state.ncpu == (conf (state.p + 1)).toNat
      bcpu := if conf (state.p + 3) &&& 2 ≠ 0 then state.ncpu else state.bcpu
      written := state.ncpu :: state.written
      ncpu := state.ncpu + 1
      p := state.p + 20 }
  | some .mpioapic => { state with ioapicid := conf (state.p + 1), p := state.p + 8 }
  | some .mpbus | some .mpiointr | some .mplintr => { state with p := state.p + 8 }
  | none => { state with ismp := false }

def iteration (state : State) : State :=
  if state.p < length conf then entry conf state else state

/-- What `mpinit` makes of the variables behind the loop. -/
def State.finish (state : State) : State :=
  if state.ismp then state else { state with ncpu := 1, ioapicid := 0 }

/-- The entries from `p` to the end of the table, all of known types. -/
inductive Entries : Nat → List EntryType → Prop where
  | done {p : Nat} (atEnd : length conf ≤ p) : Entries p []
  | cons {p : Nat} {type : EntryType} {rest : List EntryType} (inside : p < length conf)
      (known : entryType (conf p) = some type) (entries : Entries (p + type.size) rest) :
      Entries p (type :: rest)

/-- What the loop has done when it has passed `count` processor entries. -/
structure Walked (state final : State) (count : Nat) : Prop where
  atEnd : length conf ≤ final.p
  ncpu : final.ncpu = state.ncpu + count
  ismp : count = 0 → final.ismp = state.ismp
  types : ∀ place ∈ final.types, place ∈ state.types ∨ place < length conf
  written : ∀ index, index ∈ final.written ↔
    index ∈ state.written ∨ state.ncpu ≤ index ∧ index < state.ncpu + count

end Table

variable {conf : Nat → UInt8} {state final : State} {types : List EntryType} {type : EntryType}

theorem entry_known (known : entryType (conf state.p) = some type) :
    (entry conf state).p = state.p + type.size ∧
    (entry conf state).types = state.p :: state.types ∧
    (entry conf state).ncpu = state.ncpu + (if type == .mpproc then 1 else 0) ∧
    (type ≠ .mpproc → (entry conf state).ismp = state.ismp) ∧
    ∀ index, index ∈ (entry conf state).written ↔
      index ∈ state.written ∨ index = state.ncpu ∧ type = .mpproc := by
  cases type <;> simp [entry, known, EntryType.size, or_comm]

theorem Walked.refl (atEnd : length conf ≤ state.p) : Walked conf state state 0 :=
  ⟨atEnd, rfl, fun _ => rfl, fun _ => Or.inl, fun _ => ⟨Or.inl, fun member => member.elim id
    fun between => absurd between.2 (Nat.not_lt.mpr between.1)⟩⟩

theorem Walked.cons (inside : state.p < length conf)
    (known : entryType (conf state.p) = some type)
    (walked : Walked conf (entry conf state) final (types.count .mpproc)) :
    Walked conf state final ((type :: types).count .mpproc) := by
  obtain ⟨-, read, counted, keeps, stored⟩ := entry_known known
  rw [List.count_cons]
  refine ⟨walked.atEnd, ?_, ?_, ?_, ?_⟩
  · rw [walked.ncpu, counted]
    omega
  · intro noProcessor
    have other : type ≠ .mpproc := by
      rintro rfl
      simp at noProcessor
    exact (walked.ismp (by omega)).trans (keeps other)
  · intro place isRead
    rcases walked.types place isRead with before | below
    · rw [read] at before
      rcases List.mem_cons.mp before with rfl | before
      · exact Or.inr inside
      · exact Or.inl before
    · exact Or.inr below
  · intro index
    rw [walked.written, stored, counted]
    by_cases processor : type = .mpproc
    · subst processor
      simp only [beq_self_eq_true, if_true, and_true]
      grind
    · simp only [processor, and_false, or_false, beq_iff_eq, if_false, Nat.add_zero]

/-- The loop reaches the end of a table whose entries are all of known types. -/
theorem exists_walked (entries : Entries conf state.p types) :
    ∃ n, Walked conf state ((iteration conf)^[n] state) (types.count .mpproc) := by
  generalize isPlace : state.p = p at entries
  induction entries generalizing state with
  | done atEnd => exact ⟨0, .refl (isPlace ▸ atEnd)⟩
  | @cons p type rest inside known entries induction =>
    subst isPlace
    obtain ⟨n, walked⟩ := induction (entry_known known).1
    have moves : iteration conf state = entry conf state := if_pos inside
    refine ⟨n + 1, ?_⟩
    rw [Function.iterate_succ_apply, moves]
    exact walked.cons inside known

/-- The loop never leaves an entry of an unknown type. -/
theorem iterate_unknown (inside : state.p < length conf)
    (unknown : entryType (conf state.p) = none) (n : Nat) :
    ((iteration conf)^[n] state).p = state.p := by
  induction n with
  | zero => rfl
  | succ n induction =>
    rw [Function.iterate_succ_apply', iteration, induction, if_pos inside]
    simp [entry, induction, unknown]

/-- A loop that has come to the end has passed entries of known types only. -/
theorem entries_of_atEnd (n : Nat) (atEnd : length conf ≤ ((iteration conf)^[n] state).p) :
    ∃ types, Entries conf state.p types ∧
      Walked conf state ((iteration conf)^[n] state) (types.count .mpproc) := by
  induction n generalizing state with
  | zero => exact ⟨[], .done atEnd, .refl atEnd⟩
  | succ n induction =>
    rcases Nat.lt_or_ge state.p (length conf) with inside | past
    · have moves : iteration conf state = entry conf state := if_pos inside
      cases known : entryType (conf state.p) with
      | none =>
        rw [iterate_unknown inside known] at atEnd
        omega
      | some type =>
        rw [Function.iterate_succ_apply, moves] at atEnd ⊢
        obtain ⟨types, entries, walked⟩ := induction atEnd
        rw [(entry_known known).1] at entries
        exact ⟨type :: types, .cons inside known entries, walked.cons inside known⟩
    · have stays : iteration conf state = state := if_neg (Nat.not_lt.mpr past)
      rw [Function.iterate_fixed stays]
      exact ⟨[], .done past, .refl past⟩

/-- The loop terminates, reads the types of entries inside the table only, stays
inside `cpus` and leaves a possible number of processors exactly for the tables
of entries of known types, at least one and at most `NCPU` of them processors. -/
theorem mpinit_handles_iff (conf : Nat → UInt8) :
    (∃ n final, final = (iteration conf)^[n] start ∧ length conf ≤ final.p ∧
      (∀ place ∈ final.types, place < length conf) ∧ (∀ index ∈ final.written, index < NCPU) ∧
      (final.finish.ismp → 0 < final.finish.ncpu ∧ final.finish.ncpu ≤ NCPU)) ↔
    ∃ types, Entries conf headerSize types ∧ 0 < types.count .mpproc ∧
      types.count .mpproc ≤ NCPU := by
  constructor
  · rintro ⟨n, _, rfl, atEnd, -, stored, reported⟩
    obtain ⟨types, entries, walked⟩ := entries_of_atEnd n atEnd
    have counted : _ = 0 + _ := walked.ncpu
    refine ⟨types, entries, ?_, ?_⟩
    · by_contra none
      have isMp := walked.ismp (by omega)
      have isLeft : ((iteration conf)^[n] start).finish = (iteration conf)^[n] start := if_pos isMp
      rw [isLeft] at reported
      have := reported isMp
      omega
    · by_contra many
      have isStored := (walked.written NCPU).mpr (Or.inr ⟨Nat.zero_le _, by
        change NCPU < 0 + _
        omega⟩)
      exact Nat.lt_irrefl _ (stored NCPU isStored)
  · rintro ⟨types, entries, processor, fits⟩
    obtain ⟨n, walked⟩ := exists_walked (show Entries conf start.p types from entries)
    refine ⟨n, _, rfl, walked.atEnd, ?_, ?_, fun _ => ?_⟩
    · intro place isRead
      exact (walked.types place isRead).resolve_left nofun
    · intro index isWritten
      have below : _ ∧ index < 0 + _ := ((walked.written index).mp isWritten).resolve_left nofun
      omega
    · have counted : _ = 0 + _ := walked.ncpu
      unfold State.finish
      split
      · omega
      · exact ⟨Nat.one_pos, show 1 ≤ 8 by decide⟩

/-- A table of version 4 with the entries. -/
def tableOf (entries : List UInt8) (place : Nat) : UInt8 :=
  let length := (headerSize + entries.length).toUInt8
  ([0x50, 0x43, 0x4d, 0x50, length, 0, 4, -(0x34 + length + entries.sum)] ++
    List.replicate 36 0 ++ entries).getD place 0

/-- Entries for processors with ids from zero. -/
def processors (count : Nat) : List UInt8 :=
  (List.range count).flatMap fun id => [0, id.toUInt8] ++ List.replicate 18 0

/-- Two processors, a bus, an I/O APIC and two interrupt assignments. -/
def mixedEntries : List UInt8 :=
  processors 2 ++ [1, 0, 0x49, 0x53, 0x41, 0, 0, 0] ++ [2, 2, 0x11, 1, 0, 0, 0xc0, 0xfe] ++
    [3, 0, 0, 0, 0, 1, 2, 1] ++ [4, 3, 0, 0, 0, 0, 0xff, 0]

theorem mpinit_handles_mixedEntries :
    mpconfig (tableOf mixedEntries) ∧ ∃ n, length (tableOf mixedEntries) ≤
      ((iteration (tableOf mixedEntries))^[n] start).p := by
  have known : Entries (tableOf mixedEntries) headerSize
      [.mpproc, .mpproc, .mpbus, .mpioapic, .mpiointr, .mplintr] :=
    .cons (by decide) (by decide) (.cons (by decide) (by decide) (.cons (by decide) (by decide)
      (.cons (by decide) (by decide) (.cons (by decide) (by decide)
        (.cons (by decide) (by decide) (.done (by decide)))))))
  obtain ⟨n, _, rfl, atEnd, -⟩ :=
    (mpinit_handles_iff _).mpr ⟨_, known, by decide, by decide⟩
  exact ⟨by decide +kernel, n, atEnd⟩

/-- An unknown type keeps the loop where it is, a table without processors
leaves `ncpu` zero, and the ninth processor is stored behind `cpus`. -/
theorem mpinit_fails :
    (mpconfig (tableOf [5]) ∧ ∀ n, ((iteration (tableOf [5]))^[n] start).p < length (tableOf [5])) ∧
    (mpconfig (tableOf []) ∧ length (tableOf []) ≤ start.p ∧ start.finish.ismp ∧
      start.finish.ncpu = 0) ∧
    mpconfig (tableOf (processors 9)) ∧
      NCPU ∈ ((iteration (tableOf (processors 9)))^[9] start).written := by
  refine ⟨⟨by decide, fun n => ?_⟩, by decide, by decide +kernel, by decide +kernel⟩
  rw [iterate_unknown (by decide) (by decide)]
  decide

end MpTable

end Xv6Kthreads
