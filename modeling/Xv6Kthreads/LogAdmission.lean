import Mathlib.Algebra.Order.BigOperators.Group.List
import Mathlib.Algebra.Order.Ring.Nat
import Xv6Kthreads.LabelledRun
import Xv6Kthreads.LogCalls

/-!
# Admission of operations to the log

Any number of operations run between `begin_op` and `end_op`.  Each one may log
`MAXOPBLOCKS` distinct sectors, every one of them any number of times.
`begin_op` reserves that many entries of `LOGSIZE`, but the log that `mkfs` lays
out has `LOGSIZE` sectors with its header, and `log_write` refuses to go on when
all data sectors are used, even for a sector that is already logged.  So three
operations at a time can exhaust the log.

The account that bounds the header adds the entries in use and the sectors that
the running operations may still log.
-/

namespace Xv6Kthreads

namespace LogAdmission

open BufferCache LogCalls LabelledRun List

/-- An operation: the sectors that it has logged, and the one whose `log_write`
waits for the lock. -/
structure Op where
  logged : List Nat
  writing : Option Nat
  deriving DecidableEq, Repr

namespace Op

def Allows (op : Op) (sector : Nat) : Prop :=
  sector ∈ op.logged ∨ op.logged.length < maxOpBlocks

instance (op : Op) (sector : Nat) : Decidable (op.Allows sector) :=
  inferInstanceAs (Decidable (_ ∨ _))

def finish (op : Op) (sector : Nat) : Op where
  logged := if sector ∈ op.logged then op.logged else sector :: op.logged
  writing := none

def room (op : Op) : Nat :=
  maxOpBlocks - op.logged.length

end Op

/-- Where the thread that commits is. -/
inductive Commit where
  | idle
  | running
  | cleared
  deriving DecidableEq, Repr

structure Machine where
  log : Log
  ops : List Op
  commit : Commit
  panic : Option Panic
  deriving DecidableEq, Repr

inductive Label where
  | beginOp
  | logWrite (index sector : Nat)
  | logWriteAppend (index : Nat)
  | endOp (index : Nat)
  | clear
  | committed
  deriving DecidableEq, Repr

namespace Machine

def mkfsSize : Nat := 1024

def mkfsNlog : Nat := logSize

def boot : Machine where
  log := Log.initlog mkfsSize mkfsNlog
  ops := []
  commit := .idle
  panic := none

def act (machine : Machine) : Label → Option Machine
  | .beginOp =>
    match machine.log.beginOp with
    | none => none
    | some log =>
      some
        { machine with
          log := log
          ops := machine.ops ++ [⟨[], none⟩] }
  | .logWrite index sector =>
    match machine.ops[index]? with
    | none => none
    | some op =>
      if op.writing = none ∧ op.Allows sector then
        match machine.log.logWriteCheck with
        | some panic => some { machine with panic := some panic }
        | none =>
          some
            { machine with
              ops := machine.ops.set index { op with writing := some sector } }
      else none
  | .logWriteAppend index =>
    match machine.ops[index]? with
    | none => none
    | some op =>
      match op.writing with
      | none => none
      | some sector =>
        match machine.log.logWriteAppend sector with
        | none => none
        | some log =>
          some
            { machine with
              log := log
              ops := machine.ops.set index (op.finish sector) }
  | .endOp index =>
    match machine.ops[index]? with
    | none => none
    | some op =>
      if op.writing = none then
        match machine.log.endOp with
        | .panics panic => some { machine with panic := some panic }
        | .leaves log =>
          some
            { machine with
              log := log
              ops := machine.ops.eraseIdx index }
        | .commits log =>
          some
            { machine with
              log := log
              ops := machine.ops.eraseIdx index
              commit := .running }
      else none
  | .clear =>
    if machine.commit = .running then
      some { machine with log := machine.log.clear, commit := .cleared }
    else none
  | .committed =>
    if machine.commit = .cleared then
      some { machine with log := machine.log.committed, commit := .idle }
    else none

def step (machine : Machine) (label : Label) : Option Machine :=
  if machine.panic.isSome then none else machine.act label

theorem step_eq_act {machine : Machine} (running : machine.panic = none) (label : Label) :
    machine.step label = machine.act label := by
  simp [step, running]

end Machine

/-- The weights when one item of a list has been replaced. -/
theorem sum_replaced {α : Type*} (weight : α → Nat) {items : List α} {index : Nat} {old : α}
    (new : α) (found : items[index]? = some old) :
    ((items.set index new).map weight).sum + weight old = (items.map weight).sum + weight new := by
  obtain ⟨inside, rfl⟩ := List.getElem?_eq_some_iff.mp found
  have replaced := ((set_perm_cons_eraseIdx inside new).map weight).sum_nat
  have before := ((getElem_cons_eraseIdx_perm inside).map weight).sum_nat
  simp only [map_cons, sum_cons] at replaced before
  omega

/-- The entries in use and the sectors that running operations may still
log. -/
def account (machine : Machine) : Nat :=
  machine.log.sectors.length + (machine.ops.map Op.room).sum

/-- `begin_op` admits an operation only with two entries to spare. -/
def Spares (machine : Machine) : Label → Prop
  | .beginOp =>
    machine.log.sectors.length + (machine.log.outstanding + 1) * maxOpBlocks ≤ logSize - 2
  | _ => True

instance (machine : Machine) : DecidablePred (Spares machine) := by
  intro label
  cases label <;> unfold Spares <;> infer_instance

structure Op.Fits (log : Log) (op : Op) : Prop where
  logged : ∀ sector ∈ op.logged, sector ∈ log.sectors
  writing : ∀ sector, op.writing = some sector → op.Allows sector

structure Admitted (machine : Machine) : Prop where
  size : machine.log.size = logSize
  outstanding : machine.log.outstanding = machine.ops.length
  quiet : machine.commit ≠ .idle → machine.ops = []
  committing : machine.log.committing = decide (machine.commit ≠ .idle)
  fits : ∀ op ∈ machine.ops, op.Fits machine.log
  bounded : account machine ≤ logSize - 2
  noPanic : machine.panic = none

theorem room_le (op : Op) : op.room ≤ maxOpBlocks :=
  Nat.sub_le ..

/-- A finished `log_write` uses up room unless the operation had logged the
sector. -/
theorem room_finish {op : Op} {sector : Nat} (allowed : op.Allows sector) :
    (op.finish sector).room + (if sector ∈ op.logged then 0 else 1) =
      op.room := by
  unfold Op.finish Op.room
  by_cases member : sector ∈ op.logged
  · simp [member]
  · have below := allowed.resolve_left member
    simp only [member, if_false, length_cons]
    omega

theorem admitted_boot : Admitted Machine.boot where
  size := rfl
  outstanding := rfl
  quiet := fun busy => absurd rfl busy
  committing := rfl
  fits := fun _ member => by simp [Machine.boot] at member
  bounded := by decide
  noPanic := rfl

section Steps

variable {machine next : Machine}

section

variable (admitted : Admitted machine)
include admitted

/-- With two entries to spare the checks of `log_write` pass. -/
theorem Admitted.logWriteCheck (running : machine.ops ≠ []) : machine.log.logWriteCheck = none := by
  have bounded := admitted.bounded
  have size := admitted.size
  have outstanding := admitted.outstanding
  have positive := length_pos_iff.mpr running
  have limit : logSize - 2 + 2 = logSize := by decide
  unfold account at bounded
  unfold Log.logWriteCheck
  rw [if_neg (by omega), if_neg (by omega)]

theorem Admitted.beginOp (spares : Spares machine .beginOp)
    (stepTo : machine.act .beginOp = some next) : Admitted next := by
  simp only [Machine.act] at stepTo
  split at stepTo
  · simp at stepTo
  rename_i log begun
  obtain ⟨notCommitting, _, rfl⟩ := Log.beginOp_eq_some_iff.mp begun
  cases stepTo
  have idle : machine.commit = .idle := by
    have committing := admitted.committing
    rw [notCommitting] at committing
    by_contra busy
    simp [busy] at committing
  refine ⟨admitted.size, ?_, ?_, admitted.committing, ?_, ?_, admitted.noPanic⟩
  · simp [admitted.outstanding]
  · exact fun busy => absurd idle busy
  · intro op member
    rcases mem_append.mp member with member | member
    · exact ⟨(admitted.fits op member).logged, (admitted.fits op member).writing⟩
    · rw [mem_singleton.mp member]
      exact ⟨by simp, by simp⟩
  · have rooms := sum_le_card_nsmul (machine.ops.map Op.room) maxOpBlocks (by simp [room_le])
    rw [length_map, Nat.nsmul_eq_mul] at rooms
    have outstanding := admitted.outstanding
    simp only [Spares] at spares
    simp only [account, map_append, sum_append, map_cons, map_nil, sum_singleton]
    have fresh : Op.room ⟨[], none⟩ = maxOpBlocks := rfl
    rw [outstanding, Nat.add_mul, Nat.one_mul] at spares
    omega

theorem Admitted.logWrite {index sector : Nat}
    (stepTo : machine.act (.logWrite index sector) = some next) :
    Admitted next := by
  simp only [Machine.act] at stepTo
  split at stepTo
  · simp at stepTo
  rename_i op found
  have running : machine.ops ≠ [] := by
    intro empty
    simp [empty] at found
  rw [admitted.logWriteCheck running] at stepTo
  split at stepTo <;> cases stepTo
  rename_i allowed
  refine ⟨admitted.size, ?_, ?_, admitted.committing, ?_, ?_, admitted.noPanic⟩
  · simp [admitted.outstanding]
  · intro busy
    exact absurd (admitted.quiet busy) running
  · intro other member
    rcases mem_or_eq_of_mem_set member with member | rfl
    · exact admitted.fits other member
    · refine ⟨(admitted.fits op (mem_of_getElem? found)).logged, ?_⟩
      intro written same
      cases same
      exact allowed.2
  · have sums := sum_replaced Op.room { op with writing := some sector } found
    have same : Op.room { op with writing := some sector } = op.room := rfl
    have bounded := admitted.bounded
    unfold account at bounded ⊢
    simp only
    omega

theorem Admitted.logWriteAppend {index : Nat}
    (stepTo : machine.act (.logWriteAppend index) = some next) :
    Admitted next := by
  simp only [Machine.act] at stepTo
  split at stepTo
  · simp at stepTo
  rename_i op found
  split at stepTo
  · simp at stepTo
  rename_i sector writing
  split at stepTo <;> cases stepTo
  rename_i log appended
  have member := mem_of_getElem? found
  have fits := admitted.fits op member
  have allowed := fits.writing sector writing
  have kept : log.size = machine.log.size ∧ log.outstanding = machine.log.outstanding ∧
      log.committing = machine.log.committing := by
    rcases Log.logWriteAppend_eq appended with ⟨rfl, _⟩ | ⟨rfl, _⟩
    · exact ⟨rfl, rfl, rfl⟩
    · exact ⟨rfl, rfl, rfl⟩
  refine ⟨?_, ?_, ?_, ?_, ?_, ?_, admitted.noPanic⟩
  · rw [kept.1]
    exact admitted.size
  · rw [kept.2.1]
    simp [admitted.outstanding]
  · intro busy
    simp [admitted.quiet busy] at found
  · rw [kept.2.2]
    exact admitted.committing
  · intro other inside
    rcases mem_or_eq_of_mem_set inside with inside | rfl
    · have otherFits := admitted.fits other inside
      refine ⟨?_, otherFits.writing⟩
      intro logged loggedMember
      exact (Log.mem_logWriteAppend appended).mpr (Or.inl (otherFits.logged logged loggedMember))
    · refine ⟨?_, nofun⟩
      intro logged loggedMember
      apply (Log.mem_logWriteAppend appended).mpr
      unfold Op.finish at loggedMember
      split at loggedMember
      next => exact Or.inl (fits.logged logged loggedMember)
      next =>
        rcases mem_cons.mp loggedMember with rfl | loggedMember
        · exact Or.inr rfl
        · exact Or.inl (fits.logged logged loggedMember)
  · have sums := sum_replaced Op.room (op.finish sector) found
    have used := room_finish allowed
    have bounded := admitted.bounded
    unfold account at bounded ⊢
    simp only
    rcases Log.logWriteAppend_eq appended with
      ⟨rfl, _⟩ | ⟨rfl, fresh, _⟩
    · omega
    · have new : sector ∉ op.logged := fun logged =>
        fresh (fits.logged sector logged)
      rw [if_neg new] at used
      simp only [length_append, length_singleton]
      omega

theorem Admitted.endOp {index : Nat} (stepTo : machine.act (.endOp index) = some next) :
    Admitted next := by
  simp only [Machine.act] at stepTo
  split at stepTo
  · simp at stepTo
  rename_i op found
  have inRange : index < machine.ops.length := (List.getElem?_eq_some_iff.mp found).1
  have running : machine.ops ≠ [] := length_pos_iff.mp (by omega)
  have idle : machine.commit = .idle := by
    by_contra busy
    exact running (admitted.quiet busy)
  have notCommitting : machine.log.committing = false := by
    rw [admitted.committing, idle]
    rfl
  have outstanding := admitted.outstanding
  have shorter := length_eraseIdx_of_lt inRange
  have sums := ((eraseIdx_sublist machine.ops index).map Op.room).sum_le_sum (by simp)
  have bounded := admitted.bounded
  have kept : ∀ other ∈ machine.ops.eraseIdx index, other.Fits machine.log := fun other member =>
    admitted.fits other (mem_of_mem_eraseIdx member)
  unfold account at bounded
  obtain ⟨-, stepTo⟩ := Option.ite_none_right_eq_some.mp stepTo
  rcases Log.endOp_of_not_committing notCommitting with
    ⟨last, ends⟩ | ⟨more, ends⟩
  · rw [ends] at stepTo
    cases stepTo
    refine ⟨admitted.size, ?_, ?_, rfl, ?_, ?_, admitted.noPanic⟩
    · simp only
      omega
    · intro _
      apply length_eq_zero_iff.mp
      simp only
      omega
    · exact fun other member =>
        ⟨(kept other member).logged, (kept other member).writing⟩
    · unfold account
      simp only
      omega
  · rw [ends] at stepTo
    cases stepTo
    refine ⟨admitted.size, ?_, ?_, admitted.committing, ?_, ?_, admitted.noPanic⟩
    · simp only
      omega
    · exact fun busy => absurd idle busy
    · exact fun other member =>
        ⟨(kept other member).logged, (kept other member).writing⟩
    · unfold account
      simp only
      omega

theorem Admitted.clear (stepTo : machine.act .clear = some next) : Admitted next := by
  simp only [Machine.act] at stepTo
  split at stepTo <;> cases stepTo
  rename_i running
  have empty : machine.ops = [] := admitted.quiet (by simp [running])
  refine ⟨admitted.size, admitted.outstanding, fun _ => empty, ?_, ?_, ?_, admitted.noPanic⟩
  · have committing := admitted.committing
    simp only [running] at committing
    exact committing
  · simp [empty]
  · simp [account, Log.clear, empty]

theorem Admitted.committed (stepTo : machine.act .committed = some next) : Admitted next := by
  simp only [Machine.act] at stepTo
  split at stepTo <;> cases stepTo
  next cleared =>
    exact ⟨admitted.size, admitted.outstanding, fun busy => absurd rfl busy, rfl, fun op member =>
        ⟨(admitted.fits op member).logged, (admitted.fits op member).writing⟩,
      admitted.bounded, admitted.noPanic⟩

theorem Admitted.step (label : Label) (spares : Spares machine label)
    (stepTo : machine.step label = some next) : Admitted next := by
  rw [Machine.step_eq_act admitted.noPanic] at stepTo
  cases label with
  | beginOp => exact admitted.beginOp spares stepTo
  | logWrite index sector => exact admitted.logWrite stepTo
  | logWriteAppend index => exact admitted.logWriteAppend stepTo
  | endOp index => exact admitted.endOp stepTo
  | clear => exact admitted.clear stepTo
  | committed => exact admitted.committed stepTo

end

end Steps

/-- When every admission spares two entries, no `log_write` panics. -/
theorem no_transaction_too_big {machine : Machine}
    (reaches : GuardedReaches Machine.step Spares Machine.boot machine) :
    machine.panic ≠ some .tooBigTransaction := by
  have admitted := reaches.invariant Admitted admitted_boot fun _ label _ admitted spares stepTo =>
      admitted.step label spares stepTo
  rw [admitted.noPanic]
  exact (Option.some_ne_none _).symm

/-- One operation logs the sectors from `first` on, one after the other. -/
def logs (index first count : Nat) : List Label :=
  (range count).flatMap fun offset =>
    [.logWrite index (first + offset), .logWriteAppend index]

/-- Two operations that together log twenty sectors, one of them twice, and
commit. -/
def twoOperations : List Label :=
  [.beginOp, .beginOp] ++ logs 0 100 10 ++ logs 1 200 10 ++ logs 1 200 1 ++
    [.endOp 0, .endOp 0, .clear, .committed]

theorem no_transaction_too_big_twoOperations :
    ∃ machine, runLabels Machine.step Machine.boot twoOperations = some machine ∧
      machine.panic ≠ some .tooBigTransaction := by
  have run : (runLabels (restrict Machine.step Spares) Machine.boot twoOperations).isSome := by
    decide +kernel
  have same : runLabels Machine.step Machine.boot twoOperations =
      runLabels (restrict Machine.step Spares) Machine.boot twoOperations := by
    decide +kernel
  obtain ⟨machine, run⟩ := Option.isSome_iff_exists.mp run
  exact ⟨machine, same.trans run, no_transaction_too_big (guardedReaches_of_runLabels _ run)⟩

def threeOperations : List Label :=
  [.beginOp, .beginOp, .beginOp] ++ logs 0 100 10 ++ logs 1 200 10 ++
    logs 2 300 9 ++ [.logWrite 2 309]

theorem threeOperations_panic : ∃ machine, Reaches Machine.step Machine.boot machine ∧
      machine.panic = some .tooBigTransaction := by
  exact exists_reaches threeOperations (by decide +kernel)

end LogAdmission

end Xv6Kthreads
