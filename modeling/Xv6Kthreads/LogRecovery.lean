import Xv6Kthreads.LabelledRun
import Xv6Kthreads.LogScript

/-!
# Crash atomicity of the log

Whenever no commit and no recovery is running, in particular when `initlog` has
just returned, every block outside the log area is what the committed groups
have made of it: every group whose header write was completed is there, and
nothing else.
-/

namespace Xv6Kthreads

namespace LogSystem

open BufferCache BufferSharing LogCalls LogFormat RedoLog LabelledRun

section Runs

variable {Client : Type*} [DecidableEq Client]
variable {layout : Layout} {initial : Nat → Block}
variable {system next : System Client}

theorem Invariant.client (invariant : Invariant layout initial system) {client : Client}
    {action : Action} (disciplined : system.Disciplined (.client client action))
    (stepTo : system.step (.client client action) = some next) :
    Invariant layout initial next := by
  cases action with
  | logWriteAppend => exact invariant.logWriteAppend stepTo
  | bget sector =>
    obtain ⟨ready, stepTo⟩ := Option.ite_none_right_eq_some.mp stepTo
    exact invariant.bget ready.2 stepTo
  | fill slot =>
    obtain ⟨ready, stepTo⟩ := Option.ite_none_right_eq_some.mp stepTo
    exact invariant.fill ready.2 stepTo
  | modify slot data =>
    obtain ⟨ready, stepTo⟩ := Option.ite_none_right_eq_some.mp stepTo
    exact invariant.modify disciplined ready.2 stepTo
  | logWrite slot =>
    obtain ⟨_, stepTo⟩ := Option.ite_none_right_eq_some.mp stepTo
    exact invariant.logWrite disciplined stepTo
  | brelse slot =>
    obtain ⟨ready, stepTo⟩ := Option.ite_none_right_eq_some.mp stepTo
    exact invariant.brelse disciplined ready.2 stepTo
  | beginOp =>
    obtain ⟨ready, stepTo⟩ := Option.ite_none_right_eq_some.mp stepTo
    exact invariant.beginOp ready.1 stepTo
  | endOp =>
    obtain ⟨ready, stepTo⟩ := Option.ite_none_right_eq_some.mp stepTo
    exact invariant.endOp disciplined ready.1 ready.2 stepTo

theorem Invariant.step (formed : Layout.Formed layout) (invariant : Invariant layout initial system)
    (label : Label Client) (disciplined : system.Disciplined label)
    (stepTo : system.step label = some next) :
    Invariant layout initial next := by
  cases label with
  | client client action => exact invariant.client disciplined stepTo
  | script => exact invariant.runScript formed stepTo
  | crash =>
    cases stepTo
    exact invariant.crash

end Runs

structure WellFormed (disk : Disk Block) : Prop where
  superblock : 1 < (readsb (disk rootdev 1)).logStart
  clear : readHead (disk rootdev (readsb (disk rootdev 1)).logStart) = some []

theorem WellFormed.formed {disk : Disk Block} (wellFormed : WellFormed disk) :
    Layout.Formed (readsb (disk rootdev 1)) where
  superblock := wellFormed.superblock
  bounded := Nat.lt_of_le_of_lt (Nat.sub_le ..) (ByteBlock.word_lt ..)

theorem WellFormed.invariant {Client : Type*} {disk : Disk Block} (wellFormed : WellFormed disk) :
    Invariant (readsb (disk rootdev 1)) (disk rootdev) (System.boot disk [] : System Client) := by
  have good : ∀ sector, Good (readsb (disk rootdev 1)) sector (disk rootdev sector) := by
    rintro sector rfl
    rfl
  have header : ((System.boot disk [] : System Client).view
      (readsb (disk rootdev 1)).logStart (disk rootdev)).header = [] := by
    change (readHead (disk rootdev _)).getD [] = []
    rw [wellFormed.clear]
    rfl
  apply invariant_boot disk []
  · refine ⟨?_, ?_, fun _ _ _ => rfl⟩
    · rw [header]
      exact nofun
    · rw [header]
      exact fun _ _ impossible => by cases impossible
  · exact fun sector _ => good sector
  · exact fun sector _ => good sector

/-- Whenever neither a commit nor a recovery is running, the blocks outside the
log area are those of the committed groups, applied in order. -/
theorem committed_groups_are_durable {Client : Type*} [DecidableEq Client]
    {disk : Disk Block} (wellFormed : WellFormed disk)
    {system : System Client}
    (reaches : GuardedReaches System.step System.Disciplined (System.boot disk []) system)
    (initialised : system.script = .idle) (sector : Nat)
    (home : sector < (readsb (disk rootdev 1)).logStart) :
    system.sharing.disk rootdev sector =
      applyWrites (disk rootdev) system.committed.flatten sector := by
  have invariant := reaches.invariant (Invariant (readsb (disk rootdev 1)) (disk rootdev))
    wellFormed.invariant
    fun _ label _ invariant disciplined stepTo =>
      invariant.step wellFormed.formed label disciplined stepTo
  exact (invariant.running initialised).home sector home

def smallDisk : Disk Block :=
  fun _ sector =>
    if sector = 1 then
      ByteBlock.setWord (ByteBlock.setWord (fun _ => 0) 0 10) 3 5
    else fun _ => 0

/-- `initlog` returns, a client changes sector 2, the machine crashes right
after the header write of the commit, and `initlog` returns again. -/
def crashAfterHeader : List (Label Unit) :=
  List.replicate 13 .script ++ [.beginOp, .bget 2, .fill 2, .modify 2 fun _ => 7, .logWrite 2,
      .logWriteAppend, .brelse 2, .endOp].map (.client ()) ++
    List.replicate 11 .script ++ [.crash] ++ List.replicate 20 .script

theorem committed_groups_are_durable_crashAfterHeader : ∃ system : System Unit,
      GuardedReaches System.step System.Disciplined (System.boot smallDisk []) system ∧
      system.script = .idle ∧ system.committed.flatten.map Prod.fst = [2] ∧
      system.sharing.disk rootdev 2 =
        applyWrites (smallDisk rootdev) system.committed.flatten 2 := by
  have wellFormed : WellFormed smallDisk := by
    constructor
    · decide +kernel
    · decide +kernel
  obtain ⟨system, run, initialised, written⟩ :
      ∃ system ∈ runLabels (restrict System.step System.Disciplined)
      (System.boot smallDisk []) crashAfterHeader,
      system.script = .idle ∧ system.committed.flatten.map Prod.fst = [2] := by
    decide +kernel
  have reaches := guardedReaches_of_runLabels crashAfterHeader run
  exact ⟨system, reaches, initialised, written,
    committed_groups_are_durable wellFormed reaches initialised 2 (by decide +kernel)⟩

end LogSystem

end Xv6Kthreads
