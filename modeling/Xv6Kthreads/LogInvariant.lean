import Xv6Kthreads.LogCache

/-!
# The invariant of the log

The place of the script decides the phase of the redo log that the disk, the
cache and the header in memory are in.  Clients change the view only while no
script runs; the steps of the script that take, fill and release buffers leave
the view alone; and its sector writes are the transitions of the redo log.
-/

namespace Xv6Kthreads

namespace LogSystem

open BufferCache BufferSharing LogCalls LogFormat RedoLog Function

def Home (start sector : Nat) : Prop :=
  sector < start

/-- A block that can stand at its sector: the superblock keeps the layout. -/
def Good (layout : Layout) (sector : Nat) (block : Block) : Prop :=
  sector = 1 → readsb block = layout

def System.view {Client : Type*} (start : Nat) (initial : Nat → Block)
    (system : System Client) : View Block where
  home := system.sharing.disk rootdev
  header := (readHead (system.sharing.disk rootdev start)).getD []
  blocks := fun index => system.sharing.disk rootdev (start + index + 1)
  current := system.sharing.last rootdev
  pinned := Pinned system.sharing
  sectors := system.log.sectors
  durable := applyWrites initial system.committed.flatten
  pending := system.pending

namespace CopyStage

/-- How many blocks have been written in the stage of round `tail`. -/
def progress (tail : Nat) : CopyStage → Nat
  | .wrote _ _ => tail + 1
  | .releasing _ => tail + 1
  | _ => tail

end CopyStage

def Script.Located : Script → Prop
  | .access .superblock .get => False
  | .access .superblock (.got _) => False
  | .access .superblock (.has _) => False
  | _ => True

/-- The buffers that the script holds, with their stages and sectors. -/
def scriptHolds (log : Log) : Script → List (BufSlot × Stage × Nat)
  | .idle => []
  | .access _ .get => []
  | .access .superblock (.got buf) => [(buf, .reading, 1)]
  | .access .superblock (.has buf) => [(buf, .inUse, 1)]
  | .access .superblock (.done buf) => [(buf, .inUse, 1)]
  | .access _ (.got buf) => [(buf, .reading, log.start)]
  | .access _ (.has buf) => [(buf, .inUse, log.start)]
  | .access _ (.done buf) => [(buf, .inUse, log.start)]
  | .copy _ _ .test => []
  | .copy _ tail (.gotLog logBuf) => [(logBuf, .reading, log.start + tail + 1)]
  | .copy _ tail (.hasLog logBuf) => [(logBuf, .inUse, log.start + tail + 1)]
  | .copy _ tail (.gotHome logBuf homeBuf) =>
    [(logBuf, .inUse, log.start + tail + 1), (homeBuf, .reading, log.sectors.getD tail 0)]
  | .copy _ tail (.hasHome logBuf homeBuf) =>
    [(logBuf, .inUse, log.start + tail + 1), (homeBuf, .inUse, log.sectors.getD tail 0)]
  | .copy _ tail (.wrote logBuf homeBuf) =>
    [(logBuf, .inUse, log.start + tail + 1), (homeBuf, .inUse, log.sectors.getD tail 0)]
  | .copy .toLog tail (.releasing buf) => [(buf, .inUse, log.start + tail + 1)]
  | .copy .toHome tail (.releasing buf) => [(buf, .inUse, log.sectors.getD tail 0)]
  | .finished => []

/-- The phase of the redo log at each place of the script. -/
def Phase (start : Nat) (view : View Block) : Script → Prop
  | .idle => Running (Home start) view
  | .access .superblock _ => Starting (Home start) view
  | .access .readHead (.done _) => Logged (Home start) 0 view
  | .access .readHead _ => Starting (Home start) view
  | .access .commitHead (.done _) => Logged (Home start) 0 view
  | .access .commitHead _ => Running (Home start) view ∧ Written view.sectors.length view
  | .access .clearHead (.done _) => Running (Home start) view ∧ view.sectors = []
  | .access .clearHead _ => Installed (Home start) view
  | .copy .toLog tail stage =>
    Running (Home start) view ∧ Written (stage.progress tail) view ∧
      (stage ≠ .test → tail < view.sectors.length)
  | .copy .toHome tail stage =>
    Logged (Home start) (stage.progress tail) view ∧ (stage ≠ .test → tail < view.sectors.length)
  | .finished => Running (Home start) view ∧ view.sectors = []

variable {script : Script}

theorem Phase.congr {start : Nat} {view next : View Block} (phase : Phase start view script)
    (agrees : Agrees (Home start) view next) : Phase start next script := by
  cases script with
  | idle => exact Running.congr phase agrees
  | finished =>
    refine ⟨Running.congr phase.1 agrees, ?_⟩
    rw [agrees.sectors]
    exact phase.2
  | access purpose stage =>
    cases purpose with
    | superblock => exact Starting.congr phase agrees
    | readHead =>
      cases stage with
      | done => exact Logged.congr phase agrees
      | get | got | has => exact Starting.congr phase agrees
    | commitHead =>
      have before : ∀ view' : View Block, Agrees (Home start) view view' →
          Running (Home start) view ∧ Written view.sectors.length view →
          Running (Home start) view' ∧ Written view'.sectors.length view' := by
        intro view' agrees running
        refine ⟨running.1.congr agrees, ?_⟩
        rw [agrees.sectors]
        exact running.2.congr running.1.inHome agrees
      cases stage with
      | done => exact Logged.congr phase agrees
      | get | got | has => exact before next agrees phase
    | clearHead =>
      cases stage with
      | done =>
        refine ⟨Running.congr phase.1 agrees, ?_⟩
        rw [agrees.sectors]
        exact phase.2
      | get | got | has => exact Installed.congr phase agrees
  | copy direction tail stage =>
    cases direction with
    | toLog =>
      obtain ⟨running, written, inRange⟩ := phase
      refine ⟨running.congr agrees, written.congr running.inHome agrees, ?_⟩
      rw [agrees.sectors]
      exact inRange
    | toHome =>
      refine ⟨Logged.congr phase.1 agrees, ?_⟩
      rw [agrees.sectors]
      exact phase.2

theorem Phase.recoverable {start : Nat} {view : View Block} (phase : Phase start view script) :
    Recoverable (Home start) view := by
  cases script with
  | idle => exact Running.recoverable phase
  | finished => exact phase.1.recoverable
  | access purpose stage =>
    cases purpose with
    | superblock => exact Starting.recoverable phase
    | readHead =>
      cases stage with
      | done => exact Logged.recoverable phase
      | get | got | has => exact Starting.recoverable phase
    | commitHead =>
      cases stage with
      | done => exact Logged.recoverable phase
      | get | got | has => exact phase.1.recoverable
    | clearHead =>
      cases stage with
      | done => exact phase.1.recoverable
      | get | got | has => exact Installed.recoverable phase
  | copy direction tail stage =>
    cases direction with
    | toLog | toHome => exact phase.1.recoverable

section Invariant

variable {Client : Type*}

structure Invariant (layout : Layout) (initial : Nat → Block) (system : System Client) : Prop where
  shared : Shared layout.logStart system.ops system.sharing
  outstanding : system.log.outstanding = system.ops.length
  writing : ∀ client slot, system.writing client = some slot → client ∈ system.ops ∧
    system.sharing.held (some client) slot = some .inUse ∧
    (system.buf slot).sector < layout.logStart
  located : system.script.Located → system.log.start = layout.logStart
  small : system.log.sectors.length ≤ logSize
  holds : ∀ item ∈ scriptHolds system.log system.script,
    system.sharing.held none item.1 = some item.2.1 ∧ (system.buf item.1).Holds rootdev item.2.2
  idle : system.script = .idle → system.booted = true ∧ system.log.committing = false
  busy : system.script ≠ .idle → system.ops = [] ∧ system.log.committing = system.booted
  finished : system.script = .finished → system.booted = true
  within : Within (Home layout.logStart) (Good layout) (system.view layout.logStart initial)
  phase : Phase layout.logStart (system.view layout.logStart initial) system.script

variable {layout : Layout} {initial : Nat → Block}
variable {system next : System Client}

theorem agrees_of_contents {start : Nat} {view : View Block} {disk last : Nat → Block}
    (diskEq : next.sharing.disk rootdev = disk) (lastEq : next.sharing.last rootdev = last)
    (home : ∀ sector, Home start sector → disk sector = view.home sector)
    (header : (readHead (disk start)).getD [] = view.header)
    (blocks : ∀ index, disk (start + index + 1) = view.blocks index)
    (current : ∀ sector, Home start sector → last sector = view.current sector)
    (pinned : ∀ sector, Pinned next.sharing sector → view.pinned sector)
    (sectors : next.log.sectors = view.sectors)
    (durable : applyWrites initial next.committed.flatten = view.durable)
    (pending : next.pending = view.pending) :
    Agrees (Home start) view (next.view start initial) := by
  subst diskEq lastEq
  exact ⟨home, header, fun index _ => blocks index, current, pinned, sectors, durable, pending⟩

theorem agrees_of_quiet {start : Nat} (quiet : Quiet system.sharing next.sharing)
    (sectors : next.log.sectors = system.log.sectors)
    (committed : next.committed = system.committed) (pending : next.pending = system.pending) :
    Agrees (Home start) (system.view start initial) (next.view start initial) := by
  refine agrees_of_contents (congrFun quiet.disk rootdev) (congrFun quiet.last rootdev)
    (fun _ _ => rfl) rfl (fun _ => rfl) (fun _ _ => rfl) quiet.pinned sectors ?_ pending
  rw [committed]
  rfl

variable {slot : BufSlot} {sharing : Sharing (Option Client) Block}

/-- What clients are writing is left alone by the steps of another thread. -/
theorem Invariant.writing_kept (invariant : Invariant layout initial system)
    {thread : Option Client} (frame : Frame system.sharing sharing thread slot) (client : Client)
    (other : BufSlot) (writing : system.writing client = some other)
    (otherNe : some client ≠ thread) :
    client ∈ system.ops ∧ sharing.held (some client) other = some .inUse ∧
      (sharing.cache.buf other).sector < layout.logStart := by
  obtain ⟨member, inUse, home⟩ := invariant.writing client other writing
  have kept := frame.kept otherNe (by
    rw [inUse]
    exact Option.some_ne_none _)
  refine ⟨member, ?_, ?_⟩
  · rw [kept.1]
    exact inUse
  · rw [kept.2]
    exact home

variable {client : Client}

section

variable (invariant : Invariant layout initial system)

include invariant

theorem Invariant.client_quiet (frame : Frame system.sharing sharing (some client) slot)
    (quiet : Quiet system.sharing sharing) (shared : Shared layout.logStart system.ops sharing)
    (outside : system.writing client = none) :
    Invariant layout initial { system with sharing } := by
  have agrees : Agrees (Home layout.logStart) (system.view layout.logStart initial)
      (({ system with sharing } : System Client).view
        layout.logStart initial) :=
    agrees_of_quiet quiet rfl rfl rfl
  refine { invariant with
    shared := shared
    writing := ?_
    holds := ?_
    within := invariant.within.congr agrees
    phase := invariant.phase.congr agrees }
  · intro other otherSlot writing
    apply invariant.writing_kept frame other otherSlot writing
    rintro equal
    cases equal
    have impossible := outside.symm.trans writing
    cases impossible
  · intro item member
    obtain ⟨held, identity⟩ := invariant.holds item member
    have isHeld : system.sharing.held none item.1 ≠ none := by
      rw [held]
      exact Option.some_ne_none _
    have kept := frame.kept (Option.some_ne_none client).symm isHeld
    refine ⟨?_, ?_⟩
    · change sharing.held none item.1 = _
      rw [kept.1]
      exact held
    · change (sharing.cache.buf item.1).Holds rootdev item.2.2
      rw [kept.2]
      exact identity

theorem Invariant.script_quiet {booted : Bool} (frame : Frame system.sharing sharing none slot)
    (quiet : Quiet system.sharing sharing)
    (shared : Shared layout.logStart system.ops sharing)
    (located : script.Located → system.log.start = layout.logStart)
    (holds : ∀ item ∈ scriptHolds system.log script, sharing.held none item.1 = some item.2.1 ∧
      (sharing.cache.buf item.1).Holds rootdev item.2.2)
    (idle : script = .idle → booted = true ∧ system.log.committing = false)
    (busy : script ≠ .idle → system.ops = [] ∧ system.log.committing = booted)
    (finished : script = .finished → booted = true)
    (phase : Phase layout.logStart (system.view layout.logStart initial) script) :
    Invariant layout initial { system with sharing, script, booted } := by
  have agrees : Agrees (Home layout.logStart) (system.view layout.logStart initial)
      (System.view layout.logStart initial { system with sharing, script, booted }) :=
    agrees_of_quiet quiet rfl rfl rfl
  refine ⟨shared, invariant.outstanding, ?_, located, invariant.small, holds,
    idle, busy, finished, invariant.within.congr agrees,
    phase.congr agrees⟩
  intro client other writing
  exact invariant.writing_kept frame client other writing (Option.some_ne_none client)

theorem Invariant.idle_of_mem (member : client ∈ system.ops) : system.script = .idle := by
  by_contra busy
  rw [(invariant.busy busy).1] at member
  cases member

theorem Invariant.start_eq (idle : system.script = .idle) : system.log.start = layout.logStart := by
  apply invariant.located
  rw [idle]
  trivial

theorem Invariant.running (idle : system.script = .idle) :
    Running (Home layout.logStart) (system.view layout.logStart initial) := by
  have phase := invariant.phase
  rw [idle] at phase
  exact phase

end

theorem invariant_boot (disk : Disk Block) (committed : List (List (Nat × Block)))
    (recoverable : Recoverable (Home layout.logStart)
      ((System.boot disk committed : System Client).view layout.logStart initial))
    (home : ∀ sector, Home layout.logStart sector → Good layout sector (disk rootdev sector))
    (durable : ∀ sector, Home layout.logStart sector →
      Good layout sector (applyWrites initial committed.flatten sector)) :
    Invariant layout initial (System.boot disk committed : System Client) where
  shared := shared_boot layout.logStart disk
  outstanding := rfl
  writing := fun _ _ writing => by cases writing
  located := fun located => located.elim
  small := Nat.zero_le _
  holds := fun _ member => by cases member
  idle := fun idle => by cases idle
  busy := fun _ => ⟨rfl, rfl⟩
  finished := fun finished => by cases finished
  within := ⟨home, home, durable⟩
  phase := ⟨recoverable, fun _ _ => rfl, pinned_boot disk, rfl⟩

theorem Invariant.crash (invariant : Invariant layout initial system) : Invariant layout initial
      (System.boot system.sharing.disk system.committed : System Client) := by
  have recoverable := invariant.phase.recoverable
  exact invariant_boot _ _ { recoverable with }
    invariant.within.home invariant.within.durable

variable [DecidableEq Client]

section

variable (invariant : Invariant layout initial system)

include invariant

theorem Invariant.bget {sector : Nat} (outside : system.writing client = none)
    (stepTo : system.act client (.bget sector) = some next) :
    Invariant layout initial next := by
  simp only [System.act] at stepTo
  split at stepTo <;> cases stepTo
  next slot sharing got =>
    exact invariant.client_quiet (bget_frame invariant.shared.sound got)
      (bget_quiet invariant.shared.sound got) (invariant.shared.bget got)
      outside

theorem Invariant.fill (outside : system.writing client = none)
    (stepTo : system.act client (.fill slot) = some next) :
    Invariant layout initial next := by
  simp only [System.act] at stepTo
  split at stepTo <;> cases stepTo
  next sharing read =>
    exact invariant.client_quiet ((fill_replaces invariant.shared.sound read).frame
        invariant.shared.sound)
      (fill_quiet invariant.shared.sound read) (invariant.shared.fill read)
      outside

theorem Invariant.brelse (saved : system.Saved slot) (outside : system.writing client = none)
    (stepTo : system.act client (.brelse slot) = some next) :
    Invariant layout initial next := by
  simp only [System.act] at stepTo
  split at stepTo <;> cases stepTo
  next sharing released =>
    exact invariant.client_quiet ((brelse_replaces invariant.shared.sound released).frame
        invariant.shared.sound)
      (brelse_quiet invariant.shared.sound released)
      (invariant.shared.brelse saved released) outside

theorem Invariant.modify {data : Block}
    (disciplined : system.Disciplined (.client client (.modify slot data)))
    (outside : system.writing client = none)
    (stepTo : system.act client (.modify slot data) = some next) :
    Invariant layout initial next := by
  obtain ⟨member, home, superblock⟩ := disciplined
  have idle := invariant.idle_of_mem member
  rw [invariant.start_eq idle] at home
  simp only [System.act] at stepTo
  split at stepTo <;> cases stepTo
  rename_i sharing modified
  have frame := (modify_replaces invariant.shared.sound modified).frame invariant.shared.sound
  obtain ⟨inUse, _⟩ := modify_eq modified
  obtain ⟨root, last⟩ := invariant.shared.data_last inUse
  obtain ⟨disk, changed, pinned⟩ := modify_quiet invariant.shared.sound modified
  rw [root] at changed
  have agrees : Agrees (Home layout.logStart) { system.view layout.logStart initial with
        current := update (system.view layout.logStart initial).current
          (system.buf slot).sector data
        pending := system.pending ++ [((system.buf slot).sector, data)] }
      (System.view layout.logStart initial { system with
          sharing
          pending := system.pending ++ [((system.buf slot).sector, data)] }) := by
    exact agrees_of_contents (congrFun disk rootdev)
      ((congrFun changed rootdev).trans (Disk.write_eq_update ..)) (fun _ _ => rfl) rfl
      (fun _ => rfl) (fun _ _ => rfl) pinned rfl rfl rfl
  have good : Good layout (system.buf slot).sector data := by
    intro one
    rw [superblock one, System.buf, last]
    exact invariant.within.current _ home one
  refine { invariant with
    shared := invariant.shared.modify member home modified
    writing := ?_
    holds := ?_
    within := (invariant.within.write good).congr agrees
    phase := ?_ }
  · intro other otherSlot writing
    apply invariant.writing_kept frame other otherSlot writing
    rintro equal
    cases equal
    have impossible := outside.symm.trans writing
    cases impossible
  · intro item inside
    change item ∈ scriptHolds system.log system.script at inside
    rw [idle] at inside
    cases inside
  · change Phase layout.logStart _ system.script
    rw [idle]
    exact ((invariant.running idle).write _ data).congr agrees

theorem Invariant.logWrite (disciplined : system.Disciplined (.client client (.logWrite slot)))
    (stepTo : system.act client (.logWrite slot) = some next) :
    Invariant layout initial next := by
  obtain ⟨member, home⟩ := disciplined
  have idle := invariant.idle_of_mem member
  rw [invariant.start_eq idle] at home
  obtain ⟨inUse, stepTo⟩ := Option.ite_none_right_eq_some.mp stepTo
  split at stepTo <;> cases stepTo
  refine { invariant with writing := ?_ }
  intro other otherSlot writing
  change update system.writing client (some slot) other = _ at writing
  rcases eq_or_ne other client with rfl | same
  · rw [update_self] at writing
    cases writing
    exact ⟨member, inUse, home⟩
  · rw [update_of_ne same] at writing
    exact invariant.writing other otherSlot writing

theorem Invariant.logWriteAppend (stepTo : system.finishLogWrite client = some next) :
    Invariant layout initial next := by
  simp only [System.finishLogWrite] at stepTo
  split at stepTo
  · simp at stepTo
  rename_i slot writing
  split at stepTo
  · simp at stepTo
  rename_i log appended
  split at stepTo <;> cases stepTo
  rename_i sharing logged
  obtain ⟨member, _, home⟩ := invariant.writing client slot writing
  have idle := invariant.idle_of_mem member
  have frame := (logWrite_replaces invariant.shared.sound logged).frame invariant.shared.sound
  obtain ⟨disk, last, pinned⟩ := logWrite_pinned invariant.shared.sound logged
  have agrees : Agrees (Home layout.logStart) { system.view layout.logStart initial with
        sectors := log.sectors
        pinned := fun other => Pinned system.sharing other ∨
          other = (system.buf slot).sector }
      (System.view layout.logStart initial { system with
          sharing, log, writing := update system.writing client none }) := by
    exact agrees_of_contents (congrFun disk rootdev) (congrFun last rootdev)
      (fun _ _ => rfl) rfl (fun _ => rfl) (fun _ _ => rfl) pinned rfl rfl rfl
  have kept : log.outstanding = system.log.outstanding ∧ log.committing = system.log.committing ∧
      log.start = system.log.start ∧
      log.sectors.length ≤ logSize := by
    rcases Log.logWriteAppend_eq appended with
      ⟨rfl, _⟩ | ⟨rfl, _, room⟩
    · exact ⟨rfl, rfl, rfl, invariant.small⟩
    · refine ⟨rfl, rfl, rfl, ?_⟩
      simpa [Nat.succ_le_iff] using room
  refine ⟨invariant.shared.logWrite logged, ?_, ?_, ?_, kept.2.2.2, ?_,
    ?_, ?_, invariant.finished, ?_, ?_⟩
  · exact kept.1.trans invariant.outstanding
  · intro other otherSlot otherWriting
    change update system.writing client none other = _ at otherWriting
    have otherNe : other ≠ client := by
      rintro rfl
      rw [update_self] at otherWriting
      cases otherWriting
    rw [update_of_ne otherNe] at otherWriting
    exact invariant.writing_kept frame other otherSlot otherWriting
      fun equal => otherNe (Option.some.inj equal)
  · exact fun located => kept.2.2.1.trans (invariant.located located)
  · intro item inside
    change item ∈ scriptHolds log system.script at inside
    rw [idle] at inside
    cases inside
  · intro _
    exact ⟨(invariant.idle idle).1, kept.2.1.trans (invariant.idle idle).2⟩
  · exact fun busy => absurd idle busy
  · refine Within.congr ?_ agrees
    exact ⟨invariant.within.home, invariant.within.current, invariant.within.durable⟩
  · change Phase layout.logStart _ system.script
    rw [idle]
    refine (Running.pin (invariant.running idle) home ?_).congr agrees
    exact fun other => Log.mem_logWriteAppend appended

theorem Invariant.beginOp (booted : system.booted = true)
    (stepTo : system.act client .beginOp = some next) :
    Invariant layout initial next := by
  simp only [System.act] at stepTo
  split at stepTo
  · simp at stepTo
  split at stepTo
  · simp at stepTo
  rename_i log begun
  obtain ⟨notCommitting, _, rfl⟩ := Log.beginOp_eq_some_iff.mp begun
  cases stepTo
  have idle : system.script = .idle := by
    by_contra busy
    have committing := (invariant.busy busy).2
    rw [notCommitting, booted] at committing
    exact Bool.noConfusion committing
  refine { invariant with
    shared := ?_
    outstanding := ?_
    writing := ?_
    busy := fun busy => absurd idle busy }
  · exact invariant.shared.change_ops fun other member =>
      Or.inl (List.mem_cons_of_mem _ member)
  · change system.log.outstanding + 1 = system.ops.length + 1
    rw [invariant.outstanding]
  · intro other slot writing
    obtain ⟨member, facts⟩ := invariant.writing other slot writing
    exact ⟨List.mem_cons_of_mem _ member, facts⟩

theorem Invariant.endOp (disciplined : system.Disciplined (.client client .endOp))
    (booted : system.booted = true) (outside : system.writing client = none)
    (stepTo : system.act client .endOp = some next) :
    Invariant layout initial next := by
  obtain ⟨member, stepTo⟩ := Option.ite_none_right_eq_some.mp stepTo
  have idle := invariant.idle_of_mem member
  have notCommitting := (invariant.idle idle).2
  have shorter := List.length_erase_of_mem member
  have outstanding := invariant.outstanding
  have shared : Shared layout.logStart (system.ops.erase client)
      system.sharing := by
    apply invariant.shared.change_ops
    intro other inside
    rcases eq_or_ne other client with rfl | same
    · exact Or.inr disciplined
    · exact Or.inl ((List.mem_erase_of_ne same).mpr inside)
  have writing : ∀ other slot, system.writing other = some slot → other ∈ system.ops.erase client ∧
      system.sharing.held (some other) slot = some .inUse ∧
      (system.buf slot).sector < layout.logStart := by
    intro other slot isWriting
    obtain ⟨inside, facts⟩ := invariant.writing other slot isWriting
    refine ⟨(List.mem_erase_of_ne ?_).mpr inside, facts⟩
    rintro rfl
    have impossible := outside.symm.trans isWriting
    cases impossible
  simp only [System.leave] at stepTo
  rcases Log.endOp_of_not_committing notCommitting with
    ⟨last, ends⟩ | ⟨_, ends⟩
  · rw [ends] at stepTo
    cases stepTo
    have none : system.ops.erase client = [] := by
      apply List.length_eq_zero_iff.mp
      omega
    refine ⟨shared, ?_, writing, fun _ => invariant.start_eq idle,
      invariant.small, ?_, ?_, fun _ => ⟨none, booted.symm⟩,
      fun _ => booted, invariant.within, ?_⟩
    · change system.log.outstanding - 1 = (system.ops.erase client).length
      omega
    · intro item inside
      split at inside
      · cases inside
      · cases inside
    · intro isIdle
      split at isIdle
      · cases isIdle
      · cases isIdle
    · simp only
      split
      next =>
        refine ⟨invariant.running idle, ?_, fun impossible =>
          absurd rfl impossible⟩
        intro index sector impossible
        exact absurd impossible (Nat.not_lt_zero index)
      next empty =>
        refine ⟨invariant.running idle, ?_⟩
        apply List.length_eq_zero_iff.mp
        change system.log.sectors.length = 0
        omega
  · rw [ends] at stepTo
    cases stepTo
    refine { invariant with
      shared := shared
      outstanding := ?_
      writing := writing
      busy := fun busy => absurd idle busy }
    change system.log.outstanding - 1 = (system.ops.erase client).length
    omega

end

end Invariant

end LogSystem

end Xv6Kthreads
