import Xv6Kthreads.LogInvariant

/-!
# The steps of commit and recovery

Taking, filling and releasing a buffer leave the view of the redo log alone and
change only what the script holds.  The sector writes of `write_log`,
`write_head` and `install_trans` are the transitions of the redo log, because
the buffers of the script have the last contents of their sectors.
-/

namespace Xv6Kthreads

namespace LogSystem

open BufferCache BufferSharing LogCalls LogFormat RedoLog Function List

structure Layout.Formed (layout : Layout) : Prop where
  superblock : 1 < layout.logStart
  bounded : layout.logStart < 4294967296

section Script

variable {Client : Type*}
variable {layout : Layout} {initial : Nat → Block}
variable {system next : System Client} {slot : BufSlot} {sector tail : Nat} {script : Script}
variable {sharing : Sharing (Option Client) Block} {direction : Direction}

structure Continues (layout : Layout) (log : Log) (before after : Script) : Prop where
  wasBusy : before ≠ .idle
  busy : after ≠ .idle
  unfinished : after ≠ .finished
  located : after.Located → log.start = layout.logStart

theorem getD_of_getElem {sectors : List Nat} (found : sectors[tail]? = some sector) :
    sectors.getD tail 0 = sector := by
  rw [getD_eq_getElem?_getD, found]
  rfl

section Phases

variable {view : View Block} {start : Nat}

section

variable {now : CopyStage} (phase : Phase start view (.copy direction tail now))

include phase

/-- Another stage of the same round, with the same blocks written. -/
theorem Phase.stage {other : CopyStage} (same : other.progress tail = now.progress tail)
    (inRange : other ≠ .test → tail < view.sectors.length) :
    Phase start view (.copy direction tail other) := by
  cases direction with
  | toLog =>
    refine ⟨phase.1, ?_, inRange⟩
    rw [same]
    exact phase.2.1
  | toHome =>
    refine ⟨?_, inRange⟩
    rw [same]
    exact phase.1

theorem Phase.inRange (notTest : now ≠ .test) : tail < view.sectors.length := by
  cases direction with
  | toLog => exact phase.2.2 notTest
  | toHome => exact phase.2 notTest

theorem Phase.inHome : ∀ sector ∈ view.sectors, sector < start := by
  cases direction with
  | toLog => exact phase.1.inHome
  | toHome => exact phase.1.inHome

end

theorem Phase.nextRound (phase : Phase start view (.copy direction tail (.releasing slot))) :
    Phase start view (.copy direction (tail + 1) .test) := by
  cases direction with
  | toLog => exact ⟨phase.1, phase.2.1, fun impossible => absurd rfl impossible⟩
  | toHome => exact ⟨phase.1, fun impossible => absurd rfl impossible⟩

end Phases

variable (invariant : Invariant layout initial system)

include invariant

theorem Invariant.scriptData
    (member : (slot, Stage.inUse, sector) ∈ scriptHolds system.log system.script) :
    (system.buf slot).dev = rootdev ∧ (system.buf slot).sector = sector ∧
      (system.buf slot).data = system.sharing.last rootdev sector := by
  obtain ⟨held, dev, same⟩ := invariant.holds _ member
  have last := (invariant.shared.data_last held).2
  exact ⟨dev, same, last.trans (congrArg (system.sharing.last rootdev) same)⟩

theorem Invariant.start_of_located (atScript : system.script = script) (located : script.Located) :
    system.log.start = layout.logStart :=
  invariant.located (atScript ▸ located)

theorem Invariant.change_log {log : Log} (outstanding : log.outstanding = system.log.outstanding)
    (committing : log.committing = system.log.committing)
    (small : log.sectors.length ≤ logSize)
    (continues : Continues layout log system.script script)
    (holds : ∀ item ∈ scriptHolds log script, item ∈ scriptHolds system.log system.script)
    (phase : Phase layout.logStart
      { system.view layout.logStart initial with sectors := log.sectors }
      script) :
    Invariant layout initial { system with log, script } where
  __ := invariant
  outstanding := outstanding.trans invariant.outstanding
  located := continues.located
  small := small
  holds := fun item member => invariant.holds item (holds item member)
  idle := fun idle => absurd idle continues.busy
  busy := fun _ =>
    ⟨(invariant.busy continues.wasBusy).1, committing.trans (invariant.busy continues.wasBusy).2⟩
  finished := fun finished => absurd finished continues.unfinished
  within := ⟨invariant.within.home, invariant.within.current, invariant.within.durable⟩
  phase := phase

theorem stored_contents {data : Block}
    (member : (slot, Stage.inUse, sector) ∈ scriptHolds system.log system.script)
    (stores : System.store system.sharing slot data = some sharing) :
    sharing.disk rootdev = update (system.sharing.disk rootdev) sector data ∧
    sharing.last rootdev = update (system.sharing.last rootdev) sector data ∧
    ∀ other, Pinned sharing other → Pinned system.sharing other ∧ other ≠ sector := by
  obtain ⟨dev, same, _⟩ := invariant.scriptData member
  unfold System.buf at dev same
  have pinned := fun other (isPinned : Pinned sharing other) =>
    store_pinned invariant.shared stores isPinned
  obtain ⟨_, state⟩ := store_eq invariant.shared.sound stores
  rw [same] at pinned
  refine ⟨?_, ?_, pinned⟩
  · rw [state, dev, same]
    exact Disk.write_eq_update ..
  · rw [state, dev, same]
    exact Disk.write_eq_update ..

theorem Invariant.scriptStore {data : Block} {committed : List (List (Nat × Block))}
    {pending : List (Nat × Block)}
    (stores : System.store system.sharing slot data = some sharing)
    (continues : Continues layout system.log system.script script)
    (holds : scriptHolds system.log script = scriptHolds system.log system.script)
    (within : Within (Home layout.logStart) (Good layout) (System.view layout.logStart initial
        { system with sharing, script, committed, pending }))
    (phase : Phase layout.logStart (System.view layout.logStart initial { system with
        sharing, script, committed, pending }) script) :
    Invariant layout initial { system with sharing, script, committed, pending } := by
  have replaces := store_replaces invariant.shared.sound stores
  have frame := replaces.frame invariant.shared.sound
  obtain ⟨inUse, state⟩ := store_eq invariant.shared.sound stores
  refine ⟨invariant.shared.store stores, invariant.outstanding, ?_,
    continues.located, invariant.small, ?_,
    fun idle => absurd idle continues.busy,
    fun _ => invariant.busy continues.wasBusy,
    fun finished => absurd finished continues.unfinished, within, phase⟩
  · intro client other writing
    exact invariant.writing_kept frame client other writing (Option.some_ne_none client)
  · intro item member
    change item ∈ scriptHolds system.log script at member
    rw [holds] at member
    obtain ⟨held, dev, same⟩ := invariant.holds item member
    obtain ⟨keptDev, keptSector⟩ := replaces.identity item.1
    refine ⟨?_, keptDev.trans dev, keptSector.trans same⟩
    change sharing.held none item.1 = _
    rw [state]
    exact held

theorem Invariant.useSuperblock (formed : Layout.Formed layout)
    (atScript : system.script = .access .superblock (.has slot))
    (stepTo : system.use .superblock slot = some next) :
    Invariant layout initial next := by
  cases stepTo
  obtain ⟨_, _, data⟩ := invariant.scriptData (by
    rw [atScript]
    exact mem_singleton.mpr rfl)
  have found : readsb (system.buf slot).data = layout := by
    rw [data]
    exact invariant.within.current 1 formed.superblock rfl
  have phase := invariant.phase
  rw [atScript] at phase
  refine invariant.change_log rfl rfl invariant.small ⟨?_, nofun, nofun, ?_⟩ ?_ phase
  · rw [atScript]
    exact nofun
  · intro _
    rw [found]
  · intro item member
    rw [atScript]
    exact member

theorem Invariant.useReadHead (atScript : system.script = .access .readHead (.has slot))
    (stepTo : system.use .readHead slot = some next) :
    Invariant layout initial next := by
  simp only [System.use] at stepTo
  split at stepTo <;> cases stepTo
  rename_i sectors read
  have start := invariant.start_of_located atScript trivial
  obtain ⟨_, _, data⟩ := invariant.scriptData (by
    rw [atScript]
    exact mem_singleton.mpr rfl)
  rw [data, start, invariant.shared.logArea _ (Nat.le_refl _)] at read
  have header : (system.view layout.logStart initial).header = sectors := by
    change (readHead _).getD [] = sectors
    rw [read]
    rfl
  have phase := invariant.phase
  rw [atScript] at phase
  refine invariant.change_log rfl rfl (readHead_length read)
    ⟨?_, nofun, nofun, fun _ => start⟩ ?_ ?_
  · rw [atScript]
    exact nofun
  · intro item member
    rw [atScript]
    exact member
  · change Logged (Home layout.logStart) 0
      { system.view layout.logStart initial with sectors }
    rw [← header]
    exact Starting.readHeader phase

theorem header_agrees (script : Script) (committed : List (List (Nat × Block)))
    (pending : List (Nat × Block)) (start : system.log.start = layout.logStart)
    (member : (slot, Stage.inUse, system.log.start) ∈ scriptHolds system.log system.script)
    (small : ∀ sector ∈ system.log.sectors, sector < 4294967296)
    (stores : System.store system.sharing slot
      (putHead (system.buf slot).data system.log.sectors) = some sharing) :
    Agrees (Home layout.logStart) { system.view layout.logStart initial with
        header := system.log.sectors, durable := applyWrites initial committed.flatten, pending }
      (System.view layout.logStart initial { system with
          sharing, script, committed, pending }) := by
  obtain ⟨disk, last, pinned⟩ := stored_contents invariant member stores
  rw [start] at disk last
  refine agrees_of_contents disk last
    (fun _ home => update_of_ne (Nat.ne_of_lt home) ..) ?_ (fun _ => update_of_ne (by omega) ..)
    (fun _ home => update_of_ne (Nat.ne_of_lt home) ..)
    (fun sector isPinned => (pinned sector isPinned).1) rfl rfl rfl
  rw [update_self, readHead_putHead _ small invariant.small]
  rfl

/-- The header write of a commit makes the pending group durable. -/
theorem Invariant.useCommitHead (formed : Layout.Formed layout)
    (atScript : system.script = .access .commitHead (.has slot))
    (stepTo : system.use .commitHead slot = some next) :
    Invariant layout initial next := by
  simp only [System.use] at stepTo
  split at stepTo <;> cases stepTo
  rename_i sharing stores
  have wasBusy : system.script ≠ .idle := by simp [atScript]
  have start := invariant.start_of_located atScript trivial
  have phase := invariant.phase
  rw [atScript] at phase
  obtain ⟨running, written⟩ := phase
  have shared : Shared layout.logStart [] system.sharing :=
    (invariant.busy wasBusy).1 ▸ invariant.shared
  have small : ∀ sector ∈ system.log.sectors, sector < 4294967296 :=
    fun sector member =>
      Nat.lt_trans (running.inHome sector member) formed.bounded
  have agrees := header_agrees invariant (.access .commitHead (.done slot))
    (system.committed ++ [system.pending]) [] start (by
    rw [atScript]
    exact mem_singleton.mpr rfl) small stores
  rw [flatten_append, applyWrites_append, flatten_singleton] at agrees
  have unlogged : ∀ sector, Home layout.logStart sector → sector ∉ system.log.sectors →
        system.sharing.last rootdev sector =
          system.sharing.disk rootdev sector := by
    intro sector _ absent
    apply shared.last_eq_disk
    intro isPinned
    exact absent (running.pinned sector isPinned)
  refine invariant.scriptStore stores ⟨wasBusy, nofun, nofun, fun _ => start⟩ ?_ ?_ ?_
  · rw [atScript]
    rfl
  · exact (invariant.within.commit running).congr agrees
  · exact (running.commit written unlogged).congr agrees

theorem Invariant.useClearHead (atScript : system.script = .access .clearHead (.has slot))
    (stepTo : system.use .clearHead slot = some next) :
    Invariant layout initial next := by
  simp only [System.use] at stepTo
  split at stepTo <;> cases stepTo
  rename_i sharing stores
  have start := invariant.start_of_located atScript trivial
  have phase := invariant.phase
  rw [atScript] at phase
  have installed : Installed (Home layout.logStart) (system.view layout.logStart initial) := phase
  have empty : system.log.sectors = [] := installed.sectors
  have small : ∀ sector ∈ system.log.sectors, sector < 4294967296 := by
    rw [empty]
    exact nofun
  have agrees := header_agrees invariant (.access .clearHead (.done slot))
    system.committed system.pending start (by
    rw [atScript]
    exact mem_singleton.mpr rfl) small stores
  rw [empty] at agrees
  refine invariant.scriptStore stores ⟨by simp [atScript], nofun, nofun, fun _ => start⟩ ?_ ?_ ?_
  · rw [atScript]
    rfl
  · refine Within.congr ?_ agrees
    exact ⟨invariant.within.home, invariant.within.current, invariant.within.durable⟩
  · exact ⟨installed.clear.congr agrees, empty⟩

theorem Invariant.afterCopy (atScript : system.script = .copy direction tail .test)
    (all : ¬ tail < system.log.sectors.length) :
    Invariant layout initial (system.afterCopy direction) := by
  have wasBusy : system.script ≠ .idle := by simp [atScript]
  have start := invariant.start_of_located atScript trivial
  have phase := invariant.phase
  rw [atScript] at phase
  cases direction with
  | toLog =>
    obtain ⟨running, written, _⟩ := phase
    refine invariant.change_log rfl rfl invariant.small
      ⟨wasBusy, nofun, nofun, fun _ => start⟩ nofun ⟨running, ?_⟩
    intro index sector below found
    apply written index sector _ found
    change index < system.log.sectors.length at below
    change index < tail
    omega
  | toHome =>
    exact invariant.change_log rfl rfl (Nat.zero_le _) ⟨wasBusy, nofun, nofun, fun _ => start⟩ nofun
      (Logged.finish phase.1 (Nat.not_lt.mp all))

variable [DecidableEq Client]

theorem Invariant.scriptGet (got : system.sharing.bget none rootdev sector = some (slot, sharing))
    (continues : Continues layout system.log system.script script)
    (holds : scriptHolds system.log script =
      scriptHolds system.log system.script ++ [(slot, .reading, sector)])
    (phase : Phase layout.logStart (system.view layout.logStart initial) script) :
    Invariant layout initial { system with sharing, script } := by
  have frame := bget_frame invariant.shared.sound got
  obtain ⟨reading, identity, apart⟩ := bget_result invariant.shared.sound got
  apply invariant.script_quiet frame
    (bget_quiet invariant.shared.sound got) (invariant.shared.bget got)
    continues.located _ (fun idle => absurd idle continues.busy)
    (fun _ => invariant.busy continues.wasBusy)
    (fun finished => absurd finished continues.unfinished) phase
  intro item member
  rw [holds] at member
  rcases mem_append.mp member with member | member
  · obtain ⟨held, itemIdentity⟩ := invariant.holds item member
    have slotNe : item.1 ≠ slot := apart none item.1 (by
      rw [held]
      exact Option.some_ne_none _)
    rw [frame.held none item.1 fun both => slotNe both.2, frame.buf item.1 slotNe]
    exact ⟨held, itemIdentity⟩
  · rw [mem_singleton.mp member]
    exact ⟨reading, identity⟩

theorem Invariant.scriptFill (before : List (BufSlot × Stage × Nat)) (sector : Nat)
    (read : system.sharing.fill none slot = some sharing)
    (continues : Continues layout system.log system.script script)
    (held : scriptHolds system.log system.script = before ++ [(slot, .reading, sector)])
    (inUse : ∀ item ∈ before, item.2.1 = .inUse)
    (holds : scriptHolds system.log script = before ++ [(slot, .inUse, sector)])
    (phase : Phase layout.logStart (system.view layout.logStart initial) script) :
    Invariant layout initial { system with sharing, script } := by
  have replaces := fill_replaces invariant.shared.sound read
  have frame := replaces.frame invariant.shared.sound
  obtain ⟨reading, state⟩ := fill_eq invariant.shared.sound read
  apply invariant.script_quiet frame
    (fill_quiet invariant.shared.sound read) (invariant.shared.fill read)
    continues.located _ (fun idle => absurd idle continues.busy)
    (fun _ => invariant.busy continues.wasBusy)
    (fun finished => absurd finished continues.unfinished) phase
  intro item member
  rw [holds] at member
  rcases mem_append.mp member with member | member
  · obtain ⟨itemHeld, itemIdentity⟩ := invariant.holds item (by
      rw [held]
      exact mem_append_left _ member)
    have slotNe : item.1 ≠ slot := by
      intro equal
      rw [inUse item member, equal, reading] at itemHeld
      cases itemHeld
    rw [frame.held none item.1 fun both => slotNe both.2, frame.buf item.1 slotNe]
    exact ⟨itemHeld, itemIdentity⟩
  · rw [mem_singleton.mp member]
    obtain ⟨_, dev, same⟩ := invariant.holds (slot, .reading, sector) (by
      rw [held]
      simp)
    refine ⟨?_, ?_⟩
    · rw [state]
      exact system.sharing.hold_same ..
    · obtain ⟨sameDev, sameSector⟩ := replaces.identity slot
      exact ⟨sameDev.trans dev, sameSector.trans same⟩

theorem Invariant.scriptRelease
    {booted : Bool} (released : system.sharing.brelse none slot = some sharing)
    (located : script.Located → system.log.start = layout.logStart)
    (holds : ∀ item ∈ scriptHolds system.log script,
      item ∈ scriptHolds system.log system.script ∧ item.1 ≠ slot)
    (idle : script = .idle → booted = true ∧ system.log.committing = false)
    (busy : script ≠ .idle → system.ops = [] ∧ system.log.committing = booted)
    (finished : script = .finished → booted = true)
    (phase : Phase layout.logStart (system.view layout.logStart initial) script) :
    Invariant layout initial { system with sharing, script, booted } := by
  have frame := (brelse_replaces invariant.shared.sound released).frame invariant.shared.sound
  obtain ⟨inUse, _⟩ := brelse_eq released
  have saved : (system.sharing.cache.buf slot).dirty = true ∨ (system.sharing.cache.buf slot).data =
        system.sharing.disk (system.sharing.cache.buf slot).dev
          (system.sharing.cache.buf slot).sector := by
    rcases invariant.shared.saved none slot inUse with dirty | same | inOp
    · exact Or.inl dirty
    · exact Or.inr same
    · obtain ⟨client, _, impossible⟩ := inOp
      cases impossible
  apply invariant.script_quiet frame (brelse_quiet invariant.shared.sound released)
    (invariant.shared.brelse saved released) located _ idle busy finished
    phase
  intro item member
  obtain ⟨before, slotNe⟩ := holds item member
  rw [frame.held none item.1 fun both => slotNe both.2, frame.buf item.1 slotNe]
  exact invariant.holds item before

theorem Invariant.copyToLog {logBuf homeBuf : BufSlot}
    (atScript : system.script = .copy .toLog tail (.hasHome logBuf homeBuf))
    (stepTo : system.copy .toLog tail (.hasHome logBuf homeBuf) = some next) :
    Invariant layout initial next := by
  simp only [System.copy] at stepTo
  split at stepTo <;> cases stepTo
  rename_i sharing stores
  simp only [System.destination, System.source] at stores
  have start := invariant.start_of_located atScript trivial
  have phase := invariant.phase
  rw [atScript] at phase
  obtain ⟨running, written, inRange⟩ := phase
  have below : tail < system.log.sectors.length := inRange nofun
  have found := getElem?_eq_getElem below
  have member : (homeBuf, Stage.inUse, system.log.sectors[tail]) ∈
      scriptHolds system.log system.script := by
    rw [atScript, ← getD_of_getElem found]
    simp [scriptHolds]
  obtain ⟨_, _, data⟩ := invariant.scriptData member
  obtain ⟨disk, last, pinned⟩ := stored_contents invariant (by
    rw [atScript]
    exact mem_cons_self ..) stores
  rw [start] at disk last
  rw [data] at disk
  have agrees : Agrees (Home layout.logStart) { system.view layout.logStart initial with
        blocks := update (system.view layout.logStart initial).blocks tail
          ((system.view layout.logStart initial).current system.log.sectors[tail]) }
      (System.view layout.logStart initial { system with
          sharing, script := .copy .toLog tail (.wrote logBuf homeBuf) }) := by
    have outside : ∀ sector, Home layout.logStart sector → sector ≠ layout.logStart + tail + 1 := by
      intro sector inHome
      change sector < layout.logStart at inHome
      omega
    refine agrees_of_contents disk last (fun _ inHome => update_of_ne (outside _ inHome) ..) ?_ ?_
      (fun _ inHome => update_of_ne (outside _ inHome) ..)
      (fun sector isPinned => (pinned sector isPinned).1) rfl rfl rfl
    · rw [update_of_ne (by omega)]
      rfl
    · intro index
      dsimp only
      rcases eq_or_ne index tail with rfl | same
      · rw [update_self, update_self]
        rfl
      · rw [update_of_ne (by omega), update_of_ne same]
        rfl
  refine invariant.scriptStore stores ⟨by simp [atScript], nofun, nofun, fun _ => start⟩ ?_ ?_ ?_
  · rw [atScript]
    rfl
  · refine Within.congr ?_ agrees
    exact ⟨invariant.within.home, invariant.within.current, invariant.within.durable⟩
  · refine ⟨(running.logBlock _).congr agrees, ?_, fun _ => below⟩
    exact (Written.logBlock written found).congr running.inHome agrees

theorem Invariant.copyToHome {logBuf homeBuf : BufSlot}
    (atScript : system.script = .copy .toHome tail (.hasHome logBuf homeBuf))
    (stepTo : system.copy .toHome tail (.hasHome logBuf homeBuf) = some next) :
    Invariant layout initial next := by
  simp only [System.copy] at stepTo
  split at stepTo <;> cases stepTo
  rename_i sharing stores
  simp only [System.destination, System.source] at stores
  have start := invariant.start_of_located atScript trivial
  have phase := invariant.phase
  rw [atScript] at phase
  obtain ⟨logged, inRange⟩ := phase
  have below : tail < system.log.sectors.length := inRange nofun
  have found := getElem?_eq_getElem below
  have home : system.log.sectors[tail] < layout.logStart := logged.inHome _ (getElem_mem below)
  obtain ⟨_, _, data⟩ := invariant.scriptData (by
    rw [atScript]
    exact mem_cons_self ..)
  rw [start, invariant.shared.logArea _ (by omega)] at data
  have member : (homeBuf, Stage.inUse, system.log.sectors[tail]) ∈
      scriptHolds system.log system.script := by
    rw [atScript, ← getD_of_getElem found]
    simp [scriptHolds]
  obtain ⟨disk, last, pinned⟩ := stored_contents invariant member stores
  rw [data] at disk last
  have agrees : Agrees (Home layout.logStart) { system.view layout.logStart initial with
        home := update (system.view layout.logStart initial).home system.log.sectors[tail]
          ((system.view layout.logStart initial).blocks tail)
        current := update (system.view layout.logStart initial).current system.log.sectors[tail]
          ((system.view layout.logStart initial).blocks tail)
        pinned := fun other =>
          (system.view layout.logStart initial).pinned other ∧ other ≠ system.log.sectors[tail] }
      (System.view layout.logStart initial { system with
          sharing, script := .copy .toHome tail (.wrote logBuf homeBuf) }) := by
    refine agrees_of_contents disk last (fun _ _ => rfl) ?_ (fun _ => update_of_ne (by omega) ..)
      (fun _ _ => rfl) pinned rfl rfl rfl
    rw [update_of_ne (by omega)]
    rfl
  refine invariant.scriptStore stores ⟨by simp [atScript], nofun, nofun, fun _ => start⟩ ?_ ?_ ?_
  · rw [atScript]
    rfl
  · exact (invariant.within.install logged found).congr agrees
  · exact ⟨(logged.install found).congr agrees, fun _ => below⟩

theorem Invariant.access (formed : Layout.Formed layout) {purpose : Purpose}
    {stage : AccessStage} (atScript : system.script = .access purpose stage)
    (stepTo : system.access purpose stage = some next) :
    Invariant layout initial next := by
  have wasBusy : system.script ≠ .idle := by simp [atScript]
  have phase := invariant.phase
  have located := invariant.located
  rw [atScript] at phase located
  have continues {other : AccessStage} (same : (Script.access purpose other).Located →
        (Script.access purpose stage).Located) :
      Continues layout system.log system.script (.access purpose other) :=
    ⟨wasBusy, nofun, nofun, fun atOther => located (same atOther)⟩
  cases stage with simp only [System.access] at stepTo
  | get =>
    split at stepTo <;> cases stepTo
    next slot sharing got =>
      apply invariant.scriptGet got (continues (by cases purpose <;> exact id))
      · rw [atScript]
        cases purpose <;> rfl
      · cases purpose <;> exact phase
  | got slot =>
    split at stepTo <;> cases stepTo
    rename_i sharing read
    apply invariant.scriptFill [] (system.target purpose) read
      (continues (by cases purpose <;> exact id))
    · rw [atScript]
      cases purpose <;> rfl
    · exact nofun
    · cases purpose <;> rfl
    · cases purpose <;> exact phase
  | has slot =>
    cases purpose with
    | superblock => exact invariant.useSuperblock formed atScript stepTo
    | readHead => exact invariant.useReadHead atScript stepTo
    | commitHead => exact invariant.useCommitHead formed atScript stepTo
    | clearHead => exact invariant.useClearHead atScript stepTo
  | done slot =>
    split at stepTo <;> cases stepTo
    rename_i sharing released
    have start : system.log.start = layout.logStart := by
      cases purpose <;> exact located trivial
    have busy := invariant.busy wasBusy
    cases purpose with
    | superblock =>
      exact invariant.scriptRelease released (fun _ => start) nofun
        nofun (fun _ => busy) nofun phase
    | readHead | commitHead =>
      exact invariant.scriptRelease released (fun _ => start) nofun nofun (fun _ => busy) nofun
        ⟨phase, fun impossible => absurd rfl impossible⟩
    | clearHead =>
      simp only [System.afterAccess]
      split
      next booted =>
        exact invariant.scriptRelease released (fun _ => start) nofun
          nofun (fun _ => busy) (fun _ => booted) phase
      next notBooted =>
        have quiet : system.log.committing = false := by
          rw [busy.2]
          exact Bool.eq_false_iff.mpr notBooted
        exact invariant.scriptRelease released (fun _ => start) nofun
          (fun _ => ⟨rfl, quiet⟩) (fun busy => absurd rfl busy) nofun
          phase.1

theorem Invariant.copy {stage : CopyStage} (atScript : system.script = .copy direction tail stage)
    (stepTo : system.copy direction tail stage = some next) :
    Invariant layout initial next := by
  have wasBusy : system.script ≠ .idle := by simp [atScript]
  have start := invariant.start_of_located atScript trivial
  have continues {other : CopyStage} :
      Continues layout system.log system.script (.copy direction tail other) :=
    ⟨wasBusy, nofun, nofun, fun _ => start⟩
  have phase := invariant.phase
  rw [atScript] at phase
  have copied := stepTo
  cases stage with simp only [System.copy] at stepTo
  | test =>
    split at stepTo
    next below =>
      split at stepTo <;> cases stepTo
      next slot sharing got =>
        apply invariant.scriptGet got continues
        · rw [atScript]
          rfl
        · exact phase.stage rfl fun _ => below
    next all =>
      cases stepTo
      exact invariant.afterCopy atScript all
  | gotLog logBuf =>
    split at stepTo <;> cases stepTo
    rename_i sharing read
    apply invariant.scriptFill [] (system.log.start + tail + 1) read continues
    · rw [atScript]
      rfl
    · exact nofun
    · rfl
    · exact phase.stage rfl fun _ =>
        phase.inRange nofun
  | hasLog logBuf =>
    split at stepTo
    next => simp at stepTo
    next sector found =>
      split at stepTo <;> cases stepTo
      rename_i slot sharing got
      apply invariant.scriptGet got continues
      · rw [atScript, ← getD_of_getElem found]
        rfl
      · exact phase.stage rfl fun _ =>
          phase.inRange nofun
  | gotHome logBuf homeBuf =>
    split at stepTo <;> cases stepTo
    rename_i sharing read
    apply invariant.scriptFill [(logBuf, .inUse, system.log.start + tail + 1)]
      (system.log.sectors.getD tail 0) read continues
    · rw [atScript]
      rfl
    · intro item member
      rw [mem_singleton.mp member]
    · rfl
    · exact phase.stage rfl fun _ =>
        phase.inRange nofun
  | hasHome logBuf homeBuf =>
    cases direction with
    | toLog => exact invariant.copyToLog atScript copied
    | toHome => exact invariant.copyToHome atScript copied
  | wrote logBuf homeBuf =>
    split at stepTo <;> cases stepTo
    rename_i sharing released
    have below : tail < system.log.sectors.length := phase.inRange nofun
    have found := getElem?_eq_getElem below
    have home := phase.inHome _ (getElem_mem below)
    have apart : logBuf ≠ homeBuf := by
      rintro rfl
      have logSector := (invariant.holds (logBuf, .inUse, system.log.start + tail + 1) (by
          rw [atScript]
          simp [scriptHolds])).2.2
      have homeSector := (invariant.holds (logBuf, .inUse, system.log.sectors.getD tail 0) (by
          rw [atScript]
          simp [scriptHolds])).2.2
      simp only at logSector homeSector
      have value : system.log.sectors.getD tail 0 < layout.logStart := by
        rw [getD_of_getElem found]
        exact home
      omega
    apply invariant.scriptRelease released (fun _ => start)
    · intro item member
      rw [atScript]
      cases direction with
      | toLog =>
        rw [mem_singleton.mp member]
        exact ⟨mem_cons_self .., apart⟩
      | toHome =>
        rw [mem_singleton.mp member]
        exact ⟨mem_cons_of_mem _ (mem_singleton.mpr rfl), apart.symm⟩
    · exact nofun
    · exact fun _ => invariant.busy wasBusy
    · exact nofun
    · exact phase.stage rfl fun _ => below
  | releasing slot =>
    split at stepTo <;> cases stepTo
    next sharing released =>
      exact invariant.scriptRelease released (fun _ => start) nofun nofun
        (fun _ => invariant.busy wasBusy) nofun phase.nextRound

theorem Invariant.runScript (formed : Layout.Formed layout)
    (stepTo : system.runScript = some next) :
    Invariant layout initial next := by
  simp only [System.runScript] at stepTo
  split at stepTo
  next => simp at stepTo
  next purpose stage atScript => exact invariant.access formed atScript stepTo
  next direction tail stage atScript => exact invariant.copy atScript stepTo
  next atScript =>
    cases stepTo
    have phase := invariant.phase
    rw [atScript] at phase
    refine { invariant with
      located := ?_
      holds := ?_
      idle := ?_
      busy := fun busy => absurd rfl busy
      finished := ?_
      phase := phase.1 }
    · intro _
      apply invariant.located
      rw [atScript]
      trivial
    · exact nofun
    · exact fun _ => ⟨invariant.finished atScript, rfl⟩
    · exact nofun

end Script

end LogSystem

end Xv6Kthreads
