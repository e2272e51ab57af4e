import Xv6Kthreads.BufferSharing
import Xv6Kthreads.LogFormat
import Xv6Kthreads.RedoLog

/-!
# The log on the buffer cache

Threads of the file system change blocks inside operations, and the last one to
leave commits.  `initlog` and `commit` are executed step by step: every `bget`,
every transfer and every `brelse` is a step, so that a crash can come between
any two sector writes, in a commit as well as in a recovery.  A crash keeps the
disk and nothing else.

Two history variables follow the groups of writes: `committed` has a group for
every header write of a commit that has completed, and `pending` has the writes
since then.
-/

namespace Xv6Kthreads

namespace LogSystem

open BufferCache BufferSharing LogCalls LogFormat RedoLog

def rootdev : UInt32 := 1

/-- What a script does with a single block: `readsb`, `read_head`, and
`write_head` in a commit or to clear the log. -/
inductive Purpose where
  | superblock
  | readHead
  | commitHead
  | clearHead
  deriving DecidableEq, Repr

/-- How far the access to a single block has come. -/
inductive AccessStage where
  | get
  | got (buf : BufSlot)
  | has (buf : BufSlot)
  | done (buf : BufSlot)
  deriving DecidableEq, Repr

/-- `write_log` copies from home to the log, `install_trans` from the log to
home. -/
inductive Direction where
  | toLog
  | toHome
  deriving DecidableEq, Repr

/-- How far one round of `write_log` or `install_trans` has come; both read the
log block first. -/
inductive CopyStage where
  | test
  | gotLog (logBuf : BufSlot)
  | hasLog (logBuf : BufSlot)
  | gotHome (logBuf homeBuf : BufSlot)
  | hasHome (logBuf homeBuf : BufSlot)
  | wrote (logBuf homeBuf : BufSlot)
  | releasing (buf : BufSlot)
  deriving DecidableEq, Repr

/-- Where `initlog` or `commit` is; `finished` is the second section of
`end_op`. -/
inductive Script where
  | idle
  | access (purpose : Purpose) (stage : AccessStage)
  | copy (direction : Direction) (tail : Nat) (stage : CopyStage)
  | finished
  deriving DecidableEq, Repr

/-- The thread `none` executes the script. -/
structure System (Client : Type*) where
  sharing : Sharing (Option Client) Block
  log : Log
  script : Script
  booted : Bool
  ops : List Client
  writing : Client → Option BufSlot
  committed : List (List (Nat × Block))
  pending : List (Nat × Block)

/-- What a thread that uses the file system can do next. -/
inductive Action where
  | bget (sector : Nat)
  | fill (slot : BufSlot)
  | modify (slot : BufSlot) (data : Block)
  | logWrite (slot : BufSlot)
  | logWriteAppend
  | brelse (slot : BufSlot)
  | beginOp
  | endOp

inductive Label (Client : Type*) where
  | client (client : Client) (action : Action)
  | script
  | crash

namespace System

variable {Client : Type*}

/-- The machine starts on a disk: memory is zero and `initlog` is called. -/
def boot (disk : Disk Block) (committed : List (List (Nat × Block))) : System Client where
  sharing := Sharing.boot (fun _ => 0) disk
  log := ⟨0, 0, 0, false, []⟩
  script := .access .superblock .get
  booted := false
  ops := []
  writing := fun _ => none
  committed := committed
  pending := []

def buf (system : System Client) (slot : BufSlot) : Buf Block :=
  system.sharing.cache.buf slot

def target (system : System Client) : Purpose → Nat
  | .superblock => 1
  | .readHead => system.log.start
  | .commitHead => system.log.start
  | .clearHead => system.log.start

def afterAccess (system : System Client) : Purpose → System Client
  | .superblock => { system with script := .access .readHead .get }
  | .readHead => { system with script := .copy .toHome 0 .test }
  | .commitHead => { system with script := .copy .toHome 0 .test }
  | .clearHead =>
    if system.booted then { system with script := .finished }
    else { system with script := .idle, booted := true }

def afterCopy (system : System Client) : Direction → System Client
  | .toLog => { system with script := .access .commitHead .get }
  | .toHome =>
    { system with
      log := system.log.clear
      script := .access .clearHead .get }

variable [DecidableEq Client] (system : System Client)

def store (sharing : Sharing (Option Client) Block) (slot : BufSlot)
    (data : Block) : Option (Sharing (Option Client) Block) :=
  match sharing.modify none slot data with
  | none => none
  | some modified => modified.bwrite none slot

def use (purpose : Purpose) (slot : BufSlot) : Option (System Client) :=
  match purpose with
  | .superblock =>
    let layout := readsb (system.buf slot).data
    some
      { system with
        log :=
          { system.log with
            start := layout.logStart
            size := layout.nlog }
        script := .access .superblock (.done slot) }
  | .readHead =>
    match readHead (system.buf slot).data with
    | none => none
    | some sectors =>
      some
        { system with
          log := { system.log with sectors := sectors }
          script := .access .readHead (.done slot) }
  | .commitHead =>
    match store system.sharing slot
        (putHead (system.buf slot).data system.log.sectors) with
    | none => none
    | some sharing =>
      some
        { system with
          sharing := sharing
          script := .access .commitHead (.done slot)
          committed := system.committed ++ [system.pending]
          pending := [] }
  | .clearHead =>
    match store system.sharing slot
        (putHead (system.buf slot).data system.log.sectors) with
    | none => none
    | some sharing =>
      some
        { system with
          sharing := sharing
          script := .access .clearHead (.done slot) }

def access (purpose : Purpose) : AccessStage → Option (System Client)
  | .get =>
    match system.sharing.bget none rootdev (system.target purpose) with
    | none => none
    | some (slot, sharing) =>
      some
        { system with
          sharing := sharing
          script := .access purpose (.got slot) }
  | .got slot =>
    match system.sharing.fill none slot with
    | none => none
    | some sharing =>
      some
        { system with
          sharing := sharing
          script := .access purpose (.has slot) }
  | .has slot => system.use purpose slot
  | .done slot =>
    match system.sharing.brelse none slot with
    | none => none
    | some sharing => some (afterAccess { system with sharing := sharing } purpose)

/-- The two buffers of a round: the one that is written and the one that it is
copied from. -/
def destination : Direction → BufSlot → BufSlot → BufSlot
  | .toLog, logBuf, _ => logBuf
  | .toHome, _, homeBuf => homeBuf

def source : Direction → BufSlot → BufSlot → BufSlot
  | .toLog, _, homeBuf => homeBuf
  | .toHome, logBuf, _ => logBuf

/-- One step of a round of `write_log` or `install_trans`. -/
def copy (direction : Direction) (tail : Nat) : CopyStage → Option (System Client)
  | .test =>
    if tail < system.log.sectors.length then
      match system.sharing.bget none rootdev (system.log.start + tail + 1) with
      | none => none
      | some (slot, sharing) =>
        some
          { system with
            sharing := sharing
            script := .copy direction tail (.gotLog slot) }
    else some (system.afterCopy direction)
  | .gotLog logBuf =>
    match system.sharing.fill none logBuf with
    | none => none
    | some sharing =>
      some
        { system with
          sharing := sharing
          script := .copy direction tail (.hasLog logBuf) }
  | .hasLog logBuf =>
    match system.log.sectors[tail]? with
    | none => none
    | some sector =>
      match system.sharing.bget none rootdev sector with
      | none => none
      | some (slot, sharing) =>
        some
          { system with
            sharing := sharing
            script := .copy direction tail (.gotHome logBuf slot) }
  | .gotHome logBuf homeBuf =>
    match system.sharing.fill none homeBuf with
    | none => none
    | some sharing =>
      some
        { system with
          sharing := sharing
          script := .copy direction tail (.hasHome logBuf homeBuf) }
  | .hasHome logBuf homeBuf =>
    match store system.sharing (destination direction logBuf homeBuf)
        (system.buf (source direction logBuf homeBuf)).data with
    | none => none
    | some sharing =>
      some
        { system with
          sharing := sharing
          script := .copy direction tail (.wrote logBuf homeBuf) }
  | .wrote logBuf homeBuf =>
    match system.sharing.brelse none (source direction logBuf homeBuf) with
    | none => none
    | some sharing =>
      some
        { system with
          sharing := sharing
          script := .copy direction tail (.releasing (destination direction logBuf homeBuf)) }
  | .releasing slot =>
    match system.sharing.brelse none slot with
    | none => none
    | some sharing =>
      some
        { system with
          sharing := sharing
          script := .copy direction (tail + 1) .test }

def runScript : Option (System Client) :=
  match system.script with
  | .idle => none
  | .access purpose stage => system.access purpose stage
  | .copy direction tail stage => system.copy direction tail stage
  | .finished => some { system with log := system.log.committed, script := .idle }

def finishLogWrite (client : Client) : Option (System Client) :=
  match system.writing client with
  | none => none
  | some slot =>
    match system.log.logWriteAppend (system.buf slot).sector with
    | none => none
    | some log =>
      match system.sharing.logWrite (some client) slot with
      | none => none
      | some sharing =>
        some
          { system with
            sharing := sharing
            log := log
            writing := Function.update system.writing client none }

/-- The first section of `end_op`, and the start of `commit`. -/
def leave (client : Client) : Option (System Client) :=
  match system.log.endOp with
  | .panics _ => none
  | .leaves log => some { system with log := log, ops := system.ops.erase client }
  | .commits log =>
    some
      { system with
        log := log
        ops := system.ops.erase client
        script :=
          if log.sectors.length > 0 then .copy .toLog 0 .test
          else .finished }

/-- A step of a thread that uses the file system and is not inside
`log_write`. -/
def act (client : Client) : Action → Option (System Client)
  | .bget sector =>
    match system.sharing.bget (some client) rootdev sector with
    | none => none
    | some (_, sharing) => some { system with sharing := sharing }
  | .fill slot =>
    match system.sharing.fill (some client) slot with
    | none => none
    | some sharing => some { system with sharing := sharing }
  | .modify slot data =>
    match system.sharing.modify (some client) slot data with
    | none => none
    | some sharing =>
      some
        { system with
          sharing := sharing
          pending := system.pending ++ [((system.buf slot).sector, data)] }
  | .logWrite slot =>
    if system.sharing.held (some client) slot = some .inUse then
      match system.log.logWriteCheck with
      | some _ => none
      | none =>
        some
          { system with
            writing := Function.update system.writing client (some slot) }
    else none
  | .logWriteAppend => none
  | .brelse slot =>
    match system.sharing.brelse (some client) slot with
    | none => none
    | some sharing => some { system with sharing := sharing }
  | .beginOp =>
    if client ∈ system.ops then none
    else
      match system.log.beginOp with
      | none => none
      | some log => some { system with log := log, ops := client :: system.ops }
  | .endOp => if client ∈ system.ops then system.leave client else none

def step : Label Client → Option (System Client)
  | .client client .logWriteAppend => system.finishLogWrite client
  | .client client action =>
    if system.booted = true ∧ system.writing client = none then
      system.act client action
    else none
  | .script => system.runScript
  | .crash => some (boot system.sharing.disk system.committed)

/-- The disk has the contents of the buffer, or the buffer is dirty. -/
def Saved (slot : BufSlot) : Prop :=
  (system.buf slot).dirty = true ∨ (system.buf slot).data =
      system.sharing.disk (system.buf slot).dev (system.buf slot).sector

/-- The file system changes blocks inside operations only and outside the log
area, and logs what it has changed. -/
def Disciplined : Label Client → Prop
  | .client client (.modify slot data) =>
    client ∈ system.ops ∧ (system.buf slot).sector < system.log.start ∧
      ((system.buf slot).sector = 1 → readsb data = readsb (system.buf slot).data)
  | .client client (.logWrite slot) =>
    client ∈ system.ops ∧ (system.buf slot).sector < system.log.start
  | .client _ (.brelse slot) => system.Saved slot
  | .client client .endOp => ∀ slot, system.sharing.held (some client) slot = some .inUse →
        system.Saved slot
  | _ => True

instance (system : System Client) (slot : BufSlot) : Decidable (system.Saved slot) :=
  inferInstanceAs (Decidable (_ ∨ _))

instance (system : System Client) : DecidablePred system.Disciplined := by
  intro label
  cases label with
  | client client action => cases action <;> unfold Disciplined <;> infer_instance
  | script => exact isTrue trivial
  | crash => exact isTrue trivial

end System

end LogSystem

end Xv6Kthreads
