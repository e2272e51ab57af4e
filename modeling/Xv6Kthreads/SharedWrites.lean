import Xv6Kthreads.FsTransfer
import Xv6Kthreads.LabelledRun
import Mathlib.Algebra.BigOperators.Group.Finset.Basic
import Mathlib.Algebra.Order.BigOperators.Group.Finset
import Mathlib.Data.List.GetD

/-!
# Writers that share an open file

`filewrite` divides its bytes into chunks and writes each chunk in a section of
its own, between `ilock` and `iunlock`.  The processes that share a `struct
file` therefore interleave at the chunks, and each chunk goes to the offset at
which the chunk before it has ended.  This file runs any number of such calls
and shows that the bytes in the file are the chunks one after the other.
-/

namespace Xv6Kthreads

namespace FileSystem

open Sections Function Act List

def useFile (f : FileId) : Section File := do
  let file ← read fun fs => fs.file f
  if file.ref < 1 then
    stop .dangling
  else
    pure file

/-- `f->ip`, whose user panics or faults if it is null. -/
def fileInode (f : FileId) (message : Panic) : Section Entry := do
  let file ← useFile f
  match file.ip with
  | none => panic message
  | some ip => pure ip

def advance (f : FileId) (count : Int) : Section Unit := do
  let file ← useFile f
  if count > 0 then
    modify fun fs => fs.setFile f
      { fs.file f with off := file.off + count.toNat }
  else
    pure ()

section Sharing

variable [sb : Superblock]

def listBytes (data : List UInt8) : Bytes :=
  fun index => data.getD index 0

/-- What `filewrite` does to a regular inode between `ilock` and `iunlock`. -/
def writeSection (f : FileId) (src : Bytes) (n : Nat) : Section Int := do
  let ip ← fileInode f .nullPointer
  let file ← useFile f
  let count ← writei ip src file.off n
  advance f count
  pure count

namespace SharedWrites

/-- The local variables of a call of `filewrite`: `addr` and `n` as the bytes
that it is to write, and `i`. -/
structure Call where
  data : List UInt8
  i : Nat

def left : Option Call → List UInt8
  | none => []
  | some call => call.data.drop call.i

/-- The processes that share a file.  The last four fields are for the
statements only: the bytes that each process has given to its calls, the sum of
the `n` of all calls, the chunks in the order in which they have been written,
and the `n` of each call that has returned with its result. -/
structure State (Process : Type) where
  fs : Fs
  call : Process → Option Call
  given : Process → List UInt8
  total : Nat
  chunks : List (Process × List UInt8)
  returned : List (Nat × Int)

inductive Label (Process : Type) where
  | start (process : Process) (data : List UInt8)
  | chunk (process : Process)
  | finish (process : Process)

variable {Process : Type}

def initial (fs : Fs) : State Process :=
  ⟨fs, fun _ => none, fun _ => [], 0, [], []⟩

namespace State

variable (state : State Process)

def written : List UInt8 :=
  state.chunks.flatMap Prod.snd

/-- The bytes that the current call of a process has still to write. -/
def rest (process : Process) : List UInt8 :=
  left (state.call process)

variable [DecidableEq Process] (process : Process)

def writtenBy : List UInt8 :=
  (state.chunks.filter fun chunk => chunk.1 = process).flatMap Prod.snd

def starts (data : List UInt8) : State Process :=
  { state with
    call := update state.call process (some ⟨data, 0⟩)
    given := update state.given process (state.given process ++ data)
    total := state.total + data.length }

def returns (n : Nat) (result : Int) (fs : Fs) : State Process :=
  { state with
    fs := fs
    call := update state.call process none
    returned := (n, result) :: state.returned }

def writes (call : Call) (n : Nat) (fs : Fs) : State Process :=
  { state with
    fs := fs
    call := update state.call process (some { call with i := call.i + n })
    chunks := state.chunks ++ [(process, (call.data.drop call.i).take n)] }

end State

variable [DecidableEq Process]

/-- `filewrite`, which begins, runs an iteration of its loop, or returns.  An
iteration whose section panics is no step. -/
def step (f : FileId) (state : State Process) : Label Process → Option (State Process)
  | .start process data =>
    match state.call process with
    | some _ => none
    | none =>
      if (state.fs.file f).writable = false then
        some (state.returns process data.length (-1) state.fs)
      else
        match (state.fs.file f).type with
        | .inode => some (state.starts process data)
        | _ => none
  | .chunk process =>
    match state.call process with
    | none => none
    | some call =>
      if call.i < call.data.length then
        let n := min (call.data.length - call.i) maxChunk
        match writeSection f (listBytes (call.data.drop call.i)) n
            state.fs with
        | .stopped _ => none
        | .done count fs =>
          if count < 0 then
            some (state.returns process call.data.length (-1) fs)
          else if count ≠ n then
            none
          else
            some (state.writes process call n fs)
      else
        none
  | .finish process =>
    match state.call process with
    | none => none
    | some call =>
      if call.i < call.data.length then
        none
      else
        some (state.returns process call.data.length
          (if call.i = call.data.length then call.data.length else -1)
          state.fs)

/-- With the call that begins, all calls fit behind the first offset. -/
def fits (off : Nat) (state : State Process) : Label Process → Prop
  | .start _ data => off + (state.total + data.length) ≤ MAXFILE * BSIZE
  | _ => True

omit sb [DecidableEq Process] in
instance (off : Nat) (state : State Process) : DecidablePred (fits off state)
  | .start _ data => inferInstanceAs
      (Decidable (off + (state.total + data.length) ≤ MAXFILE * BSIZE))
  | .chunk _ => inferInstanceAs (Decidable True)
  | .finish _ => inferInstanceAs (Decidable True)

/-- The file is open for writing on a regular inode, which has been read into
the cache and whose blocks belong to no other inode. -/
structure Shared (others : Nat → Dinode) (f : FileId) (ip : Entry) (fs : Fs) : Prop where
  type : (fs.file f).type = .inode
  writable : (fs.file f).writable = true
  ref : 1 ≤ (fs.file f).ref
  inode : (fs.file f).ip = some ip
  regular : (fs.inode ip).copy.type = .file
  off : (fs.file f).off ≤ (fs.inode ip).copy.size
  owned : (fs.volume others ip).Owned

section Running

variable {others : Nat → Dinode} {f : FileId} {ip : Entry} {fs : Fs}

omit sb in
theorem wp_useFile {allowed : Stop → Prop} {post : File → Fs → Prop} (ref : 1 ≤ (fs.file f).ref) :
    (useFile f).wp fs allowed post ↔ post (fs.file f) fs := by
  have isOpen : ¬ (fs.file f).ref < 1 := by omega
  unfold useFile
  rw [wp_bind, wp_read, if_neg isOpen, wp_pure]

omit sb in
theorem wp_fileInode {allowed : Stop → Prop} {post : Entry → Fs → Prop} {message : Panic}
    (ref : 1 ≤ (fs.file f).ref) (inode : (fs.file f).ip = some ip) :
    (fileInode f message).wp fs allowed post ↔ post ip fs := by
  unfold fileInode
  rw [wp_bind, wp_useFile ref, inode]
  exact wp_pure ip

/-- The chunk is written at the offset of the file, and the offset moves to its
end. -/
theorem wp_writeSection {src : Bytes} {n : Nat} {allowed : Stop → Prop}
    {post : Int → Fs → Prop} (ref : 1 ≤ (fs.file f).ref)
    (inode : (fs.file f).ip = some ip)
    (owned : (fs.volume others ip).Owned)
    (full : ¬ fs.Room others ip .univ → allowed (.panic .ballocOutOfBlocks))
    (start : (fs.file f).off ≤ (fs.inode ip).copy.size)
    (inside : (fs.file f).off + n ≤ MAXFILE * BSIZE) (positive : 0 < n)
    (holds : ∀ after, Wrote others ip .univ src (fs.file f).off n fs after → post n (after.setFile f
        { fs.file f with off := (fs.file f).off + n })) :
    (writeSection f src n).wp fs allowed post := by
  unfold writeSection
  rw [wp_bind, wp_fileInode ref inode, wp_bind, wp_useFile ref, wp_bind]
  refine wp_writei owned full start inside (Finset.subset_univ _) ?_
  intro after wrote
  have file : after.file f = fs.file f := by rw [wrote.changes.file]
  have more : (n : Int) > 0 := by omega
  unfold advance
  rw [wp_bind, wp_bind, wp_useFile (by rw [file]; exact ref),
    if_pos more, wp_modify, wp_pure, file, Int.toNat_natCast]
  exact holds after wrote

/-! ### The invariant -/

variable [Fintype Process]

/-- The file holds the chunks in the order in which they were written. -/
structure Sound (others : Nat → Dinode) (f : FileId) (ip : Entry) (fs : Fs)
    (state : State Process) : Prop where
  file : state.fs.file f = { fs.file f with off := (fs.file f).off + state.written.length }
  size : (state.fs.inode ip).copy.size =
    max (fs.inode ip).copy.size ((fs.file f).off + state.written.length)
  owned : (state.fs.volume others ip).Owned
  room : fs.Room others ip .univ → state.fs.Room others ip .univ
  byteAt : ∀ at', (state.fs.inode ip).copy.byteAt state.fs.block at' =
    if (fs.file f).off ≤ at' ∧ at' < (fs.file f).off + state.written.length
    then state.written.getD (at' - (fs.file f).off) 0 else (fs.inode ip).copy.byteAt fs.block at'
  given : ∀ process, state.given process = state.writtenBy process ++ state.rest process
  bound : ∀ process call, state.call process = some call → call.i ≤ call.data.length
  total : state.written.length + ∑ process, (state.rest process).length = state.total
  fits : state.total ≤ MAXFILE * BSIZE - (fs.file f).off
  returned : ∀ n result, (n, result) ∈ state.returned → result = n

theorem Sound.initial (shared : Shared others f ip fs) :
    Sound others f ip fs (initial fs : State Process) where
  file := rfl
  size := (Nat.max_eq_left shared.off).symm
  owned := shared.owned
  room := id
  byteAt at' := by
    have outside : ¬ ((fs.file f).off ≤ at' ∧ at' < (fs.file f).off + 0) := by omega
    exact (if_neg outside).symm
  given _ := rfl
  bound _ _ isCall := by cases isCall
  total := by
    change 0 + ∑ _ : Process, 0 = 0
    simp
  fits := Nat.zero_le _
  returned _ _ isReturned := by cases isReturned

variable {state : State Process} {process : Process}

omit sb in
/-- The bytes that one process still has are counted in the sum. -/
theorem sum_update (rest : Process → List UInt8) (process : Process) (bytes : List UInt8) :
    ∑ other, (update rest process bytes other).length + (rest process).length =
      ∑ other, (rest other).length + bytes.length := by
  have before := Finset.add_sum_erase Finset.univ
    (fun other => (rest other).length) (Finset.mem_univ process)
  have after := Finset.add_sum_erase Finset.univ
    (fun other => (update rest process bytes other).length)
    (Finset.mem_univ process)
  have others : ∑ other ∈ Finset.univ.erase process, (update rest process bytes other).length =
        ∑ other ∈ Finset.univ.erase process, (rest other).length := by
    apply Finset.sum_congr rfl
    intro other isOther
    rw [update_of_ne (Finset.ne_of_mem_erase isOther)]
  rw [others, update_self] at after
  omega

omit sb in
theorem listBytes_take (data : List UInt8) {n index : Nat} (inside : index < n) :
    listBytes (data.take n) index = listBytes data index := by
  unfold listBytes
  rw [getD_eq_getElem?_getD, getD_eq_getElem?_getD, getElem?_take, if_pos inside]

omit sb [Fintype Process] in
theorem State.writtenBy_writes (state : State Process)
    (process other : Process) (call : Call) (n : Nat) (after : Fs) :
    (state.writes process call n after).writtenBy other = state.writtenBy other ++
        if process = other then (call.data.drop call.i).take n else [] := by
  unfold State.writtenBy State.writes
  by_cases same : process = other <;> simp [same]

section

omit sb [Fintype Process] [DecidableEq Process]

theorem rest_of_call {call : Call} (isCall : state.call process = some call) :
    state.rest process = call.data.drop call.i := by
  unfold State.rest
  rw [isCall]
  rfl

theorem rest_of_idle (idle : state.call process = none) : state.rest process = [] := by
  unfold State.rest
  rw [idle]
  rfl

end

omit sb [Fintype Process] in
theorem rest_update (state : State Process) (process : Process) (call : Option Call)
    {next : State Process} (calls : next.call = update state.call process call) :
    next.rest = update state.rest process (left call) := by
  unfold State.rest
  rw [calls]
  exact comp_update left state.call process call

namespace Sound

variable (sound : Sound others f ip fs state)

include sound

/-- A call of one process changes; the other calls stay in their bounds. -/
theorem bound_update {call : Option Call}
    (inside : ∀ isCall, call = some isCall → isCall.i ≤ isCall.data.length)
    (other : Process) (otherCall : Call)
    (isCall : update state.call process call other =
      some otherCall) : otherCall.i ≤ otherCall.data.length := by
  by_cases same : other = process
  · rw [same, update_self] at isCall
    exact inside otherCall isCall
  · rw [update_of_ne same] at isCall
    exact sound.bound other otherCall isCall

theorem starts {data : List UInt8} (idle : state.rest process = [])
    (fits : (fs.file f).off + (state.total + data.length) ≤ MAXFILE * BSIZE) :
    Sound others f ip fs (state.starts process data) := by
  have rest : (state.starts process data).rest = update state.rest process data :=
    rest_update state process (some ⟨data, 0⟩) rfl
  refine { sound with given := ?_, bound := ?_, total := ?_, fits := ?_ }
  · intro other
    have before := sound.given other
    rw [rest]
    change update state.given process _ other = state.writtenBy other ++ _
    rcases eq_or_ne other process with rfl | same
    · rw [idle, append_nil] at before
      rw [update_self, update_self, before]
    · rw [update_of_ne same, update_of_ne same, before]
  · refine sound.bound_update ?_
    intro _ isCall
    cases isCall
    exact Nat.zero_le _
  · have before := sound.total
    have sum := sum_update state.rest process data
    rw [idle, length_nil] at sum
    rw [rest]
    change state.written.length + _ = state.total + data.length
    omega
  · change state.total + data.length ≤ _
    omega

theorem returns {n : Nat} (done : state.rest process = []) :
    Sound others f ip fs (state.returns process n n state.fs) := by
  have rest : (state.returns process n n state.fs).rest = state.rest := by
    have changed : (state.returns process n n state.fs).rest = update state.rest process [] :=
        rest_update state process none rfl
    rw [changed, ← done]
    exact update_eq_self process state.rest
  refine { sound with given := ?_, bound := ?_, total := ?_, returned := ?_ }
  · intro other
    rw [rest]
    exact sound.given other
  · refine sound.bound_update ?_
    intro _ isCall
    cases isCall
  · rw [rest]
    exact sound.total
  · intro m result isReturned
    rcases mem_cons.mp isReturned with isNew | isOld
    · cases isNew
      rfl
    · exact sound.returned m result isOld

theorem writes {call : Call} {n : Nat} {after : Fs} (isCall : state.call process = some call)
    (short : n ≤ call.data.length - call.i)
    (wrote : Wrote others ip .univ (listBytes (call.data.drop call.i))
      (state.fs.file f).off n state.fs after) :
    Sound others f ip fs (state.writes process call n (after.setFile f
      { state.fs.file f with off := (state.fs.file f).off + n })) := by
  have off : (state.fs.file f).off = (fs.file f).off + state.written.length := by rw [sound.file]
  have before := rest_of_call isCall
  have isChunk : ((call.data.drop call.i).take n).length = n := by
    rw [length_take, length_drop]
    omega
  generalize isNext : state.writes process call n (after.setFile f
      { state.fs.file f with off := (state.fs.file f).off + n }) = next
  have rest : next.rest = update state.rest process (call.data.drop (call.i + n)) := by
    rw [← isNext]
    exact rest_update state process (some ⟨call.data, call.i + n⟩) rfl
  have written : next.written = state.written ++ (call.data.drop call.i).take n := by
    rw [← isNext]
    unfold State.written State.writes
    simp
  have length : next.written.length = state.written.length + n := by
    rw [written, length_append, isChunk]
  have inode : next.fs.inode = after.inode := by
    rw [← isNext]
    rfl
  have block : next.fs.block = after.block := by
    rw [← isNext]
    rfl
  have volume : next.fs.volume others ip = after.volume others ip := by
    unfold Fs.volume
    rw [inode, block]
  refine ⟨?_, ?_, ?_, ?_, ?_, ?_, ?_, ?_, ?_, ?_⟩
  · have file : next.fs.file f = { state.fs.file f with off := (state.fs.file f).off + n } := by
      rw [← isNext]
      exact update_self ..
    rw [file, sound.file, length, Nat.add_assoc]
  · rw [inode, wrote.size, sound.size, off, length]
    omega
  · rw [volume]
    exact wrote.owned
  · intro room
    have roomy := wrote.room (sound.room room)
    unfold Fs.Room at roomy ⊢
    rw [volume, inode]
    exact roomy
  · intro at'
    have bytes := wrote.byteAt (state.fs.inode ip).inum at'
    have old : (state.fs.volume others ip).ino (state.fs.inode ip).inum =
      (state.fs.inode ip).copy := update_self ..
    have new : (after.volume others ip).ino (state.fs.inode ip).inum = (after.inode ip).copy := by
      rw [← wrote.changes.inum]
      exact update_self ..
    rw [old, new, sound.byteAt, off] at bytes
    rw [inode, block, bytes, length, written]
    by_cases isNew : (fs.file f).off + state.written.length ≤ at' ∧
        at' < (fs.file f).off + state.written.length + n
    · have shift : at' - (fs.file f).off - state.written.length =
        at' - ((fs.file f).off + state.written.length) := by omega
      rw [if_pos ⟨rfl, isNew⟩, if_pos (by omega), getD_append_right _ _ _ _ (by omega), shift]
      exact (listBytes_take _ (by omega)).symm
    · rw [if_neg (fun both => isNew both.2)]
      by_cases isOld : (fs.file f).off ≤ at' ∧ at' < (fs.file f).off + state.written.length
      · rw [if_pos isOld, if_pos (by omega), getD_append _ _ _ _ (by omega)]
      · rw [if_neg isOld, if_neg (by omega)]
  · intro other
    have given : next.given other = state.given other := by
      rw [← isNext]
      rfl
    have own : next.writtenBy other = state.writtenBy other ++
        if process = other then (call.data.drop call.i).take n else [] := by
      rw [← isNext]
      exact state.writtenBy_writes process other call n _
    rw [given, own, rest, sound.given other]
    rcases eq_or_ne process other with rfl | same
    · rw [if_pos rfl, update_self, before, append_assoc, ← drop_drop, take_append_drop]
    · rw [if_neg same, update_of_ne (Ne.symm same), append_nil]
  · rw [← isNext]
    refine sound.bound_update ?_
    intro _ isNew
    cases isNew
    change call.i + n ≤ call.data.length
    have bound := sound.bound process call isCall
    omega
  · have total := sound.total
    have sum := sum_update state.rest process (call.data.drop (call.i + n))
    rw [before, length_drop, length_drop] at sum
    have same : next.total = state.total := by
      rw [← isNext]
      rfl
    rw [rest, length, same]
    omega
  · rw [← isNext]
    exact sound.fits
  · rw [← isNext]
    exact sound.returned

/-- An iteration writes a chunk, unless `balloc` panics because the free
blocks do not suffice. -/
theorem chunk {call : Call} (shared : Shared others f ip fs)
    (isCall : state.call process = some call) (more : call.i < call.data.length) :
    (∃ n after, 0 < n ∧ n ≤ call.data.length - call.i ∧
      Wrote others ip .univ (listBytes (call.data.drop call.i)) (state.fs.file f).off n state.fs
        after ∧
      step f state (.chunk process) = some (state.writes process call n (after.setFile f
          { state.fs.file f with off := (state.fs.file f).off + n }))) ∨
    (¬ fs.Room others ip .univ ∧ writeSection f (listBytes (call.data.drop call.i))
          (min (call.data.length - call.i) maxChunk) state.fs =
        .stopped (.panic .ballocOutOfBlocks)) := by
  have off : (state.fs.file f).off = (fs.file f).off + state.written.length := by rw [sound.file]
  have before := rest_of_call isCall
  have share : (state.rest process).length ≤ ∑ other, (state.rest other).length :=
    Finset.single_le_sum (f := fun other => (state.rest other).length)
      (fun _ _ => Nat.zero_le _) (Finset.mem_univ process)
  have total := sound.total
  have fits := sound.fits
  rw [before, length_drop] at share
  generalize isCount : min (call.data.length - call.i) maxChunk = n
  have short : n ≤ call.data.length - call.i := by
    rw [← isCount]
    exact Nat.min_le_left _ _
  have positive : 0 < n := by
    rw [← isCount]
    exact Nat.lt_min.mpr ⟨by omega, by decide⟩
  have spec := @wp_writeSection sb others f ip state.fs (listBytes (call.data.drop call.i)) n
    (fun reason => ¬ fs.Room others ip .univ ∧ reason = .panic .ballocOutOfBlocks)
    (fun count after => count = n ∧ ∃ middle,
      Wrote others ip .univ (listBytes (call.data.drop call.i)) (state.fs.file f).off n state.fs
        middle ∧
      after = middle.setFile f { state.fs.file f with off := (state.fs.file f).off + n })
    (by rw [sound.file]; exact shared.ref)
    (by rw [sound.file]; exact shared.inode)
    sound.owned (fun noRoom => ⟨noRoom ∘ sound.room, rfl⟩)
    (by rw [off, sound.size]; exact Nat.le_max_right _ _)
    (by rw [off]; omega) positive
    (fun after wrote => ⟨rfl, after, wrote, rfl⟩)
  cases result : writeSection f (listBytes (call.data.drop call.i)) n state.fs with
  | stopped reason =>
    obtain ⟨noRoom, rfl⟩ := wp_of_stopped spec result
    exact .inr ⟨noRoom, rfl⟩
  | done count after =>
    obtain ⟨rfl, middle, wrote, rfl⟩ := wp_of_done spec result
    refine .inl ⟨n, middle, positive, short, wrote, ?_⟩
    simp only [step, isCall, if_pos more, isCount, result]
    rw [if_neg (by omega), if_neg (by simp)]

end Sound

/-- The invariant holds in every state of a run in which the calls fit. -/
theorem sound_of_reaches (shared : Shared others f ip fs) {after : State Process}
    (reaches : LabelledRun.GuardedReaches (step f) (fits (fs.file f).off)
      (initial fs) after) : Sound others f ip fs after := by
  refine reaches.invariant (Sound others f ip fs) (Sound.initial shared) ?_
  intro state label next sound guard stepTo
  cases label with
  | start process data =>
    simp only [step] at stepTo
    split at stepTo
    · cases stepTo
    rename_i idle
    have writable : ¬ (state.fs.file f).writable = false := by
      rw [sound.file]
      simp [shared.writable]
    have type : (state.fs.file f).type = .inode := by
      rw [sound.file]
      exact shared.type
    rw [if_neg writable, type] at stepTo
    cases stepTo
    exact sound.starts (rest_of_idle idle) guard
  | chunk process =>
    cases isCall : state.call process with
    | none => simp [step, isCall] at stepTo
    | some call =>
      by_cases more : call.i < call.data.length
      · obtain ⟨n, after, _, short, wrote, isStep⟩ | ⟨_, stopped⟩ :=
          sound.chunk shared isCall more
        · rw [isStep] at stepTo
          cases stepTo
          exact sound.writes isCall short wrote
        · simp [step, isCall, more, stopped] at stepTo
      · simp [step, isCall, more] at stepTo
  | finish process =>
    cases isCall : state.call process with
    | none => simp [step, isCall] at stepTo
    | some call =>
      by_cases more : call.i < call.data.length
      · simp [step, isCall, more] at stepTo
      · have bound := sound.bound process call isCall
        have done : call.i = call.data.length := by omega
        simp only [step, isCall, if_neg more, if_pos done] at stepTo
        cases stepTo
        refine sound.returns ?_
        rw [rest_of_call isCall]
        exact drop_eq_nil_of_le (Nat.le_of_eq done.symm)

end Running

end SharedWrites

end Sharing

namespace SharedWrites

/-- A disk with eight inodes and thirty blocks, of which the first five are
used. -/
@[reducible]
def smallDisk : Superblock where
  size := 30
  nblocks := 25
  ninodes := 8
  nlog := 0
  size_lt := by decide

def firstFile : FileId := ⟨0, by decide⟩

def firstEntry : Entry := ⟨0, by decide⟩

def emptyFile : Fs where
  dinode := fun _ => Dinode.zeroed
  block := fun b => if b = 4 then ByteBlock.setByte (fun _ => 0) 0 31
    else fun _ => 0
  inode := fun _ => ⟨2, 1, false, true, { Dinode.zeroed with type := .file }⟩
  holders := fun _ => 1
  locked := 0
  file := fun _ => ⟨.inode, 2, true, some firstEntry, 0⟩
  cwd := fun _ => none
  logged := []
  allocations := []

theorem shared_emptyFile : @Shared smallDisk (fun _ => Dinode.zeroed) firstFile firstEntry
      emptyFile := by
  have pointers : ∀ i place, (emptyFile.volume (fun _ => Dinode.zeroed)
      firstEntry).pointer i place = 0 := by
    intro i place
    have addrs : ((emptyFile.volume (fun _ => Dinode.zeroed)
        firstEntry).ino i).addrs = fun _ => 0 := by
      unfold Fs.volume
      dsimp only
      rw [update_apply]
      split <;> rfl
    cases place <;> simp [Volume.pointer, Dinode.pointer, addrs]
  have marked : ∀ b < 5, @Volume.marked smallDisk
      (emptyFile.volume (fun _ => Dinode.zeroed) firstEntry) b = true := by
    decide +kernel
  have owned := @Volume.Owned.mk smallDisk _
    (fun i place filled => absurd (pointers i place) filled)
    (fun i _ place _ filled => absurd (pointers i place) filled)
    (fun i place filled => absurd (pointers i place) filled)
    (fun b before _ => marked b before)
  have isOpen : (1 : Int) ≤ 2 := by decide
  exact @Shared.mk smallDisk _ firstFile firstEntry emptyFile rfl rfl isOpen
    rfl rfl (Nat.le_refl 0) owned

end SharedWrites

end FileSystem

end Xv6Kthreads
